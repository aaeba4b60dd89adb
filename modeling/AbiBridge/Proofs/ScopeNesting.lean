import Mathlib
import AbiBridge.Proofs.ScopeSession

/-!
# Both walks through a scope tree end, and each undoes the other

The walk outwards follows the parents (`Climbs`), the walk inwards keeps a stack of scopes to visit (`Drains`).
Neither is bounded by anything but the tree, which could have a loop as far as its type says. After any requests that
were served (`History`) it has none: parents come first, and the children of a scope are what its requests opened, in
that order. So both walks end with the lists that `chain` and `subtree` give, the one descends to the root, the other
visits nothing twice, and `History.walks_inverse` says that a scope is met by one exactly if the other comes back from
it. The locals of the root are then all that were declared.
-/

namespace AbiBridge.ScopeTree

open Wrapper

variable {t t' : ScopeTree} {a b c id s : Nat}

/-! ### Outwards -/

/-- The walk from a scope to its parent and on ends after the listed scopes, all of which exist. -/
inductive Climbs (t : ScopeTree) : ScopeId → List ScopeId → Prop
  | top {id : ScopeId} {s : Scope} (hs : t.scope? id = some s) (hp : s.parent = none) : Climbs t id [id]
  | up {id p : ScopeId} {s : Scope} {outer : List ScopeId} (hs : t.scope? id = some s) (hp : s.parent = some p)
    (rest : Climbs t p outer) : Climbs t id (id :: outer)

theorem climbs_chainWithin (ht : t.Ordered) {fuel : Nat} (hid : id < t.size) (hfuel : id < fuel) :
    t.Climbs id (t.chainWithin id fuel) := by
  induction fuel generalizing id with
  | zero => omega
  | succ fuel ih =>
    obtain ⟨s, hs⟩ := exists_scope? hid
    have hparent := parent?_of_scope? hs
    rw [chainWithin, hparent]
    cases hp : s.parent with
    | none => exact .top hs hp
    | some p =>
      have hlt : p < id := ht.parent_lt (hparent.trans hp)
      exact .up hs hp (ih (Nat.lt_trans hlt hid) (Nat.lt_of_lt_of_le hlt (Nat.le_of_lt_succ hfuel)))

theorem climbs_chain (ht : t.Ordered) (hid : id < t.size) : t.Climbs id (t.chain id) :=
  climbs_chainWithin ht hid hid

namespace Climbs

variable {outer : List ScopeId}

theorem le (ht : t.Ordered) (h : t.Climbs id outer) : ∀ a ∈ outer, a ≤ id := by
  induction h with
  | top => simp
  | @up id p s outer hs hp _ ih =>
    have hlt : p < id := ht.parent_lt ((parent?_of_scope? hs).trans hp)
    intro a ha
    rcases List.mem_cons.1 ha with rfl | ha
    · exact Nat.le_refl a
    · exact Nat.le_trans (ih a ha) (Nat.le_of_lt hlt)

theorem descends (ht : t.Ordered) (h : t.Climbs id outer) : outer.Pairwise (· > ·) := by
  induction h with
  | top => exact List.pairwise_singleton _ _
  | @up id p s outer hs hp rest ih =>
    have hlt : p < id := ht.parent_lt ((parent?_of_scope? hs).trans hp)
    exact List.pairwise_cons.2 ⟨fun a ha => Nat.lt_of_le_of_lt (rest.le ht a ha) hlt, ih⟩

theorem ne_nil (h : t.Climbs id outer) : outer ≠ [] := by
  cases h <;> simp

theorem getLast? (ht : t.Ordered) (h : t.Climbs id outer) : outer.getLast? = some root := by
  induction h with
  | @top id s hs hp =>
    rcases Nat.eq_zero_or_pos id with rfl | hpos
    · rfl
    · -- all but the root have a parent
      obtain ⟨p, hparent⟩ := ht.parent hpos (lt_size hs)
      rw [parent?_of_scope? hs, hp] at hparent
      cases hparent
  | up hs hp rest ih => rw [List.getLast?_cons_of_ne_nil rest.ne_nil, ih]

end Climbs

/-! ### Inwards -/

/-- The walk from the scopes on a stack, the next one first, ends after the listed scopes, all of which exist. A scope
that is visited leaves its children on the stack. -/
inductive Drains (t : ScopeTree) : List ScopeId → List ScopeId → Prop
  | done : Drains t [] []
  | visit {id : ScopeId} {s : Scope} {stack out : List ScopeId} (hs : t.scope? id = some s)
    (rest : Drains t (s.children ++ stack) out) : Drains t (id :: stack) (id :: out)

/-- A bound that reaches the last scope cuts nothing off. -/
theorem subtreeWithin_congr (ht : t.Ordered) {fuel fuel' : Nat} (hid : id < t.size) (h : t.size ≤ id + fuel)
    (h' : t.size ≤ id + fuel') : t.subtreeWithin fuel id = t.subtreeWithin fuel' id := by
  induction fuel generalizing id fuel' with
  | zero => omega
  | succ fuel ih =>
    obtain ⟨fuel', rfl⟩ := Nat.exists_eq_add_one_of_ne_zero (show fuel' ≠ 0 by omega)
    rw [subtreeWithin, subtreeWithin]
    refine congrArg _ (List.flatMap_congr fun c hc => ?_)
    have hparent := ht.mem_children.1 hc
    have hlt : id < c := ht.parent_lt hparent
    exact ih (lt_size_of_parent? hparent) (by omega) (by omega)

/-- Each scope before its children, and the whole of a child before the next one. -/
theorem subtree_eq (ht : t.Ordered) (hid : id < t.size) : t.subtree id = id :: (t.children id).flatMap t.subtree := by
  obtain ⟨k, hk⟩ := Nat.exists_eq_add_one_of_ne_zero (Nat.ne_zero_of_lt hid)
  have hroot : t.subtree id = id :: (t.children id).flatMap (t.subtreeWithin k) := by rw [subtree, hk, subtreeWithin]
  rw [hroot]
  refine congrArg _ (List.flatMap_congr fun c hc => ?_)
  have hparent := ht.mem_children.1 hc
  have hlt : id < c := ht.parent_lt hparent
  exact subtreeWithin_congr ht (lt_size_of_parent? hparent) (by omega) (by omega)

/-- A list of scopes on the stack is visited one scope with all inside it after the other. -/
theorem Drains.forest {stack out ids : List ScopeId} (h : t.Drains stack out)
    (hids : ∀ c ∈ ids, ∀ {stack out}, t.Drains stack out → t.Drains (c :: stack) (t.subtree c ++ out)) :
    t.Drains (ids ++ stack) (ids.flatMap t.subtree ++ out) := by
  induction ids with
  | nil => exact h
  | cons c ids ih =>
    rw [List.cons_append, List.flatMap_cons, List.append_assoc]
    exact hids c List.mem_cons_self (ih fun d hd => hids d (List.mem_cons_of_mem _ hd))

theorem Drains.subtree (ht : t.Ordered) {stack out : List ScopeId} (hid : id < t.size) (h : t.Drains stack out) :
    t.Drains (id :: stack) (t.subtree id ++ out) := by
  -- the scopes inside come later, so less of the tree is left for each of them
  induction hk : t.size - id using Nat.strong_induction_on generalizing id stack out with
  | _ k ih =>
    obtain ⟨s, hs⟩ := exists_scope? hid
    rw [subtree_eq ht hid, List.cons_append]
    refine .visit hs ?_
    rw [← children_eq hs]
    refine h.forest fun c hc stack out h => ?_
    have hparent := ht.mem_children.1 hc
    have hlt : id < c := ht.parent_lt hparent
    have hsize : c < t.size := lt_size_of_parent? hparent
    exact ih (t.size - c) (by omega) hsize h rfl

theorem drains_subtree (ht : t.Ordered) (hid : id < t.size) : t.Drains [id] (t.subtree id) := by
  have h := Drains.subtree ht hid .done
  rwa [List.append_nil] at h

theorem Encloses.total (ha : t.Encloses a s) (hb : t.Encloses b s) : t.Encloses a b ∨ t.Encloses b a := by
  induction ha with
  | refl => exact .inr hb
  | @step p c hp hap ih =>
    cases hb with
    | refl => exact .inl (.step hp hap)
    | step hp' hbp =>
      obtain rfl := Option.some.inj (hp.symm.trans hp')
      exact ih hbp

theorem Encloses.lt_size (h : t.Encloses a b) (ha : a < t.size) : b < t.size := by
  cases h with
  | refl => exact ha
  | step hp _ => exact lt_size_of_parent? hp

theorem eq_of_encloses (ht : t.Ordered) {p c d : Nat} (hc : t.parent? c = some p) (hd : t.parent? d = some p)
    (hcs : t.Encloses c s) (hds : t.Encloses d s) : c = d := by
  have hle : ∀ {x y : Nat}, t.parent? x = some p → t.parent? y = some p → t.Encloses x y → x = y := by
    intro x y hx hy hxy
    cases hxy with
    | refl => rfl
    | step hq hxq =>
      obtain rfl := Option.some.inj (hy.symm.trans hq)
      exact absurd (ht.parent_lt hx) (Nat.not_lt.2 (hxq.le ht))
  rcases hcs.total hds with h | h
  · exact hle hc hd h
  · exact (hle hd hc h).symm

theorem nodup_subtree (ht : t.Ordered) (hnodup : ∀ id, (t.children id).Nodup) (id : Nat) : (t.subtree id).Nodup := by
  rw [subtree]
  generalize t.size = fuel
  induction fuel generalizing id with
  | zero => exact List.nodup_nil
  | succ fuel ih =>
    refine List.nodup_cons.2 ⟨fun hmem => ?_, List.nodup_flatMap.2 ⟨fun c _ => ih c, ?_⟩⟩
    · obtain ⟨c, hc, hmem⟩ := List.mem_flatMap.1 hmem
      have hlt := ht.parent_lt (ht.mem_children.1 hc)
      exact Nat.not_lt.2 ((encloses_of_mem_subtreeWithin ht hmem).le ht) hlt
    · refine (hnodup id).imp_of_mem fun {c d} hc hd hne s hcs hds => hne ?_
      exact eq_of_encloses ht (ht.mem_children.1 hc) (ht.mem_children.1 hd) (encloses_of_mem_subtreeWithin ht hcs)
        (encloses_of_mem_subtreeWithin ht hds)

/-! ### One request -/

/-- The locals that a request declares. -/
def Request.declared : Request → List Local
  | .declare l => [l]
  | _ => []

/-- The scope that an answer says was opened. -/
def Answer.newScopes : Answer → List ScopeId
  | .opened c => [c]
  | _ => []

/-- What a request does to the nesting: it opens a scope in its own, or it changes its own and moves none. -/
inductive Effect (t : ScopeTree) (id : ScopeId) : Request → Answer → ScopeTree → Prop
  | opens (name : String) (kind : ScopeKind) :
    Effect t id (.child name kind) (.opened t.size) (t.newChild id name kind).2
  | fills {request : Request} {answer : Answer} {f : Scope → Scope} (hanswer : answer.newScopes = [])
    (hparent : ∀ s, (f s).parent = s.parent) (hchildren : ∀ s, (f s).children = s.children)
    (hlocals : ∀ s, (f s).locals = s.locals ++ request.declared) : Effect t id request answer (t.modifyScope id f)

namespace Effect

variable {request : Request} {answer : Answer}

theorem of_looking (hanswer : answer.newScopes = []) (hdeclared : request.declared = []) :
    Effect t id request answer t := by
  have hself : t.modifyScope id (fun s => s) = t := congrArg (ScopeTree.mk t.target) (List.modify_id id t.scopes)
  have heffect : Effect t id request answer (t.modifyScope id fun s => s) :=
    .fills hanswer (fun _ => rfl) (fun _ => rfl) fun s => by rw [hdeclared, List.append_nil]
  rwa [hself] at heffect

theorem of_fresh (t : ScopeTree) (id : Nat) (hint : String) :
    Effect t id (.fresh hint) (.named (t.freshName id hint).1) (t.freshName id hint).2 :=
  .fills rfl (fun _ => rfl) (fun _ => rfl) fun s => (List.append_nil s.locals).symm

theorem of_symbol (t : ScopeTree) (id : Nat) (n : String) :
    Effect t id (.symbol n) (.named (t.insertSymbol id n).1) (t.insertSymbol id n).2 := by
  unfold insertSymbol
  split
  · exact of_looking rfl rfl
  · -- the name is made and then expected, both in the one scope
    have htwice : ∀ f g : Scope → Scope, (t.modifyScope id f).modifyScope id g = t.modifyScope id (g ∘ f) :=
      fun f g => congrArg (ScopeTree.mk t.target) (List.modify_modify_eq f g id t.scopes)
    simp only [freshName, htwice]
    exact .fills rfl (fun _ => rfl) (fun _ => rfl) fun s => (List.append_nil s.locals).symm

theorem of_serve (h : t.serve id request = some (answer, t')) : id < t.size ∧ Effect t id request answer t' := by
  unfold serve at h
  cases hs : t.scope? id with
  | none => rw [hs] at h; cases h
  | some s =>
    rw [hs] at h
    refine ⟨lt_size hs, ?_⟩
    cases request with
    | child name kind =>
      obtain ⟨rfl, rfl⟩ := Prod.mk.inj (Option.some.inj h)
      exact .opens name kind
    | fresh hint =>
      obtain ⟨rfl, rfl⟩ := Prod.mk.inj (Option.some.inj h)
      exact of_fresh t id hint
    | symbol n =>
      obtain ⟨rfl, rfl⟩ := Prod.mk.inj (Option.some.inj h)
      exact of_symbol t id n
    | declare l =>
      obtain ⟨rfl, rfl⟩ := Prod.mk.inj (Option.some.inj h)
      exact .fills rfl (fun _ => rfl) (fun _ => rfl) fun _ => rfl
    | expected n | find n | info =>
      obtain ⟨rfl, rfl⟩ := Prod.mk.inj (Option.some.inj h)
      exact of_looking rfl rfl

end Effect

theorem localsOf_modifyScope (hid : id < t.size) {f : Scope → Scope} {ls : List Local}
    (hf : ∀ s, (f s).locals = s.locals ++ ls) (c : Nat) :
    (t.modifyScope id f).localsOf c = t.localsOf c ++ if id = c then ls else [] := by
  rw [localsOf, localsOf, scope?_modifyScope]
  by_cases h : id = c
  · subst h
    obtain ⟨s, hs⟩ := exists_scope? hid
    simp [hs, hf]
  · cases t.scope? c <;> simp [h]

/-! ### A whole history -/

/-- The requests served so far, of whatever kind, and the tree they made. -/
inductive History (target : Target) (name : String) (used : List String) : List Event → ScopeTree → Prop
  | start : History target name used [] (.new target name used)
  | step {es : List Event} {t t' : ScopeTree} (e : Event) (before : History target name used es t)
    (served : t.serve e.scope e.request = some (e.answer, t')) : History target name used (es ++ [e]) t'

variable {target : Target} {name : String} {used : List String} {es : List Event} {e : Event}

theorem Session.history (h : Session target name used es t) : History target name used es t := by
  induction h with
  | start => exact .start
  | step e _ served _ ih => exact ih.step e served

/-- What the events of one scope give, in order. -/
def gather {α : Type} (view : Event → List α) (es : List Event) (id : ScopeId) : List α :=
  es.flatMap fun e => if e.scope = id then view e else []

theorem gather_concat {α : Type} (view : Event → List α) (es : List Event) (e : Event) (id : ScopeId) :
    gather view (es ++ [e]) id = gather view es id ++ if e.scope = id then view e else [] := by
  rw [gather, List.flatMap_append, List.flatMap_singleton, gather]

/-- What the events say of the tree. -/
structure History.Sound (es : List Event) (t : ScopeTree) : Prop where
  ordered : t.Ordered
  pos : 0 < t.size
  opened : ∀ id, t.children id = gather (·.answer.newScopes) es id
  ascending : ∀ id, (t.children id).Pairwise (· < ·)
  declared : ∀ id, t.localsOf id = gather (·.request.declared) es id
  served : ∀ e ∈ es, e.scope < t.size

namespace History

theorem Sound.start (target : Target) (name : String) (used : List String) : Sound [] (.new target name used) where
  ordered := .new target name used
  pos := Nat.one_pos
  opened id := by cases id <;> rfl
  ascending id := by cases id <;> exact .nil
  declared id := by cases id <;> rfl
  served := by simp

theorem Sound.served_concat (h : Sound es t) (hid : e.scope < t.size) : ∀ d ∈ es ++ [e], d.scope < t.size := by
  intro d hd
  rcases List.mem_append.1 hd with hd | hd
  · exact h.served d hd
  · obtain rfl := List.mem_singleton.1 hd
    exact hid

theorem Sound.step (h : Sound es t) (hid : e.scope < t.size) (heffect : Effect t e.scope e.request e.answer t') :
    Sound (es ++ [e]) t' := by
  have hserved := h.served_concat hid
  obtain ⟨(id : Nat), request, answer⟩ := e
  cases heffect with
  | opens label kind =>
    have hsize := size_newChild t label kind id
    refine ⟨h.ordered.newChild hid label kind, by rw [hsize]; exact Nat.succ_pos _, fun c => ?_, fun c => ?_,
      fun c => ?_, fun d hd => ?_⟩
    · rw [children_newChild t label kind hid, h.opened, gather_concat]
      rfl
    · rw [children_newChild t label kind hid]
      split
      · refine List.pairwise_append.2 ⟨h.ascending c, List.pairwise_singleton _ _, fun d hd d' hd' => ?_⟩
        obtain rfl := List.mem_singleton.1 hd'
        exact lt_size_of_parent? (h.ordered.mem_children.1 hd)
      · rw [List.append_nil]
        exact h.ascending c
    · rw [localsOf_newChild t label kind hid, h.declared, gather_concat]
      simp [Request.declared]
    · rw [hsize]
      exact Nat.lt_succ_of_lt (hserved d hd)
  | fills hanswer hparent hchildren hlocals =>
    refine ⟨h.ordered.modifyScope id hparent hchildren, by rw [size_modifyScope]; exact h.pos, fun c => ?_, fun c => ?_,
      fun c => ?_, fun d hd => by rw [size_modifyScope]; exact hserved d hd⟩
    · rw [children_modifyScope t id hchildren, h.opened, gather_concat]
      simp [hanswer]
    · rw [children_modifyScope t id hchildren]
      exact h.ascending c
    · rw [localsOf_modifyScope hid hlocals, h.declared, gather_concat]

theorem sound (h : History target name used es t) : Sound es t := by
  induction h with
  | start => exact .start target name used
  | step e _ served ih =>
    obtain ⟨hid, heffect⟩ := Effect.of_serve served
    exact ih.step hid heffect

theorem flatMap_range_ite {α : Type} {i n : Nat} (h : i < n) (l : List α) :
    ((List.range n).flatMap fun j => if i = j then l else []) = l := by
  induction n with
  | zero => omega
  | succ n ih =>
    rw [List.range_succ, List.flatMap_append, List.flatMap_singleton]
    rcases Nat.lt_succ_iff_lt_or_eq.1 h with hlt | rfl
    · rw [ih hlt, if_neg (Nat.ne_of_lt hlt), List.append_nil]
    · have hnone : ((List.range i).flatMap fun j => if i = j then l else []) = [] :=
        List.flatMap_eq_nil_iff.2 fun j hj => if_neg (Nat.ne_of_gt (List.mem_range.1 hj))
      rw [hnone, if_pos rfl, List.nil_append]

/-- Taken scope by scope, the events are the same ones. -/
theorem perm_gather {α : Type} (view : Event → List α) {n : Nat} (h : ∀ e ∈ es, e.scope < n) :
    ((List.range n).flatMap (gather view es)).Perm (es.flatMap view) := by
  induction es with
  | nil => simp [gather]
  | cons e es ih =>
    have hsplit : gather view (e :: es) = fun id => (if e.scope = id then view e else []) ++ gather view es id := rfl
    have hrest := ih fun d hd => h d (List.mem_cons_of_mem _ hd)
    rw [hsplit, List.flatMap_cons]
    refine (List.flatMap_append_perm _ _ _).symm.trans ?_
    rw [flatMap_range_ite (h e List.mem_cons_self)]
    exact hrest.append_left _

theorem Sound.nodup_subtree (h : Sound es t) (id : Nat) : (t.subtree id).Nodup :=
  ScopeTree.nodup_subtree h.ordered (fun id => (h.ascending id).imp Nat.ne_of_lt) id

theorem Sound.perm_subtree_root (h : Sound es t) : (t.subtree root).Perm (List.range t.size) := by
  refine (List.perm_ext_iff_of_nodup (h.nodup_subtree root) List.nodup_range).2 fun s => ?_
  rw [List.mem_range]
  constructor
  · intro hs
    exact (encloses_of_mem_subtreeWithin h.ordered hs).lt_size h.pos
  · intro hs
    exact (mem_subtree h.ordered hs).2 (.of_root h.ordered hs)

theorem Sound.perm_locals (h : Sound es t) : (t.locals root).Perm (es.flatMap (·.request.declared)) := by
  have hlocals : t.localsOf = gather (·.request.declared) es := funext h.declared
  rw [locals, hlocals]
  exact (h.perm_subtree_root.flatMap_right _).trans (perm_gather _ h.served)

/-- After any requests, whatever they were for: the walk from a scope outwards ends, descends and comes to the root. The
walk inwards ends, meets no scope twice, and lists a scope before what is in it, the scopes opened in it in the order
of the requests for them. One walk meets a scope exactly if the other comes back from it. So a scope sees the symbols
of the scopes around it, its own and those of the scopes inside, and the root has all locals as often as they were
declared. -/
theorem walks_inverse (h : History target name used es t) :
    (∀ id < t.size, t.Climbs id (t.chain id) ∧ (t.chain id).Pairwise (· > ·) ∧ (t.chain id).getLast? = some root) ∧
    (∀ id < t.size, t.Drains [id] (t.subtree id) ∧ (t.subtree id).Nodup ∧
      t.subtree id = id :: (t.children id).flatMap t.subtree ∧ t.children id = gather (·.answer.newScopes) es id) ∧
    (∀ id < t.size, ∀ s < t.size, s ∈ t.subtree id ↔ id ∈ t.chain s) ∧
    (∀ id < t.size, ∀ n, n ∈ t.visibleSymbols id ↔
      ∃ c, (t.Encloses c id ∨ t.Encloses id c) ∧ n ∈ t.symbolsOf c) ∧
    (t.locals root).Perm (es.flatMap (·.request.declared)) := by
  have hs := h.sound
  have ht := hs.ordered
  refine ⟨fun id hid => ?_, fun id hid => ?_, fun id hid s hlt => ?_, fun id hid n => ?_, hs.perm_locals⟩
  · have hclimbs := climbs_chain ht hid
    exact ⟨hclimbs, hclimbs.descends ht, hclimbs.getLast? ht⟩
  · exact ⟨drains_subtree ht hid, hs.nodup_subtree id, subtree_eq ht hid, hs.opened id⟩
  · rw [mem_subtree ht hlt, mem_chain ht hlt]
  · exact mem_visibleSymbols_iff ht hid

/-- Two functions, a loop opened in the first after both, and one local that is declared in two scopes, in one of them
twice. -/
theorem walks_inverse_nested : ∃ x t,
    History .fortran "grid" ["grid"]
      [⟨0, .child "f" .function, .opened 1⟩, ⟨0, .child "g" .function, .opened 2⟩, ⟨1, .fresh "grid", .named x⟩,
        ⟨1, .child "for" .loop, .opened 3⟩, ⟨3, .declare (.pointer "i"), .declared (.pointer "i")⟩,
        ⟨2, .declare (.pointer "i"), .declared (.pointer "i")⟩,
        ⟨3, .declare (.pointer "i"), .declared (.pointer "i")⟩] t ∧
    t.Climbs 3 [3, 1, 0] ∧ t.Drains [0] [0, 1, 3, 2] ∧ (3 ∈ t.subtree 1 ↔ 1 ∈ t.chain 3) ∧
    "grid" ∈ t.visibleSymbols 3 ∧ (t.locals root).Perm [.pointer "i", .pointer "i", .pointer "i"] := by
  have h₁ := (Session.start : Session .fortran "grid" ["grid"] [] _).child 0 (by decide) "f" .function
  have h₂ := h₁.child 0 (by decide) "g" .function
  have h₃ := h₂.fresh 1 (by decide) "grid"
  have h₄ := (h₃.child 1 (by decide) "for" .loop).history
  have h₅ := h₄.step ⟨3, .declare (.pointer "i"), .declared (.pointer "i")⟩ rfl
  have h₆ := h₅.step ⟨2, .declare (.pointer "i"), .declared (.pointer "i")⟩ rfl
  have h₇ := h₆.step ⟨3, .declare (.pointer "i"), .declared (.pointer "i")⟩ rfl
  obtain ⟨hout, hin, hboth, hsees, hlocals⟩ := walks_inverse h₇
  refine ⟨_, _, h₇, (hout 3 (by decide)).1, (hin 0 (by decide)).1, hboth 1 (by decide) 3 (by decide), ?_, hlocals⟩
  exact (hsees 3 (by decide) "grid").2 ⟨0, .inl (.step rfl (.step rfl .refl)), by decide⟩

end History

end AbiBridge.ScopeTree
