import Mathlib
import AbiBridge.Scope.Tree

/-!
# Walks through a scope tree

`Encloses a b`: going outwards from `b`, one comes to `a`. Both walks of a tree are bounded by its size. In
a tree whose scopes all come after their parents (`Ordered`) the bound cuts nothing off, so the chain of a scope
lists what encloses it (`mem_chain`), its subtree lists what it encloses (`mem_subtree`), and a new name is kept
apart from the symbols of all scopes in either direction (`mem_visibleSymbols_iff`). The two changes that a tree
undergoes, a new scope and a change inside one, keep it ordered.
-/

namespace AbiBridge.ScopeTree

-- places are compared as numbers
variable {t t' t'' : ScopeTree} {a b c id p : Nat} {n : String}

/-- Going outwards from `b`, one comes to `a`. -/
inductive Encloses (t : ScopeTree) (a : ScopeId) : ScopeId → Prop
  | refl : Encloses t a a
  | step {b c : ScopeId} (hp : t.parent? c = some b) (h : Encloses t a b) : Encloses t a c

/-- Scopes come after their parents, all but the root have one, and a parent lists exactly its children. -/
structure Ordered (t : ScopeTree) : Prop where
  parent_lt : ∀ {c p : Nat}, t.parent? c = some p → p < c
  parent : ∀ {c : Nat}, 0 < c → c < t.size → ∃ p, t.parent? c = some p
  mem_children : ∀ {p c}, c ∈ t.children p ↔ t.parent? c = some p

theorem lt_size {s : Scope} (hs : t.scope? id = some s) : id < t.size := (List.getElem?_eq_some_iff.1 hs).1

theorem parent?_of_scope? {s : Scope} (hs : t.scope? id = some s) : t.parent? id = s.parent := by
  rw [parent?, hs]
  rfl

theorem children_eq {s : Scope} (hs : t.scope? id = some s) : t.children id = s.children := by
  rw [children, hs]
  rfl

theorem lt_size_of_parent? (h : t.parent? c = some p) : c < t.size := by
  obtain ⟨s, hs, -⟩ := Option.bind_eq_some_iff.1 h
  exact lt_size hs

namespace Encloses

theorem trans (h : t.Encloses a b) (h' : t.Encloses b c) : t.Encloses a c := by
  induction h' with
  | refl => exact h
  | step hp _ ih => exact .step hp ih

theorem le (ht : t.Ordered) (h : t.Encloses a b) : a ≤ b := by
  induction h with
  | refl => exact Nat.le_refl a
  | step hp _ ih => exact Nat.le_trans ih (Nat.le_of_lt (ht.parent_lt hp))

/-- Seen from outside: the two scopes are one, or a child of the outer one encloses the inner. -/
theorem eq_or_child (h : t.Encloses a b) : a = b ∨ ∃ c, t.parent? c = some a ∧ t.Encloses c b := by
  induction h with
  | refl => exact .inl rfl
  | @step b c hp _ ih =>
    rcases ih with rfl | ⟨d, hd, hdb⟩
    · exact .inr ⟨c, hp, .refl⟩
    · exact .inr ⟨d, hd, .step hp hdb⟩

theorem of_root (ht : t.Ordered) (hb : b < t.size) : t.Encloses root b := by
  induction b using Nat.strong_induction_on with
  | _ b ih =>
    rcases Nat.eq_zero_or_pos b with rfl | hpos
    · exact .refl
    · obtain ⟨p, hp⟩ := ht.parent hpos hb
      have hlt := ht.parent_lt hp
      exact .step hp (ih p hlt (Nat.lt_trans hlt hb))

/-- What lies outside an existing scope is found where the parents of the existing scopes are the same. -/
theorem congr (ht : t.Ordered) (h : t.Encloses a b) {bound : Nat} (hb : b < bound)
    (hp : ∀ c < bound, t'.parent? c = t.parent? c) : t'.Encloses a b := by
  induction h with
  | refl => exact .refl
  | @step b c hpc _ ih =>
    have hlt : b < bound := Nat.lt_trans (ht.parent_lt hpc) hb
    exact .step (by rw [hp c hb, hpc]) (ih hlt)

end Encloses

/-! ### Outwards -/

theorem encloses_of_mem_chainWithin {fuel : Nat} (h : a ∈ t.chainWithin b fuel) : t.Encloses a b := by
  induction fuel generalizing b with
  | zero => cases h
  | succ fuel ih =>
    rcases List.mem_cons.1 h with rfl | h
    · exact .refl
    · cases hp : t.parent? b with
      | none => simp [hp] at h
      | some p =>
        rw [hp] at h
        exact .step hp (ih h)

theorem Encloses.mem_chainWithin (ht : t.Ordered) (h : t.Encloses a b) {fuel : Nat} (hb : b < fuel) :
    a ∈ t.chainWithin b fuel := by
  induction h generalizing fuel with
  | refl =>
    obtain ⟨fuel, rfl⟩ := Nat.exists_eq_add_one_of_ne_zero (Nat.ne_zero_of_lt hb)
    exact List.mem_cons_self
  | @step b c hp _ ih =>
    obtain ⟨fuel, rfl⟩ := Nat.exists_eq_add_one_of_ne_zero (Nat.ne_zero_of_lt hb)
    have hlt := ht.parent_lt hp
    refine List.mem_cons_of_mem _ ?_
    rw [hp]
    exact ih (by omega)

theorem mem_chain (ht : t.Ordered) (hb : b < t.size) : a ∈ t.chain b ↔ t.Encloses a b :=
  ⟨encloses_of_mem_chainWithin, fun h => h.mem_chainWithin ht hb⟩

theorem chain_eq_cons (hb : b < t.size) : ∃ outer, t.chain b = b :: outer := by
  obtain ⟨k, hk⟩ := Nat.exists_eq_add_one_of_ne_zero (Nat.ne_zero_of_lt hb)
  rw [chain, hk]
  exact ⟨_, rfl⟩

/-! ### Inwards -/

theorem encloses_of_mem_subtreeWithin (ht : t.Ordered) {fuel : Nat} (h : b ∈ t.subtreeWithin fuel a) :
    t.Encloses a b := by
  induction fuel generalizing a with
  | zero => cases h
  | succ fuel ih =>
    rcases List.mem_cons.1 h with rfl | h
    · exact .refl
    · obtain ⟨c, hc, hb⟩ := List.mem_flatMap.1 h
      have hca : t.Encloses a c := .step (ht.mem_children.1 hc) .refl
      exact hca.trans (ih hb)

theorem Encloses.mem_subtreeWithin (ht : t.Ordered) {fuel : Nat} (h : t.Encloses a b) (hb : b < a + fuel) :
    b ∈ t.subtreeWithin fuel a := by
  -- every level down adds at least one to the place of a scope
  induction fuel generalizing a with
  | zero =>
    have := h.le ht
    omega
  | succ fuel ih =>
    rcases h.eq_or_child with rfl | ⟨c, hc, hcb⟩
    · exact List.mem_cons_self
    · have hlt := ht.parent_lt hc
      have hmem : b ∈ t.subtreeWithin fuel c := ih hcb (by omega)
      exact List.mem_cons_of_mem _ (List.mem_flatMap.2 ⟨c, ht.mem_children.2 hc, hmem⟩)

theorem mem_subtree (ht : t.Ordered) (hb : b < t.size) : b ∈ t.subtree a ↔ t.Encloses a b :=
  ⟨encloses_of_mem_subtreeWithin ht, fun h => h.mem_subtreeWithin ht (by omega)⟩

/-! ### What a new name has to differ from -/

theorem lt_size_of_mem_symbolsOf (h : n ∈ t.symbolsOf id) : id < t.size := by
  cases hs : t.scope? id with
  | none => simp [symbolsOf, hs] at h
  | some s => exact lt_size hs

theorem mem_visibleSymbols_iff (ht : t.Ordered) (hid : id < t.size) :
    n ∈ t.visibleSymbols id ↔ ∃ c, (t.Encloses c id ∨ t.Encloses id c) ∧ n ∈ t.symbolsOf c := by
  obtain ⟨outer, houter⟩ := chain_eq_cons hid
  rw [visibleSymbols, List.mem_append, List.mem_flatMap, List.mem_flatMap, houter, List.tail_cons]
  constructor
  · rintro (⟨c, hc, hn⟩ | ⟨c, hc, hn⟩)
    · have hmem : c ∈ t.chain id := houter ▸ List.mem_cons_of_mem _ hc
      exact ⟨c, .inl ((mem_chain ht hid).1 hmem), hn⟩
    · exact ⟨c, .inr (encloses_of_mem_subtreeWithin ht hc), hn⟩
  · rintro ⟨c, hc | hc, hn⟩
    · have hmem : c ∈ id :: outer := houter ▸ (mem_chain ht hid).2 hc
      rcases List.mem_cons.1 hmem with rfl | hmem
      · exact .inr ⟨c, (mem_subtree ht hid).2 .refl, hn⟩
      · exact .inl ⟨c, hmem, hn⟩
    · exact .inr ⟨c, (mem_subtree ht (lt_size_of_mem_symbolsOf hn)).2 hc, hn⟩

/-! ### One scope under a change of the tree -/

section Views

variable (t)

theorem scope?_eq_none (hc : t.size ≤ c) : t.scope? c = none := List.getElem?_eq_none hc

theorem parent?_eq (c : ScopeId) : t.parent? c = ((t.scope? c).map Scope.parent).join := by
  rw [parent?]
  cases t.scope? c <;> rfl

theorem size_modifyScope (id : ScopeId) (f : Scope → Scope) : (t.modifyScope id f).size = t.size := by
  simp [size, modifyScope]

theorem scope?_modifyScope (id : ScopeId) (f : Scope → Scope) (c : ScopeId) :
    (t.modifyScope id f).scope? c = (t.scope? c).map fun s => if id = c then f s else s := by
  simp only [scope?, modifyScope, List.getElem?_modify]
  split <;> simp [*]

theorem scope?_modifyScope_self {t : ScopeTree} {s : Scope} (hs : t.scope? id = some s) (f : Scope → Scope) :
    (t.modifyScope id f).scope? id = some (f s) := by
  rw [scope?] at hs
  simp [scope?, modifyScope, hs]

theorem scope?_modifyScope_ne (h : c ≠ id) (f : Scope → Scope) :
    (t.modifyScope c f).scope? id = t.scope? id := by
  simp [scope?, modifyScope, h]

theorem view_modifyScope {α : Type} (view : Scope → α) (id : ScopeId) {f : Scope → Scope}
    (hf : ∀ s, view (f s) = view s) (c : ScopeId) :
    ((t.modifyScope id f).scope? c).map view = (t.scope? c).map view := by
  rw [scope?_modifyScope, Option.map_map]
  congr 1
  funext s
  by_cases h : id = c <;> simp [h, hf]

theorem parent?_modifyScope (id : ScopeId) {f : Scope → Scope} (hf : ∀ s, (f s).parent = s.parent) (c : ScopeId) :
    (t.modifyScope id f).parent? c = t.parent? c := by
  rw [parent?_eq, view_modifyScope t Scope.parent id hf, ← parent?_eq]

theorem children_modifyScope (id : ScopeId) {f : Scope → Scope} (hf : ∀ s, (f s).children = s.children)
    (c : ScopeId) : (t.modifyScope id f).children c = t.children c := by
  rw [children, view_modifyScope t Scope.children id hf, children]

variable (name : String) (kind : ScopeKind)

theorem size_newChild (p : ScopeId) : (t.newChild p name kind).2.size = t.size + 1 := by
  simp [newChild, size, modifyScope]

theorem scope?_newChild_of_lt (hc : c < t.size) (p : ScopeId) :
    (t.newChild p name kind).2.scope? c =
      (t.scope? c).map fun s => if p = c then { s with children := s.children ++ [t.size] } else s := by
  rw [newChild, scope?_modifyScope, scope?, List.getElem?_append_left hc]
  rfl

theorem scope?_newChild_size (hp : p < t.size) :
    (t.newChild p name kind).2.scope? t.size = some ⟨name, kind, some p, [], [], [], []⟩ := by
  have hnew : (t.scopes ++ [(⟨name, kind, some p, [], [], [], []⟩ : Scope)])[t.size]? = some _ :=
    List.getElem?_concat_length
  rw [newChild, scope?_modifyScope, scope?, hnew, Option.map_some, if_neg (Nat.ne_of_lt hp)]

theorem view_newChild {α : Type} (view : Scope → α) (hp : p < t.size)
    (hview : ∀ s x, view { s with children := s.children ++ [x] } = view s) (c : Nat) :
    ((t.newChild p name kind).2.scope? c).map view =
      if c = t.size then some (view ⟨name, kind, some p, [], [], [], []⟩) else (t.scope? c).map view := by
  rcases Nat.lt_trichotomy c t.size with hlt | rfl | hgt
  · rw [if_neg (Nat.ne_of_lt hlt), scope?_newChild_of_lt t name kind hlt, Option.map_map]
    congr 1
    funext s
    by_cases h : p = c <;> simp [h, hview]
  · rw [if_pos rfl, scope?_newChild_size t name kind hp, Option.map_some]
  · have hsize := size_newChild t name kind p
    rw [if_neg (Nat.ne_of_gt hgt), scope?_eq_none _ (Nat.le_of_lt hgt), scope?_eq_none _ (by omega)]

theorem parent?_newChild (hp : p < t.size) (c : Nat) :
    (t.newChild p name kind).2.parent? c = if c = t.size then some p else t.parent? c := by
  rw [parent?_eq, view_newChild t name kind Scope.parent hp (fun _ _ => rfl), parent?_eq]
  split <;> rfl

/-- What a new scope has none of yet is listed nowhere anew. -/
theorem list_newChild {α : Type} (view : Scope → List α) (hp : p < t.size)
    (hview : ∀ s x, view { s with children := s.children ++ [x] } = view s)
    (hnew : view ⟨name, kind, some p, [], [], [], []⟩ = []) (c : Nat) :
    (((t.newChild p name kind).2.scope? c).map view).getD [] = ((t.scope? c).map view).getD [] := by
  rw [view_newChild t name kind view hp hview]
  by_cases h : c = t.size
  · rw [if_pos h, scope?_eq_none t (Nat.le_of_eq h.symm), hnew]
    rfl
  · rw [if_neg h]

theorem symbolsOf_newChild (hp : p < t.size) (c : Nat) :
    (t.newChild p name kind).2.symbolsOf c = t.symbolsOf c :=
  list_newChild t name kind Scope.symbols hp (fun _ _ => rfl) rfl c

theorem localsOf_newChild (hp : p < t.size) (c : Nat) :
    (t.newChild p name kind).2.localsOf c = t.localsOf c :=
  list_newChild t name kind Scope.locals hp (fun _ _ => rfl) rfl c

theorem expectedOf_newChild (hp : p < t.size) (c : Nat) :
    (t.newChild p name kind).2.expectedOf c = t.expectedOf c :=
  list_newChild t name kind Scope.expected hp (fun _ _ => rfl) rfl c

theorem children_newChild (hp : p < t.size) (c : Nat) :
    (t.newChild p name kind).2.children c = t.children c ++ if p = c then [t.size] else [] := by
  rw [children, children]
  rcases Nat.lt_trichotomy c t.size with hlt | rfl | hgt
  · obtain ⟨s, hs⟩ : ∃ s, t.scope? c = some s := ⟨_, List.getElem?_eq_getElem hlt⟩
    rw [scope?_newChild_of_lt t name kind hlt, hs]
    by_cases h : p = c <;> simp [h]
  · rw [scope?_newChild_size t name kind hp, scope?_eq_none t (Nat.le_refl _)]
    simp [Nat.ne_of_lt hp]
  · have hsize := size_newChild t name kind p
    have hne : p ≠ c := by omega
    rw [scope?_eq_none _ (Nat.le_of_lt hgt), scope?_eq_none _ (by omega)]
    simp [hne]

theorem mem_children_newChild (hp : p < t.size) (c d : Nat) :
    d ∈ (t.newChild p name kind).2.children c ↔ d ∈ t.children c ∨ c = p ∧ d = t.size := by
  rw [children_newChild t name kind hp, List.mem_append]
  by_cases h : c = p
  · simp [h]
  · simp [h, Ne.symm h]

end Views

namespace Ordered

theorem new (target : Target) (name : String) (used : List String) : (new target name used).Ordered where
  parent_lt := by
    intro c p h
    cases c <;> cases h
  parent := by
    intro c hpos hlt
    exact absurd (Nat.lt_one_iff.1 hlt) (Nat.ne_of_gt hpos)
  mem_children := by
    intro p c
    cases p <;> cases c <;> simp [children, parent?, scope?, ScopeTree.new]

theorem modifyScope (ht : t.Ordered) (id : ScopeId) {f : Scope → Scope} (hp : ∀ s, (f s).parent = s.parent)
    (hc : ∀ s, (f s).children = s.children) : (t.modifyScope id f).Ordered where
  parent_lt h := ht.parent_lt (by rwa [parent?_modifyScope t id hp] at h)
  parent hpos hlt := by
    rw [size_modifyScope] at hlt
    rw [parent?_modifyScope t id hp]
    exact ht.parent hpos hlt
  mem_children := by
    intro p c
    rw [parent?_modifyScope t id hp, children_modifyScope t id hc]
    exact ht.mem_children

theorem newChild (ht : t.Ordered) (hp : p < t.size) (name : String) (kind : ScopeKind) :
    (t.newChild p name kind).2.Ordered where
  parent_lt := by
    intro c q h
    rw [parent?_newChild t name kind hp] at h
    split at h
    · obtain rfl := Option.some.inj h
      omega
    · exact ht.parent_lt h
  parent := by
    intro c hpos hlt
    rw [size_newChild] at hlt
    rw [parent?_newChild t name kind hp]
    by_cases h : c = t.size
    · exact ⟨p, if_pos h⟩
    · rw [if_neg h]
      exact ht.parent hpos (by omega)
  mem_children := by
    intro q c
    rw [parent?_newChild t name kind hp, mem_children_newChild t name kind hp, ht.mem_children]
    by_cases h : c = t.size
    · subst h
      have hnone : t.parent? t.size = none := by rw [parent?, scope?_eq_none t (Nat.le_refl _)]; rfl
      simp [hnone, eq_comm]
    · simp [h]

end Ordered

end AbiBridge.ScopeTree
