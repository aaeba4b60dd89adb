import Mathlib
import AbiBridge.Proofs.Assembly

/-!
# Scopes mirror wrappers

The scopes of a wrapped module are the root, one scope for each wrapper right inside, and in these one loop for each
result that is copied element by element (`wrapModule_mirrored`). Nothing else opens a scope, and what cannot be
wrapped opens none.

All that is done for a wrapper after its scope was opened is done in that scope (`Worked`, and `Alloc.Works` for the
computations): it changes no other scope, and opens loops only. So one wrapper adds its scope with its loops and leaves
those of other wrappers as they are (`Housed`), and a tree that mirrors the wrappers made so far mirrors them and the
next one (`Mirrors.step`). As a scope with its loops is not touched again, the locals that were noted in a wrapper are
those that the tree has for it in the end.
-/

namespace AbiBridge

open Wrapper

/-! ### Results that a loop fills -/

def ValueType.isListOrSet : ValueType → Bool
  | .list _ | .set _ => true
  | _ => false

/-- The wrapper calls a function or a method. -/
def Wrapper.Origin.isCall : Origin → Bool
  | .function _ | .method _ => true
  | _ => false

namespace Wrapper.Function

/-- The result is an argument that the call modifies. -/
def returnsInPlace (w : Function) (r : Semantic.Result) : Bool :=
  r.isArgument && w.arguments.any (·.declared.name == r.name)

/-- The lists and sets that the call returns and that the caller comes to own. -/
def filledResults (w : Function) : List Result :=
  w.results.filter fun r => w.origin.isCall &&
    (r.declared.type.isListOrSet && (!r.declared.isAlias && !w.returnsInPlace r.declared))

end Wrapper.Function

/-- What stays of a scope while work is done in it. -/
def Scope.heading (s : Scope) : String × ScopeKind × Option ScopeId := (s.name, s.kind, s.parent)

namespace ScopeTree

variable {t t' t'' : ScopeTree} {id : Nat} {types types' : List ValueType}

/-- The scope `c` is a loop right inside `id`, with nothing in it, that goes over a value of the type. -/
def IsLoop (t : ScopeTree) (id : ScopeId) (type : ValueType) (c : ScopeId) : Prop :=
  ∃ s, t.scope? c = some s ∧ s.kind = .loop ∧ s.parent = some id ∧ s.children = [] ∧
    ∃ element, s.locals = [.owned element (type.element?.getD type)]

/-- The one local of the scope `c` has a name that is free for an element if some symbols of the scope `id` and of
those around it are taken. -/
def ElementNamed (t : ScopeTree) (id c : ScopeId) : Prop :=
  ∃ element used, (t.localsOf c).map (·.name) = [element] ∧ element = t.target.freeName used "elem" ∧
    ∀ u ∈ used, ∃ d, t.Encloses d id ∧ u ∈ t.symbolsOf d

/-! ### Work in one scope -/

/-- Work in the scope `id`, which opens a loop in it for each of the types. -/
structure Worked (id : Nat) (types : List ValueType) (t t' : ScopeTree) : Prop where
  target : t'.target = t.target
  symbols : ∀ c, t.symbolsOf c ⊆ t'.symbolsOf c
  size : t'.size = t.size + types.length
  outside : ∀ c < t.size, c ≠ id → t'.scope? c = t.scope? c
  inside : ∀ {s}, t.scope? id = some s → ∃ s', t'.scope? id = some s' ∧ s'.heading = s.heading ∧
    s'.children = s.children ++ List.range' t.size types.length
  loops : ∀ {i type}, types[i]? = some type → t'.IsLoop id type (t.size + i)
  elements : ∀ i < types.length, t'.ElementNamed id (t.size + i)

namespace Worked

theorem lt_size (h : Worked id types t t') (hid : id < t.size) : id < t'.size := by
  rw [h.size]
  omega

theorem refl (id : ScopeId) (t : ScopeTree) : Worked id [] t t :=
  ⟨rfl, fun _ => List.Subset.refl _, rfl, fun _ _ _ => rfl, fun hs => ⟨_, hs, rfl, by simp⟩, by simp, by simp⟩

theorem encloses (h : Worked id types t t') {a b : ScopeId} (hab : t.Encloses a b) : t'.Encloses a b := by
  induction hab with
  | refl => exact .refl
  | @step b c hp _ ih =>
    refine .step ?_ ih
    obtain ⟨s, hs, hparent⟩ := Option.bind_eq_some_iff.1 hp
    by_cases hc : c = id
    · subst hc
      obtain ⟨s', hs', hhead, -⟩ := h.inside hs
      exact Option.bind_eq_some_iff.2 ⟨s', hs', (congrArg (·.2.2) hhead).trans hparent⟩
    · exact Option.bind_eq_some_iff.2 ⟨s, (h.outside c (ScopeTree.lt_size hs) hc).trans hs, hparent⟩

theorem elementNamed (h : Worked id types t t') {c : Nat} (hc : c < t.size) (hne : c ≠ id)
    (hnamed : t.ElementNamed id c) : t'.ElementNamed id c := by
  obtain ⟨element, used, hlocals, hfree, hused⟩ := hnamed
  refine ⟨element, used, ?_, h.target.symm ▸ hfree, fun u hu => ?_⟩
  · rw [localsOf, h.outside c hc hne]
    exact hlocals
  · obtain ⟨d, hd, hmem⟩ := hused u hu
    exact ⟨d, h.encloses hd, h.symbols d hmem⟩

theorem trans (hid : id < t.size) (h : Worked id types t t') (h' : Worked id types' t' t'') :
    Worked id (types ++ types') t t'' where
  target := h'.target.trans h.target
  symbols c := List.Subset.trans (h.symbols c) (h'.symbols c)
  size := by rw [h'.size, h.size, List.length_append, Nat.add_assoc]
  outside c hc hne := (h'.outside c (by rw [h.size]; omega) hne).trans (h.outside c hc hne)
  inside hs := by
    obtain ⟨s₁, hs₁, hhead₁, hchildren₁⟩ := h.inside hs
    obtain ⟨s₂, hs₂, hhead₂, hchildren₂⟩ := h'.inside hs₁
    refine ⟨s₂, hs₂, hhead₂.trans hhead₁, ?_⟩
    rw [hchildren₂, hchildren₁, List.append_assoc, h.size, List.range'_append_1, List.length_append]
  loops {i type} hi := by
    rw [List.getElem?_append] at hi
    split at hi
    · -- a loop that was there is outside of the scope that is worked in
      obtain ⟨s, hs, hloop⟩ := h.loops hi
      exact ⟨s, (h'.outside _ (ScopeTree.lt_size hs) (by omega)).trans hs, hloop⟩
    · have hplace : t'.size + (i - types.length) = t.size + i := by
        rw [h.size]
        omega
      exact hplace ▸ h'.loops hi
  elements i hi := by
    have hsize := h.size
    by_cases hlt : i < types.length
    · exact h'.elementNamed (by omega) (by omega) (h.elements i hlt)
    · have hplace : t'.size + (i - types.length) = t.size + i := by omega
      rw [List.length_append] at hi
      exact hplace ▸ h'.elements (i - types.length) (by omega)

theorem modifyScope (t : ScopeTree) (id : ScopeId) {f : Scope → Scope} (hhead : ∀ s, (f s).heading = s.heading)
    (hchildren : ∀ s, (f s).children = s.children) (hsymbols : ∀ s, s.symbols ⊆ (f s).symbols) :
    Worked id [] t (t.modifyScope id f) where
  target := rfl
  symbols c := by
    unfold symbolsOf
    rw [scope?_modifyScope]
    cases t.scope? c with
    | none => exact List.Subset.refl _
    | some s =>
      rw [Option.map_some]
      split
      · exact hsymbols s
      · exact List.Subset.refl _
  size := size_modifyScope t id f
  outside c _ hne := scope?_modifyScope_ne t hne.symm f
  inside {s} hs := ⟨f s, scope?_modifyScope_self hs f, hhead s, by rw [hchildren]; simp⟩
  loops := by simp
  elements := by simp

theorem freshName (t : ScopeTree) (id : ScopeId) (hint : String) : Worked id [] t (t.freshName id hint).2 :=
  modifyScope t id (fun _ => rfl) (fun _ => rfl) fun _ _ hn => Ascending.mem_insert.2 (.inr hn)

end Worked

/-- The scope `c` is new and the last one in `p`. -/
structure Opened (p : Nat) (name : String) (kind : ScopeKind) (c : Nat) (t t' : ScopeTree) : Prop where
  target : t'.target = t.target
  symbols : ∀ d, t.symbolsOf d ⊆ t'.symbolsOf d
  place : c = t.size
  size : t'.size = t.size + 1
  outside : ∀ d < t.size, d ≠ p → t'.scope? d = t.scope? d
  inside : ∀ {s}, t.scope? p = some s → ∃ s', t'.scope? p = some s' ∧ s'.heading = s.heading ∧
    s'.children = s.children ++ [c]
  new : t'.scope? c = some ⟨name, kind, some p, [], [], [], []⟩

/-- A new scope sees the scopes around it and nothing else. -/
theorem Opened.visible {p c : Nat} {name : String} {kind : ScopeKind} (h : Opened p name kind c t t') {u : String}
    (hu : u ∈ t'.visibleSymbols c) : ∃ d, t'.Encloses d p ∧ u ∈ t'.symbolsOf d := by
  have hparent : t'.parent? c = some p := by rw [parent?, h.new]; rfl
  have hchildren : t'.children c = [] := by rw [children, h.new]; rfl
  have hsymbols : t'.symbolsOf c = [] := by rw [symbolsOf, h.new]; rfl
  rw [visibleSymbols, chain, subtree, h.size, chainWithin, subtreeWithin, hparent, hchildren, List.tail_cons] at hu
  rcases List.mem_append.1 hu with hu | hu
  · obtain ⟨d, hd, hmem⟩ := List.mem_flatMap.1 hu
    exact ⟨d, encloses_of_mem_chainWithin hd, hmem⟩
  · rw [List.flatMap_nil, List.flatMap_singleton, hsymbols] at hu
    cases hu

end ScopeTree

namespace Alloc

open ScopeTree

variable {α β : Type} {id : Nat} {types types' : List ValueType}

/-- Wherever the computation starts, it works in the scope `id`, and opens a loop in it for each of the types. -/
def Works (id : Nat) (types : List ValueType) (x : Alloc α) : Prop :=
  ∀ ⦃t : ScopeTree⦄ ⦃a : α⦄ ⦃t' : ScopeTree⦄, id < t.size → x t = (a, t') → Worked id types t t'

theorem newChild_opened {p c : Nat} {name : String} {kind : ScopeKind} {t t' : ScopeTree} (hp : p < t.size)
    (h : newChild p name kind t = (c, t')) : Opened p name kind c t t' := by
  obtain ⟨rfl, rfl⟩ := Prod.mk.inj h
  refine ⟨rfl, (newChild_extends hp name kind).symbols, rfl, size_newChild t name kind p, fun d hd hne => ?_,
    fun {s} hs => ?_, scope?_newChild_size t name kind hp⟩
  · refine (scope?_newChild_of_lt t name kind hd p).trans ?_
    simp [hne.symm]
  · refine ⟨{ s with children := s.children ++ [t.size] }, (scope?_newChild_of_lt t name kind hp p).trans ?_, rfl, rfl⟩
    simp [hs]

namespace Works

theorem pure (id : ScopeId) (a : α) : Works id [] (Pure.pure a : Alloc α) := by
  intro t b t' _ h
  obtain ⟨-, rfl⟩ := Prod.mk.inj h
  exact .refl id t

theorem bind {x : Alloc α} {f : α → Alloc β} (hx : Works id types x) (hf : ∀ a, Works id types' (f a)) :
    Works id (types ++ types') (x >>= f) := by
  intro t b t' hid h
  obtain ⟨a, t₁, h₁, h⟩ := bind_eq h
  have k := hx hid h₁
  exact k.trans hid (hf a (k.lt_size hid) h)

theorem andThen {x : Alloc α} {f : α → Alloc β} (hx : Works id [] x) (hf : ∀ a, Works id types (f a)) :
    Works id types (x >>= f) :=
  hx.bind hf

theorem mapM {f : α → Alloc β} {opened : α → List ValueType} (hf : ∀ x, Works id (opened x) (f x)) (xs : List α) :
    Works id (xs.flatMap opened) (xs.mapM f) := by
  induction xs with
  | nil => exact .pure id []
  | cons x xs ih =>
    rw [List.mapM_cons, List.flatMap_cons]
    refine (hf x).bind fun y => ?_
    simpa using ih.bind fun ys => .pure id (y :: ys)

theorem mapM_nil {f : α → Alloc β} (hf : ∀ x, Works id [] (f x)) (xs : List α) : Works id [] (xs.mapM f) := by
  have hnil : xs.flatMap (fun _ => ([] : List ValueType)) = [] := List.flatMap_eq_nil_iff.2 fun _ _ => rfl
  exact hnil ▸ mapM hf xs

theorem freshName (id : ScopeId) (hint : String) : Works id [] (freshName id hint) := by
  intro t a t' _ h
  obtain ⟨-, rfl⟩ := Prod.mk.inj h
  exact .freshName t id hint

theorem insertSymbol (id : ScopeId) (name : String) : Works id [] (insertSymbol id name) := by
  intro t a t' hid h
  obtain ⟨-, rfl⟩ := Prod.ext_iff.1 h
  show Worked id [] t (t.insertSymbol id name).2
  unfold ScopeTree.insertSymbol
  split
  · exact .refl id t
  · exact (Worked.freshName t id name).trans hid
      (.modifyScope _ id (fun _ => rfl) (fun _ => rfl) fun _ => List.Subset.refl _)

theorem declare (id : ScopeId) (l : Local) : Works id [] (declare id l) := by
  intro t a t' _ h
  obtain ⟨-, rfl⟩ := Prod.mk.inj h
  exact .modifyScope t id (fun _ => rfl) (fun _ => rfl) fun _ _ hn => Ascending.mem_insert.2 (.inr hn)

theorem series (id : ScopeId) (stem : String) (rank : Nat) : Works id [] (series id stem rank) :=
  mapM_nil (fun _ => freshName id _) _

end Works

end Alloc

/-! ### Marshalling -/

section Marshalling

open ScopeTree Alloc

variable (target : Target) (scope : Nat)

theorem marshalArgument_works (a : Semantic.Argument) (passing : Passing) (temporary : Bool) :
    Works scope [] (marshalArgument target scope a passing temporary) := by
  refine .andThen (.insertSymbol scope a.name) fun actual => ?_
  split
  · exact .pure scope _
  refine .andThen (.freshName scope _) fun ptr => .andThen (.declare scope _) fun _ => ?_
  split
  · refine .andThen (.series scope _ _) fun shape => .andThen (.series scope _ _) fun strides => ?_
    cases temporary with
    | false => exact .andThen (.pure scope none) fun view => .pure scope _
    | true =>
      refine .andThen (.freshName scope _) fun name => .andThen (.declare scope _) fun _ => ?_
      exact .andThen (.pure scope (some name)) fun view => .pure scope _
  · exact .andThen (.freshName scope _) fun length => .pure scope _
  · exact .pure scope _
  · exact .pure scope _

/-- A fill loop has a scope of its own, whose one local is the element. -/
theorem fillLoop_works (type : ValueType) (source array : String) (isSet : Bool) :
    Works scope [type] (fillLoop target scope type source array isSet) := by
  refine .andThen (.freshName scope "idx") fun counter => .andThen (.declare scope (.index counter)) fun _ => ?_
  intro t stmts t' hid h
  obtain ⟨(loop : Nat), t₁, h₁, h⟩ := Alloc.bind_eq h
  obtain ⟨element, t₂, h₂, h⟩ := Alloc.bind_eq h
  obtain ⟨_, t₃, h₃, h⟩ := Alloc.bind_eq h
  obtain ⟨-, rfl⟩ := Prod.mk.inj h
  have o := newChild_opened hid h₁
  have hloop : loop < t₁.size := lt_size o.new
  have hplace := o.place
  have hsize := o.size
  -- what follows is work in the loop, and leaves the scopes around it as they are
  have k₂ := Works.freshName loop "elem" hloop h₂
  have k := k₂.trans hloop (Works.declare loop _ (k₂.lt_size hloop) h₃)
  obtain ⟨symbols, hlocal⟩ : ∃ symbols, t₃.scope? loop =
      some ⟨"for", .loop, some scope, [], symbols, [], [.owned element (type.element?.getD type)]⟩ := by
    obtain ⟨-, rfl⟩ := Prod.mk.inj h₂
    obtain ⟨-, rfl⟩ := Prod.mk.inj h₃
    exact ⟨_, scope?_modifyScope_self (scope?_modifyScope_self o.new _) _⟩
  refine ⟨k.target.trans o.target, fun c => List.Subset.trans (o.symbols c) (k.symbols c), k.size.trans hsize,
    fun c hc hne => ?_, fun {s} hs => ?_, fun {i type'} hi => ?_, fun i hi => ?_⟩
  · exact (k.outside c (by omega) (by omega)).trans (o.outside c hc hne)
  · obtain ⟨s', hs', hhead, hchildren⟩ := o.inside hs
    refine ⟨s', (k.outside scope (by omega) (by omega)).trans hs', hhead, ?_⟩
    rw [hchildren, hplace]
    rfl
  · obtain ⟨rfl, rfl⟩ : i = 0 ∧ type = type' := by
      cases i <;> simp_all
    rw [Nat.add_zero, ← hplace]
    exact ⟨_, hlocal, rfl, rfl, rfl, element, rfl⟩
  · obtain rfl : i = 0 := Nat.lt_one_iff.1 hi
    rw [Nat.add_zero, ← hplace]
    refine ⟨element, t₁.visibleSymbols loop, ?_, ?_, fun u hu => ?_⟩
    · rw [localsOf, hlocal]
      rfl
    · rw [k.target]
      exact (congrArg Prod.fst h₂).symm
    · obtain ⟨d, hd, hmem⟩ := o.visible hu
      exact ⟨d, k.encloses hd, k.symbols d hmem⟩

/-- The loops of a result: one, if it is copied element by element. -/
def loopTypes (copies : Bool) (r : Semantic.Result) : Delivery → List ValueType
  | .fill _ => if copies then [r.type] else []
  | _ => []

theorem hold_works (source : ResultSource) (r : Semantic.Result) (delivery : Delivery) :
    Works scope [] (source.hold scope r delivery) := by
  cases source with
  | inPlace a => exact .pure scope _
  | _ => exact .andThen (.insertSymbol scope _) fun value => .andThen (.declare scope _) fun _ => .pure scope _

theorem deliver_works (r : Semantic.Result) (delivery : Delivery) (native : Local) (bound : Option CallTarget)
    (measure : List String → List Stmt) (copies : Bool) :
    Works scope (loopTypes copies r delivery) (deliver target scope r delivery native bound measure copies) := by
  unfold deliver
  by_cases hd : delivery = .direct
  · subst hd
    exact .pure scope _
  rw [if_neg hd]
  refine .andThen (.freshName scope _) fun ptr => .andThen (.series scope _ _) fun shape => ?_
  cases copies with
  | false =>
    have hnone : loopTypes false r delivery = [] := by cases delivery <;> rfl
    rw [hnone]
    exact .pure scope _
  | true =>
    refine .andThen (.freshName scope _) fun held => .andThen (.declare scope _) fun _ => ?_
    cases delivery with
    | direct => exact absurd rfl hd
    | copy => exact .andThen (.pure scope _) fun copy => .pure scope _
    | fill isSet => exact (fillLoop_works target scope r.type native.name held isSet).bind fun copy => .pure scope _

theorem marshalResult_works (r : Semantic.Result) (delivery : Delivery) (source : ResultSource) :
    Works scope (loopTypes (source.copies r) r delivery) (marshalResult target scope r delivery source) := by
  rw [marshalResult_eq]
  exact .andThen (hold_works scope source r delivery) fun native => deliver_works target scope r delivery _ _ _ _

end Marshalling

/-! ### One wrapper -/

namespace ScopeTree

variable {t t' : ScopeTree} {w : Wrapper.Function} {ws : List Wrapper.Function}

/-- The scope of the wrapper is right inside the root and has its name, and the loops in it are those that fill the
wrapper's results, in their order. -/
def Houses (t : ScopeTree) (w : Wrapper.Function) : Prop :=
  ∃ s, t.scope? w.scope = some s ∧ s.heading = (w.name, .function, some root) ∧ s.children.Nodup ∧
    List.Forall₂ (fun r c => t.IsLoop w.scope r.declared.type c) w.filledResults s.children

/-- What one wrapper adds to the tree. -/
structure Housed (t t' : ScopeTree) (w : Wrapper.Function) : Prop where
  place : t.size = w.scope
  outside : ∀ c < t.size, c ≠ root → t'.scope? c = t.scope? c
  top : ∀ {s}, t.scope? root = some s → ∃ s', t'.scope? root = some s' ∧ s'.heading = s.heading ∧
    s'.children = s.children ++ [w.scope]
  houses : t'.Houses w
  elements : ∀ c ∈ t'.children w.scope, t'.ElementNamed w.scope c
  new : ∀ c < t'.size, t.size ≤ c → c = w.scope ∨ c ∈ t'.children w.scope
  locals : w.locals = t'.locals w.scope

theorem localsOf_eq {s : Scope} {id : ScopeId} (hs : t.scope? id = some s) : t.localsOf id = s.locals := by
  rw [localsOf, hs]
  rfl

end ScopeTree

section Making

open ScopeTree Alloc

variable {target : Target} {t t₁ t' : ScopeTree} {w : Wrapper.Function} {types : List ValueType}

theorem Alloc.openFunction_housed {hint : String} (hpos : 0 < t.size)
    (hopen : openFunction hint t = ((w.name, w.scope), t₁)) (k : Worked w.scope types t₁ t')
    (hlocals : w.locals = t'.locals w.scope) (hfilled : w.filledResults.map (·.declared.type) = types) :
    Housed t t' w := by
  obtain ⟨name, t₀, h₀, hopen⟩ := bind_eq hopen
  obtain ⟨(scope : Nat), t₂, h₁, h⟩ := bind_eq hopen
  obtain ⟨hpair, rfl⟩ := Prod.mk.inj h
  obtain ⟨hname, hscope⟩ := Prod.mk.inj hpair
  have k₀ := Works.freshName root hint hpos h₀
  have o := newChild_opened (k₀.lt_size hpos) h₁
  subst hfilled
  rw [hname, hscope] at o
  have hplace : t.size = w.scope := (o.place.trans k₀.size).symm
  have hsize₀ : t₀.size = t.size := k₀.size
  have hsize := o.size
  obtain ⟨s, hs, hhead, hchildren⟩ := k.inside o.new
  rw [List.nil_append] at hchildren
  refine ⟨hplace, fun c hc hne => ?_, fun {s} hs => ?_, ⟨s, hs, hhead, hchildren ▸ List.nodup_range', ?_⟩,
    fun c hc => ?_, fun c hc hle => ?_, hlocals⟩
  · rw [k.outside c (by omega) (by omega), o.outside c (by omega) hne, k₀.outside c hc hne]
  · obtain ⟨s₀, hs₀, hhead₀, hchildren₀⟩ := k₀.inside hs
    obtain ⟨s₁, hs₁, hhead₁, hchildren₁⟩ := o.inside hs₀
    have hroot : root < t₂.size := k₀.lt_size hpos |>.trans_le (by omega)
    refine ⟨s₁, (k.outside root hroot (Nat.ne_of_lt (hplace ▸ hpos))).trans hs₁, hhead₁.trans hhead₀, ?_⟩
    rw [hchildren₁, hchildren₀]
    simp
  · rw [hchildren, List.forall₂_iff_get]
    refine ⟨by simp, fun i hi _ => ?_⟩
    have hi' : (w.filledResults.map (·.declared.type))[i]? = some (w.filledResults.get ⟨i, hi⟩).declared.type := by
      rw [List.getElem?_map, List.getElem?_eq_getElem hi]
      rfl
    simpa using k.loops hi'
  · rw [children_eq hs, hchildren, List.mem_range'_1] at hc
    obtain ⟨i, rfl⟩ := Nat.exists_eq_add_of_le hc.1
    exact k.elements i (by omega)
  · rw [children_eq hs, hchildren, List.mem_range'_1]
    have hsize' := k.size
    omega

theorem copies_sourceOf {arguments : List MarshalledArgument} (hargs : w.arguments = arguments.map (·.argument))
    (r : Semantic.Result) : (Job.sourceOf arguments r).copies r = (!r.isAlias && !w.returnsInPlace r) := by
  have hplace : w.returnsInPlace r = (r.isArgument && arguments.any (·.name == r.name)) := by
    rw [Function.returnsInPlace, hargs, List.any_map]
    rfl
  rcases Job.sourceOf_eq arguments r with ⟨hany, a, hsource⟩ | ⟨hany, hsource⟩ <;>
    simp [hplace, hany, hsource, ResultSource.copies]

theorem loopTypes_eq {r : Semantic.Result} {delivery : Delivery} (h : Delivery.of? r.type = some delivery)
    (copies : Bool) :
    loopTypes copies r delivery = ([r].filter fun r => r.type.isListOrSet && copies).map (·.type) := by
  unfold Delivery.of? at h
  split at h <;> cases h <;> cases copies <;> simp_all [loopTypes, ValueType.isListOrSet]

/-- The loops opened for the results of a plan are those of the results that a loop fills. -/
theorem flatMap_loopTypes {results : List Semantic.Result} {plan : List (Semantic.Result × Delivery)}
    (h : List.Forall₂ (fun r p => p.1 = r ∧ Delivery.of? r.type = some p.2) results plan)
    (copies : Semantic.Result → Bool) :
    plan.flatMap (fun p => loopTypes (copies p.1) p.1 p.2) =
      (results.filter fun r => r.type.isListOrSet && copies r).map (·.type) := by
  induction h with
  | nil => rfl
  | @cons r p results plan hp _ ih =>
    obtain ⟨rfl, hd⟩ := hp
    rw [List.flatMap_cons, ih, loopTypes_eq hd, ← List.map_append]
    cases hc : p.1.type.isListOrSet && copies p.1 <;> simp [hc]

theorem Job.run_housed {job : Job} (horigin : job.origin.isCall = true) (hpos : 0 < t.size)
    (h : job.run target t = (.ok w, t')) : Housed t t' w := by
  obtain ⟨plan, t₁, t₂, arguments, results, hplan, hopen, h₂, h₃, hw, hargs, hres, -, hlocals⟩ := Job.run_ok h
  have hid := (Alloc.openFunction_opened hopen).1
  have k₂ := Works.mapM_nil (fun p : Semantic.Argument × Passing => marshalArgument_works target w.scope p.1 p.2
    (needsTemporary job.function p.1 p.2)) plan.arguments hid h₂
  have k₃ := Works.mapM (fun p : Semantic.Result × Delivery => marshalResult_works target w.scope p.1 p.2
    (sourceOf arguments p.1)) plan.results (k₂.lt_size hid) h₃
  refine Alloc.openFunction_housed hpos hopen (k₂.trans hid k₃) hlocals ?_
  simp only [copies_sourceOf hargs]
  obtain ⟨arguments', made, hl⟩ := Job.run_lowering h
  have hdeclared : w.results.map (·.declared) = job.function.results := by
    rw [hl.results_eq, List.map_map]
    have hmade : List.Forall₂ (fun r m => ((·.declared) ∘ fun m : MarshalledResult × ResultNames => m.1.result) m = id r)
        job.function.results made := hl.delivered.imp fun r m ⟨p, _, hd⟩ => hd.declared_eq
    rw [forall₂_map_eq hmade, List.map_id]
  rw [List.nil_append, flatMap_loopTypes (CrossingPlan.of_ok hplan).2 fun r => !r.isAlias && !w.returnsInPlace r,
    ← hdeclared, List.filter_map, List.map_map, Function.filledResults, hw, horigin]
  rfl

theorem wrapAllocator_housed {c : Semantic.Class} (hpos : 0 < t.size) (h : wrapAllocator c t = (w, t')) :
    Housed t t' w := by
  obtain ⟨⟨name, scope⟩, t₁, h₁, h⟩ := Alloc.bind_eq h
  obtain ⟨object, t₂, h₂, h⟩ := Alloc.bind_eq h
  obtain ⟨_, t₃, h₃, h⟩ := Alloc.bind_eq h
  obtain ⟨ptr, t₄, h₄, h⟩ := Alloc.bind_eq h
  obtain ⟨rfl, rfl⟩ := Prod.mk.inj h
  have hid := (Alloc.openFunction_opened h₁).1
  have k₂ := Works.freshName scope _ hid h₂
  have k₃ := k₂.trans hid (Works.declare scope _ (k₂.lt_size hid) h₃)
  have k₄ := k₃.trans hid (Works.freshName scope _ (k₃.lt_size hid) h₄)
  exact Alloc.openFunction_housed hpos h₁ k₄ rfl rfl

theorem wrapAccessor_housed {v : Semantic.Variable} (hpos : 0 < t.size) (h : wrapAccessor target v t = (w, t')) :
    Housed t t' w := by
  obtain ⟨⟨name, scope⟩, t₁, h₁, h⟩ := Alloc.bind_eq h
  obtain ⟨ptr, t₂, h₂, h⟩ := Alloc.bind_eq h
  obtain ⟨shape, t₃, h₃, h⟩ := Alloc.bind_eq h
  obtain ⟨rfl, rfl⟩ := Prod.mk.inj h
  have hid := (Alloc.openFunction_opened h₁).1
  have k₂ := Works.freshName scope _ hid h₂
  have k₃ := k₂.trans hid (Works.series scope _ _ (k₂.lt_size hid) h₃)
  exact Alloc.openFunction_housed hpos h₁ k₃ rfl rfl

theorem wrapGetter_housed {c : Semantic.Class} {a : Semantic.Attribute} {delivery : Delivery} (hpos : 0 < t.size)
    (h : wrapGetter target c a delivery t = (w, t')) : Housed t t' w := by
  obtain ⟨⟨name, scope⟩, t₁, h₁, h⟩ := Alloc.bind_eq h
  obtain ⟨value, t₂, h₂, h⟩ := Alloc.bind_eq h
  obtain ⟨receiver, t₃, h₃, h⟩ := Alloc.bind_eq h
  obtain ⟨rfl, rfl⟩ := Prod.mk.inj h
  have hid := (Alloc.openFunction_opened h₁).1
  have hnone : loopTypes (ResultSource.field.copies (attributeValue a)) (attributeValue a) delivery = [] := by
    cases delivery <;> rfl
  have k₂ := hnone ▸ marshalResult_works target scope (attributeValue a) delivery .field hid h₂
  have k₃ := k₂.trans hid (marshalArgument_works target scope _ _ _ (k₂.lt_size hid) h₃)
  exact Alloc.openFunction_housed hpos h₁ k₃ rfl rfl

theorem wrapSetter_housed {c : Semantic.Class} {a : Semantic.Attribute} {passing : Passing} (hpos : 0 < t.size)
    (h : wrapSetter target c a passing t = (w, t')) : Housed t t' w := by
  obtain ⟨⟨name, scope⟩, t₁, h₁, h⟩ := Alloc.bind_eq h
  obtain ⟨receiver, t₂, h₂, h⟩ := Alloc.bind_eq h
  obtain ⟨value, t₃, h₃, h⟩ := Alloc.bind_eq h
  obtain ⟨rfl, rfl⟩ := Prod.mk.inj h
  have hid := (Alloc.openFunction_opened h₁).1
  have k₂ := marshalArgument_works target scope _ _ _ hid h₂
  have k₃ := k₂.trans hid (marshalArgument_works target scope _ _ _ (k₂.lt_size hid) h₃)
  exact Alloc.openFunction_housed hpos h₁ k₃ rfl rfl

theorem MemberMade.housed {c : Semantic.Class} (hpos : 0 < t.size) (h : MemberMade target c t t' w) :
    Housed t t' w := by
  cases h with
  | method m hm h => exact Job.run_housed rfl hpos h
  | getter a ha delivery hd h => exact wrapGetter_housed hpos h
  | setter a ha passing hp h => exact wrapSetter_housed hpos h

theorem Made.housed {m : Semantic.Module} (hpos : 0 < t.size) (h : Made target m t t' w) : Housed t t' w := by
  cases h with
  | function f hf h => exact Job.run_housed rfl hpos h
  | allocator c hc h => exact wrapAllocator_housed hpos h
  | member c hc h => exact h.housed hpos
  | accessor v h => exact wrapAccessor_housed hpos h

end Making

/-! ### Scopes that are not touched -/

namespace ScopeTree

variable {t t' : ScopeTree} {w : Wrapper.Function} {ws ws' : List Wrapper.Function}

/-- Scopes other than the root are as they were. -/
def Kept (t t' : ScopeTree) : Prop :=
  t.size ≤ t'.size ∧ ∀ {c s}, t.scope? c = some s → s.kind ≠ .module → t'.scope? c = some s

theorem IsLoop.kept {id c : ScopeId} {type : ValueType} (h : t.IsLoop id type c) (hkept : Kept t t') :
    t'.IsLoop id type c := by
  obtain ⟨s, hs, hkind, hloop⟩ := h
  exact ⟨s, hkept.2 hs (by simp [hkind]), hkind, hloop⟩

theorem IsLoop.childless {id c : ScopeId} {type : ValueType} (h : t.IsLoop id type c) : t.children c = [] := by
  obtain ⟨s, hs, -, -, hchildren, -⟩ := h
  rw [children_eq hs, hchildren]

/-- Where the scopes inside have none inside themselves, the walk is over after two levels. -/
theorem locals_of_childless {id : ScopeId} (hsize : 2 ≤ t.size) (h : ∀ c ∈ t.children id, t.children c = []) :
    t.locals id = t.localsOf id ++ (t.children id).flatMap t.localsOf := by
  obtain ⟨k, hk⟩ := Nat.exists_eq_add_of_le' hsize
  have hinner : (t.children id).flatMap (t.subtreeWithin (k + 1)) = t.children id := by
    calc (t.children id).flatMap (t.subtreeWithin (k + 1))
      _ = (t.children id).flatMap fun c => [c] := List.flatMap_congr fun c hc => by rw [subtreeWithin, h c hc]; rfl
      _ = t.children id := List.flatMap_singleton' _
  rw [locals, subtree, hk, subtreeWithin, hinner, List.flatMap_cons]

namespace Houses

theorem kind {s : Scope} (h : t.Houses w) (hs : t.scope? w.scope = some s) : s.kind = .function := by
  obtain ⟨s', hs', hhead, -⟩ := h
  obtain rfl := Option.some.inj (hs.symm.trans hs')
  exact congrArg (·.2.1) hhead

theorem loops (h : t.Houses w) : (t.children w.scope).Nodup ∧
    List.Forall₂ (fun r c => t.IsLoop w.scope r.declared.type c) w.filledResults (t.children w.scope) := by
  obtain ⟨s, hs, -, hloops⟩ := h
  rwa [children_eq hs]

theorem kept (h : t.Houses w) (hkept : Kept t t') : t'.Houses w ∧ t'.scope? w.scope = t.scope? w.scope := by
  obtain ⟨s, hs, hhead, hnodup, hloops⟩ := h
  have hkind : s.kind = .function := congrArg (·.2.1) hhead
  have hs' := hkept.2 hs (by simp [hkind])
  exact ⟨⟨s, hs', hhead, hnodup, hloops.imp fun _ _ hc => hc.kept hkept⟩, hs'.trans hs.symm⟩

theorem locals_eq (h : t.Houses w) (hsize : 2 ≤ t.size) :
    t.locals w.scope = t.localsOf w.scope ++ (t.children w.scope).flatMap t.localsOf := by
  refine locals_of_childless hsize fun c hc => ?_
  obtain ⟨r, -, hloop⟩ := exists_of_forall₂_right h.loops.2 hc
  exact hloop.childless

theorem locals_kept (h : t.Houses w) (hsize : 2 ≤ t.size) (hkept : Kept t t') :
    t'.locals w.scope = t.locals w.scope := by
  obtain ⟨h', hscope⟩ := h.kept hkept
  have hchildren : t'.children w.scope = t.children w.scope := by rw [children, hscope, children]
  rw [h.locals_eq hsize, h'.locals_eq (hsize.trans hkept.1), hchildren, localsOf, hscope, localsOf]
  congr 1
  refine List.flatMap_congr fun c hc => ?_
  obtain ⟨r, -, s, hs, hkind, -⟩ := exists_of_forall₂_right h.loops.2 hc
  rw [localsOf_eq hs, localsOf_eq (hkept.2 hs (by simp [hkind]))]

end Houses

/-! ### All wrappers -/

/-- The scopes of the tree are the root and those of the wrappers with their loops. -/
structure Mirrors (t : ScopeTree) (ws : List Wrapper.Function) : Prop where
  top : ∃ s, t.scope? root = some s ∧ s.kind = .module ∧ s.children = ws.map (·.scope)
  nodup : (ws.map (·.scope)).Nodup
  houses : ∀ w ∈ ws, t.Houses w
  locals : ∀ w ∈ ws, w.locals = t.locals w.scope
  covered : ∀ c < t.size, c = root ∨ ∃ w ∈ ws, c = w.scope ∨ c ∈ t.children w.scope

namespace Mirrors

theorem pos (h : t.Mirrors ws) : 0 < t.size := by
  obtain ⟨s, hs, -⟩ := h.top
  exact lt_size hs

theorem new (target : Target) (name : String) (used : List String) : (ScopeTree.new target name used).Mirrors [] := by
  refine ⟨⟨_, rfl, rfl, rfl⟩, .nil, by simp, by simp, fun c hc => .inl ?_⟩
  exact Nat.lt_one_iff.1 hc

theorem kept (h : t.Mirrors ws) (hle : t.size ≤ t'.size)
    (houtside : ∀ c < t.size, c ≠ root → t'.scope? c = t.scope? c) : Kept t t' := by
  refine ⟨hle, fun {c s} hs hkind => (houtside c (lt_size hs) ?_).trans hs⟩
  rintro rfl
  obtain ⟨s', hs', hkind', -⟩ := h.top
  rw [hs', Option.some.injEq] at hs
  exact hkind (hs ▸ hkind')

theorem two_le_size (h : t.Mirrors ws) {w : Wrapper.Function} (hw : w ∈ ws) : 2 ≤ t.size := by
  have hhouse := h.houses w hw
  obtain ⟨s, hs, hkind, -⟩ := h.top
  obtain ⟨s', hs', -⟩ := id hhouse
  have hne : w.scope ≠ root := by
    intro heq
    have hfunction := hhouse.kind (heq ▸ hs)
    rw [hkind] at hfunction
    cases hfunction
  have hlt := lt_size hs'
  have hpos : 0 < w.scope := Nat.pos_of_ne_zero hne
  exact Nat.lt_of_le_of_lt hpos hlt

/-- Wrappers that were there stay mirrored where only the root and new scopes change. -/
theorem carried (h : t.Mirrors ws) (hkept : Kept t t') {w : Wrapper.Function} (hw : w ∈ ws) :
    t'.Houses w ∧ w.locals = t'.locals w.scope ∧ t'.children w.scope = t.children w.scope := by
  obtain ⟨hhouse, hscope⟩ := (h.houses w hw).kept hkept
  refine ⟨hhouse, ?_, by rw [children, hscope, children]⟩
  rw [(h.houses w hw).locals_kept (h.two_le_size hw) hkept]
  exact h.locals w hw

theorem step (h : t.Mirrors ws) (hw : Housed t t' w) : t'.Mirrors (ws ++ [w]) := by
  obtain ⟨s, hs, hkind, hchildren⟩ := h.top
  obtain ⟨s', hs', hhead', hchildren'⟩ := hw.top hs
  obtain ⟨sw, hsw, -⟩ := hw.houses
  have hplace := hw.place
  have hle : t.size ≤ t'.size := Nat.le_of_lt (hplace ▸ lt_size hsw)
  have hcarried := fun {v} => h.carried (w := v) (h.kept hle hw.outside)
  refine ⟨⟨s', hs', ?_, ?_⟩, ?_, fun v hv => ?_, fun v hv => ?_, fun c hc => ?_⟩
  · exact (congrArg (·.2.1) hhead').trans hkind
  · rw [hchildren', hchildren, List.map_append]
    rfl
  · rw [List.map_append]
    refine h.nodup.append (List.nodup_singleton _) fun c hc hc' => ?_
    obtain ⟨v, hv, rfl⟩ := List.mem_map.1 hc
    obtain ⟨sv, hsv, -⟩ := h.houses v hv
    have heq : v.scope = w.scope := List.mem_singleton.1 hc'
    exact Nat.ne_of_lt (lt_size hsv) (heq.trans hplace.symm)
  · rcases List.mem_append.1 hv with hv | hv
    · exact (hcarried hv).1
    · exact List.mem_singleton.1 hv ▸ hw.houses
  · rcases List.mem_append.1 hv with hv | hv
    · exact (hcarried hv).2.1
    · exact List.mem_singleton.1 hv ▸ hw.locals
  · by_cases hold : c < t.size
    · refine (h.covered c hold).imp_right ?_
      rintro ⟨v, hv, hc⟩
      exact ⟨v, List.mem_append_left _ hv, (hcarried hv).2.2 ▸ hc⟩
    · exact .inr ⟨w, by simp, hw.new c hc (Nat.not_lt.1 hold)⟩

theorem named (h : t.Mirrors ws) (k : Worked root [] t t') : t'.Mirrors ws := by
  obtain ⟨s, hs, hkind, hchildren⟩ := h.top
  obtain ⟨s', hs', hhead', hchildren'⟩ := k.inside hs
  have hsize : t'.size = t.size := k.size
  have hcarried := fun {v} => h.carried (w := v) (h.kept (Nat.le_of_eq hsize.symm) k.outside)
  refine ⟨⟨s', hs', (congrArg (·.2.1) hhead').trans hkind, ?_⟩, h.nodup, fun v hv => (hcarried hv).1,
    fun v hv => (hcarried hv).2.1, fun c hc => (h.covered c (hsize ▸ hc)).imp_right ?_⟩
  · rw [hchildren', hchildren]
    simp
  · rintro ⟨v, hv, hc⟩
    exact ⟨v, hv, (hcarried hv).2.2 ▸ hc⟩

end Mirrors

end ScopeTree

open ScopeTree

theorem Series.mirrors {target : Target} {m : Semantic.Module} {t t' : ScopeTree} {ws ws' : List Wrapper.Function}
    (h : Series (Made target m) t t' ws') (ht : t.Mirrors ws) : t'.Mirrors (ws ++ ws') := by
  induction h generalizing ws with
  | nil t => rwa [List.append_nil]
  | @cons t t₁ t' w ws' h _ ih =>
    have hall := ih (ht.step (h.housed ht.pos))
    rwa [List.append_assoc] at hall

/-- The scopes of a wrapped module are those of its wrappers. -/
structure WrappedModule.Mirrored (r : WrappedModule) : Prop where
  injective : (r.module.allFunctions.map (·.scope)).Nodup
  functions : ∀ id, (∃ s, r.scopes.scope? id = some s ∧ s.kind = .function) ↔
    id ∈ r.module.allFunctions.map (·.scope)
  top : (r.scopes.children root).Perm (r.module.allFunctions.map (·.scope))
  named : ∀ w ∈ r.module.allFunctions, ∃ s, r.scopes.scope? w.scope = some s ∧
    s.heading = (w.name, .function, some root)
  locals : ∀ w ∈ r.module.allFunctions, w.locals = r.scopes.locals w.scope
  loops : ∀ w ∈ r.module.allFunctions, (r.scopes.children w.scope).Nodup ∧
    List.Forall₂ (fun r' c => r.scopes.IsLoop w.scope r'.declared.type c) w.filledResults (r.scopes.children w.scope)
  others : ∀ {id s}, r.scopes.scope? id = some s → id ≠ root → s.kind ≠ .function → s.kind = .loop ∧ s.children = [] ∧
    ∃ w ∈ r.module.allFunctions, w.filledResults ≠ [] ∧ s.parent = some w.scope ∧ id ∈ r.scopes.children w.scope

theorem ScopeTree.Mirrors.mirrored {r : WrappedModule} {ws : List Wrapper.Function} (h : r.scopes.Mirrors ws)
    (hperm : ws.Perm r.module.allFunctions) : r.Mirrored := by
  have hmem : ∀ {w}, w ∈ r.module.allFunctions ↔ w ∈ ws := hperm.symm.mem_iff
  have hscopes := hperm.map (·.scope)
  obtain ⟨s, hs, hkind, hchildren⟩ := h.top
  -- a scope that is neither the root nor that of a wrapper is a loop of a wrapper
  have hloop : ∀ {id s}, r.scopes.scope? id = some s → id ≠ root → id ∉ ws.map (·.scope) →
      ∃ w ∈ ws, w.filledResults ≠ [] ∧ id ∈ r.scopes.children w.scope ∧ s.kind = .loop ∧ s.children = [] ∧
        s.parent = some w.scope := by
    intro id s hs hroot hnot
    rcases h.covered id (lt_size hs) with heq | ⟨w, hw, heq | hchild⟩
    · exact absurd heq hroot
    · exact absurd (List.mem_map.2 ⟨w, hw, heq.symm⟩) hnot
    · obtain ⟨r', hr', s', hs', hkind, hparent, hchildren, -⟩ := exists_of_forall₂_right (h.houses w hw).loops.2 hchild
      obtain rfl := Option.some.inj (hs.symm.trans hs')
      exact ⟨w, hw, List.ne_nil_of_mem hr', hchild, hkind, hchildren, hparent⟩
  refine ⟨hscopes.nodup_iff.1 h.nodup, fun id => ?_, ?_, fun w hw => ?_, fun w hw => h.locals w (hmem.1 hw),
    fun w hw => (h.houses w (hmem.1 hw)).loops, fun {id s} hs hroot hfunction => ?_⟩
  · rw [← hscopes.mem_iff]
    constructor
    · rintro ⟨s', hs', hfunction⟩
      by_contra hnot
      have hroot : id ≠ root := by
        rintro rfl
        rw [hs, Option.some.injEq] at hs'
        rw [← hs', hkind] at hfunction
        cases hfunction
      obtain ⟨w, -, -, -, hloop, -⟩ := hloop hs' hroot hnot
      rw [hloop] at hfunction
      cases hfunction
    · intro hid
      obtain ⟨w, hw, rfl⟩ := List.mem_map.1 hid
      have hhouse := h.houses w hw
      obtain ⟨s', hs', -⟩ := id hhouse
      exact ⟨s', hs', hhouse.kind hs'⟩
  · rw [children_eq hs, hchildren]
    exact hscopes
  · obtain ⟨s', hs', hhead, -⟩ := h.houses w (hmem.1 hw)
    exact ⟨s', hs', hhead⟩
  · have hnot : id ∉ ws.map (·.scope) := by
      intro hid
      obtain ⟨w, hw, rfl⟩ := List.mem_map.1 hid
      exact hfunction ((h.houses w hw).kind hs)
    obtain ⟨w, hw, hfilled, hchild, hloop, hnone, hparent⟩ := hloop hs hroot hnot
    exact ⟨hloop, hnone, w, hmem.2 hw, hfilled, hparent, hchild⟩

/-- The scope tree of a wrapped module has the root, a scope for each wrapper with the wrapper's locals and in it a loop
for each result that is filled, and no other scope. -/
theorem wrapModule_mirrored (target : Target) (m : Semantic.Module) (hname : isIdentifier m.name = true) :
    ∃ r, wrapModule target m = .ok r ∧ r.value.Mirrored := by
  obtain ⟨r, hr⟩ := wrapModule_ok target hname
  obtain ⟨parts, hparts, hmodule⟩ := wrapModule_parts hr
  obtain ⟨t, ws, hws, hperm, hfresh, -⟩ := wrapParts_series hparts
  rw [hmodule] at hperm
  have hmirrors := hws.mirrors (Mirrors.new target m.name m.usedSymbols)
  have k := Alloc.Works.freshName root _ hmirrors.pos hfresh
  exact ⟨r, hr, (hmirrors.named k).mirrored hperm⟩

/-- A function with results in place, filled and by reference, one that cannot be wrapped, and a class with a list. -/
def census : Semantic.Module where
  name := "census"
  globals := [{ name := "counts", type := .array .int64 2 .rowMajor }]
  functions := [
    { name := "tally", arguments := [{ name := "rows", type := .list (.scalar .int64) }],
      results := [{ name := "rows", type := .list (.scalar .int64), isArgument := true },
        { name := "seen", type := .set (.scalar .int64) },
        { name := "rest", type := .list (.scalar .float64), isAlias := true },
        { name := "order", type := .list (.scalar .int32) }] },
    { name := "visit", arguments := [{ name := "action", type := .functionRef }] }]
  classes := [{
    name := "Book"
    methods := [
      { name := "titles", arguments := [{ name := "self", type := .object "Book", bound := true }],
        results := [{ name := "found", type := .list (.scalar .int32) }] }]
    attributes := [{ name := "pages", type := .list (.scalar .int32) }] }]

theorem wrapModule_mirrored_census : isIdentifier census.name = true ∧
    ∃ r, wrapModule .fortran census = .ok r ∧ r.value.Mirrored ∧
      r.value.scopes.scopes.map (fun s => (s.kind, s.parent)) =
        [(.module, none), (.function, some 0), (.loop, some 1), (.loop, some 1), (.function, some 0),
          (.function, some 0), (.loop, some 5), (.function, some 0), (.function, some 0), (.function, some 0)] := by
  have hname : isIdentifier census.name = true := by decide +kernel
  obtain ⟨r, hr, hmirrored⟩ := wrapModule_mirrored .fortran census hname
  have hscopes : (wrapModule .fortran census).toOption.map
      (fun r => r.value.scopes.scopes.map fun s => (s.kind, s.parent)) =
        some [(.module, none), (.function, some 0), (.loop, some 1), (.loop, some 1), (.function, some 0),
          (.function, some 0), (.loop, some 5), (.function, some 0), (.function, some 0), (.function, some 0)] := by
    decide +kernel
  rw [hr] at hscopes
  exact ⟨hname, r, hr, hmirrored, Option.some.inj hscopes⟩

end AbiBridge
