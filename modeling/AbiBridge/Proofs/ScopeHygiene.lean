import Mathlib
import AbiBridge.Proofs.FreshNames
import AbiBridge.Proofs.ScopeWalks

/-!
# Names of different scopes keep apart

In a tidy tree (`Tidy`) two symbols on one chain that denote one name are one symbol of one scope, and no symbol
is reserved; only the names that the root was given at the start are excepted. The operations that add names keep
a tree tidy, as a free name clashes with nothing that the scope sees, outwards or inwards. `Extends` collects what
an operation keeps, tidiness included, for the computations that are made of such operations.
-/

namespace AbiBridge

namespace Ascending

theorem mem_insert {n s : String} {l : List String} : n ∈ insert s l ↔ n = s ∨ n ∈ l := by
  induction l with
  | nil => simp [insert]
  | cons x l ih =>
    unfold insert
    split
    · simp
    · split
      · rename_i h
        simp [h]
      · simp [ih, or_left_comm]

theorem mem_ofList {n : String} {l : List String} : n ∈ ofList l ↔ n ∈ l := by
  have hfold : ∀ acc : List String, n ∈ l.foldl (fun acc s => insert s acc) acc ↔ n ∈ acc ∨ n ∈ l := by
    induction l with
    | nil => simp
    | cons s l ih =>
      intro acc
      rw [List.foldl_cons, ih, mem_insert, List.mem_cons]
      tauto
  exact (hfold []).trans (by simp)

theorem lookup_insertPair {α : Type} (k n : String) (v : α) (l : List (String × α)) :
    (insertPair k v l).lookup n = if n = k then some v else l.lookup n := by
  have hhead : ∀ rest : List (String × α),
      ((k, v) :: rest).lookup n = if n = k then some v else rest.lookup n := by
    intro rest
    by_cases h : n = k <;> simp [List.lookup, h, beq_eq_false_iff_ne.2]
  induction l with
  | nil => exact hhead []
  | cons x l ih =>
    obtain ⟨key, y⟩ := x
    unfold insertPair
    split
    · exact hhead _
    · split
      · rename_i h
        dsimp only at h
        subst h
        rw [hhead, List.lookup]
        by_cases hn : n = k <;> simp [hn, beq_eq_false_iff_ne.2]
      · rename_i h
        rw [List.lookup, List.lookup, ih]
        by_cases hn : n = key
        · have : n ≠ k := fun h' => h (h'.symm.trans hn)
          simp [hn, Ne.symm h]
        · simp [hn, beq_eq_false_iff_ne.2]

end Ascending

namespace Target

theorem sameName_comm (target : Target) (a b : String) : target.sameName a b = target.sameName b a := by
  rw [Bool.eq_iff_iff, sameName_iff, sameName_iff, eq_comm]

theorem hasClash_of_sameName {target : Target} {symbols : List String} {x name : String} (hx : x ∈ symbols)
    (h : target.sameName x name = true) : target.hasClash symbols name = true := by
  rw [hasClash, Bool.or_eq_true, List.any_eq_true]
  exact .inr ⟨x, hx, h⟩

end Target

namespace ScopeTree

variable {t t' t'' : ScopeTree} {used : List String} {id p : Nat}

/-- The names `used` were given to the root, all others were made. -/
structure Tidy (used : List String) (t : ScopeTree) : Prop where
  ordered : t.Ordered
  pos : 0 < t.size
  given : ∀ u ∈ used, u ∈ t.symbolsOf root
  apart : ∀ {a b x y}, t.Encloses a b → x ∈ t.symbolsOf a → y ∈ t.symbolsOf b → t.target.sameName x y = true →
    a = b ∧ x = y ∨ (a = root ∧ x ∈ used) ∧ b = root ∧ y ∈ used
  legal : ∀ {a x}, x ∈ t.symbolsOf a → t.target.isReserved x = true → a = root ∧ x ∈ used
  locals : ∀ {a l}, l ∈ t.localsOf a → l.name ∈ t.symbolsOf a
  expected : ∀ {a n x}, (t.expectedOf a).lookup n = some x → x ∈ t.symbolsOf a

/-- What every operation keeps of a tree. -/
structure Extends (t t' : ScopeTree) : Prop where
  target : t'.target = t.target
  size_le : t.size ≤ t'.size
  children : ∀ c, t.children c ⊆ t'.children c
  symbols : ∀ c, t.symbolsOf c ⊆ t'.symbolsOf c
  expected : ∀ {c n x}, (t.expectedOf c).lookup n = some x → (t'.expectedOf c).lookup n = some x
  tidy : ∀ {used}, t.Tidy used → t'.Tidy used

namespace Extends

theorem refl (t : ScopeTree) : t.Extends t :=
  ⟨rfl, Nat.le_refl _, fun _ => List.Subset.refl _, fun _ => List.Subset.refl _, id, id⟩

theorem trans (h : t.Extends t') (h' : t'.Extends t'') : t.Extends t'' where
  target := h'.target.trans h.target
  size_le := h.size_le.trans h'.size_le
  children c := List.Subset.trans (h.children c) (h'.children c)
  symbols c := List.Subset.trans (h.symbols c) (h'.symbols c)
  expected hx := h'.expected (h.expected hx)
  tidy ht := h'.tidy (h.tidy ht)

end Extends

/-! ### The start -/

theorem symbolsOf_new_root (target : Target) (name : String) (used : List String) :
    (new target name used).symbolsOf root = Ascending.ofList used := rfl

theorem Tidy.new (target : Target) (name : String) (used : List String) : (new target name used).Tidy used := by
  have hmem : ∀ {a x}, x ∈ (ScopeTree.new target name used).symbolsOf a → a = root ∧ x ∈ used := by
    intro a x hx
    have ha : a = root := Nat.lt_one_iff.1 (lt_size_of_mem_symbolsOf hx)
    subst ha
    exact ⟨rfl, Ascending.mem_ofList.1 hx⟩
  refine ⟨.new target name used, Nat.one_pos, fun u hu => ?_, fun _ hx hy _ => .inr ⟨hmem hx, hmem hy⟩,
    fun hx _ => hmem hx, fun {a l} hl => ?_, fun {a n x} hx => ?_⟩
  · rw [symbolsOf_new_root]
    exact Ascending.mem_ofList.2 hu
  · cases a <;> cases hl
  · cases a <;> cases hx

/-! ### A new scope -/

theorem Tidy.newChild (ht : t.Tidy used) (hp : p < t.size) (name : String) (kind : ScopeKind) :
    (t.newChild p name kind).2.Tidy used := by
  have hsym := symbolsOf_newChild t name kind hp
  have hord := ht.ordered.newChild hp name kind
  refine ⟨hord, by rw [size_newChild]; omega, fun u hu => hsym root ▸ ht.given u hu, ?_, ?_, ?_, ?_⟩
  · intro a b x y hab hx hy hxy
    rw [hsym] at hx hy
    refine ht.apart (hab.congr hord (lt_size_of_mem_symbolsOf hy) fun c hc => ?_) hx hy hxy
    rw [parent?_newChild t name kind hp, if_neg (Nat.ne_of_lt hc)]
  · intro a x hx hr
    exact ht.legal (hsym a ▸ hx) hr
  · intro a l hl
    rw [localsOf_newChild t name kind hp] at hl
    exact hsym a ▸ ht.locals hl
  · intro a n x hx
    rw [expectedOf_newChild t name kind hp] at hx
    exact hsym a ▸ ht.expected hx

theorem newChild_extends (hp : p < t.size) (name : String) (kind : ScopeKind) :
    t.Extends (t.newChild p name kind).2 where
  target := rfl
  size_le := by rw [size_newChild]; exact Nat.le_succ _
  children c d hd := (mem_children_newChild t name kind hp c d).2 (.inl hd)
  symbols c := by rw [symbolsOf_newChild t name kind hp]; exact List.Subset.refl _
  expected hx := by rwa [expectedOf_newChild t name kind hp]
  tidy ht := ht.newChild hp name kind

/-! ### A change of one scope -/

section Modify

variable {f : Scope → Scope} {s : Scope} {name : String}

theorem list_modifyScope {α : Type} (view : Scope → List α) (hs : t.scope? id = some s) (c : Nat) :
    (((t.modifyScope id f).scope? c).map view).getD [] =
      if c = id then view (f s) else ((t.scope? c).map view).getD [] := by
  by_cases h : c = id
  · subst h
    rw [if_pos rfl, scope?_modifyScope, hs, Option.map_some, if_pos rfl]
    rfl
  · rw [if_neg h, scope?_modifyScope_ne t (Ne.symm h)]

/-- A scope gets the name `name`, which it owned before or which is free in it, and nothing else but locals and
expectations of its own names. -/
structure Adopts (t : ScopeTree) (id : ScopeId) (name : String) (f : Scope → Scope) (s : Scope) : Prop where
  scope : t.scope? id = some s
  parent : ∀ s, (f s).parent = s.parent
  children : ∀ s, (f s).children = s.children
  symbols : ∀ n, n ∈ (f s).symbols ↔ n = name ∨ n ∈ s.symbols
  free : name ∈ s.symbols ∨ t.target.hasClash (t.visibleSymbols id) name = false
  locals : ∀ l ∈ (f s).locals, l ∈ s.locals ∨ l.name ∈ (f s).symbols
  kept : ∀ {n x}, s.expected.lookup n = some x → (f s).expected.lookup n = some x
  expected : ∀ {n x}, (f s).expected.lookup n = some x → s.expected.lookup n = some x ∨ x ∈ (f s).symbols

namespace Adopts

theorem mem_symbolsOf (h : t.Adopts id name f s) (c : Nat) (n : String) :
    n ∈ (t.modifyScope id f).symbolsOf c ↔ n ∈ t.symbolsOf c ∨ c = id ∧ n = name := by
  rw [symbolsOf, list_modifyScope Scope.symbols h.scope]
  by_cases hc : c = id
  · subst hc
    rw [if_pos rfl, h.symbols, symbolsOf, h.scope]
    simp [or_comm]
  · simp [hc, symbolsOf]

theorem eq_of_sameName (h : t.Adopts id name f s) (ht : t.Tidy used) {c : Nat} {x : String}
    (hc : t.Encloses c id ∨ t.Encloses id c) (hx : x ∈ t.symbolsOf c) (hsame : t.target.sameName x name = true) :
    c = id ∧ x = name ∨ (c = root ∧ x ∈ used) ∧ id = root ∧ name ∈ used := by
  rcases h.free with hown | hfree
  · have hown : name ∈ t.symbolsOf id := by rwa [symbolsOf, h.scope]
    rcases hc with hc | hc
    · exact ht.apart hc hx hown hsame
    · rw [Target.sameName_comm] at hsame
      rcases ht.apart hc hown hx hsame with ⟨rfl, rfl⟩ | ⟨hid, hc⟩
      · exact .inl ⟨rfl, rfl⟩
      · exact .inr ⟨hc, hid⟩
  · have hmem := (mem_visibleSymbols_iff ht.ordered (lt_size h.scope)).2 ⟨c, hc, hx⟩
    rw [Target.hasClash_of_sameName hmem hsame] at hfree
    cases hfree

theorem tidy (h : t.Adopts id name f s) (ht : t.Tidy used) : (t.modifyScope id f).Tidy used := by
  have hsym := h.mem_symbolsOf
  have hord := ht.ordered.modifyScope id h.parent h.children
  refine ⟨hord, by rw [size_modifyScope]; exact ht.pos, fun u hu => (hsym _ _).2 (.inl (ht.given u hu)), ?_, ?_, ?_, ?_⟩
  · intro a b x y hab hx hy hxy
    replace hab : t.Encloses a b := hab.congr hord (Nat.lt_succ_self b) fun c _ =>
      (parent?_modifyScope t id h.parent c).symm
    rw [hsym] at hx hy
    rcases hx with hx | ⟨rfl, rfl⟩ <;> rcases hy with hy | ⟨rfl, rfl⟩
    · exact ht.apart hab hx hy hxy
    · exact h.eq_of_sameName ht (.inl hab) hx hxy
    · rw [Target.sameName_comm] at hxy
      rcases h.eq_of_sameName ht (.inr hab) hy hxy with ⟨rfl, rfl⟩ | ⟨hb, ha⟩
      · exact .inl ⟨rfl, rfl⟩
      · exact .inr ⟨ha, hb⟩
    · exact .inl ⟨rfl, rfl⟩
  · intro a x hx hr
    rcases (hsym a x).1 hx with hx | ⟨rfl, rfl⟩
    · exact ht.legal hx hr
    · rcases h.free with hown | hfree
      · exact ht.legal (by rwa [symbolsOf, h.scope]) hr
      · rw [Target.hasClash, Bool.or_eq_false_iff] at hfree
        exact absurd hr (Bool.eq_false_iff.1 hfree.1)
  · intro a l hl
    rw [localsOf, list_modifyScope Scope.locals h.scope] at hl
    by_cases ha : a = id
    · subst ha
      rw [if_pos rfl] at hl
      rcases h.locals l hl with hl | hl
      · exact (hsym _ _).2 (.inl (ht.locals (by rwa [localsOf, h.scope])))
      · rwa [symbolsOf, list_modifyScope Scope.symbols h.scope, if_pos rfl]
    · rw [if_neg ha] at hl
      exact (hsym _ _).2 (.inl (ht.locals hl))
  · intro a n x hx
    rw [expectedOf, list_modifyScope Scope.expected h.scope] at hx
    by_cases ha : a = id
    · subst ha
      rw [if_pos rfl] at hx
      rcases h.expected hx with hx | hx
      · exact (hsym _ _).2 (.inl (ht.expected (n := n) (by rwa [expectedOf, h.scope])))
      · rwa [symbolsOf, list_modifyScope Scope.symbols h.scope, if_pos rfl]
    · rw [if_neg ha] at hx
      exact (hsym _ _).2 (.inl (ht.expected hx))

end Adopts

theorem extends_of_adopts (name : String) (h : t.Adopts id name f s) : t.Extends (t.modifyScope id f) where
  target := rfl
  size_le := Nat.le_of_eq (size_modifyScope t id f).symm
  children c := by
    rw [children, children, view_modifyScope t Scope.children id h.children]
    exact List.Subset.refl _
  symbols c n hn := (h.mem_symbolsOf c n).2 (.inl hn)
  expected := by
    intro c n x hx
    rw [expectedOf, list_modifyScope Scope.expected h.scope]
    by_cases hc : c = id
    · subst hc
      rw [expectedOf, h.scope] at hx
      rw [if_pos rfl]
      exact h.kept hx
    · rwa [if_neg hc]
  tidy := h.tidy

theorem freshName_extends (hs : t.scope? id = some s) (hint : String) : t.Extends (t.freshName id hint).2 := by
  refine extends_of_adopts (t.freshName id hint).1 (s := s) ?_
  exact ⟨hs, fun _ => rfl, fun _ => rfl, fun _ => Ascending.mem_insert, .inr (t.target.freeName_hasClash _ _),
    fun _ hl => .inl hl, fun hx => hx, fun hx => .inl hx⟩

/-- A local is declared under a name that its scope already owns. -/
theorem insertVariable_extends {l : Wrapper.Local} (hs : t.scope? id = some s) (hl : l.name ∈ s.symbols) :
    t.Extends (t.insertVariable id l) := by
  refine extends_of_adopts l.name (s := s) ?_
  refine ⟨hs, fun _ => rfl, fun _ => rfl, fun _ => Ascending.mem_insert, .inl hl, fun k hk => ?_, fun hx => hx,
    fun hx => .inl hx⟩
  rcases List.mem_append.1 hk with hk | hk
  · exact .inl hk
  · rw [List.mem_singleton.1 hk]
    exact .inr (Ascending.mem_insert.2 (.inl rfl))

/-- A name of the scope becomes the one used for a declared name that had none. -/
theorem expect_extends {actual : String} (hs : t.scope? id = some s) (hactual : actual ∈ s.symbols)
    (hnone : s.expected.lookup name = none) :
    t.Extends (t.modifyScope id fun s => { s with expected := Ascending.insertPair name actual s.expected }) := by
  refine extends_of_adopts actual (s := s) ?_
  refine ⟨hs, fun _ => rfl, fun _ => rfl, fun n => ?_, .inl hactual, fun _ hl => .inl hl, fun {n x} hx => ?_,
    fun {n x} hx => ?_⟩
  · exact ⟨.inr, fun h => h.elim (fun h => h ▸ hactual) fun h => h⟩
  · have hne : n ≠ name := by
      rintro rfl
      rw [hnone] at hx
      cases hx
    rwa [Ascending.lookup_insertPair, if_neg hne]
  · rw [Ascending.lookup_insertPair] at hx
    split at hx
    · obtain rfl := Option.some.inj hx
      exact .inr hactual
    · exact .inl hx

theorem insertSymbol_extends (hs : t.scope? id = some s) (name : String) :
    t.Extends (t.insertSymbol id name).2 := by
  have hexpected : t.expectedOf id = s.expected := by rw [expectedOf, hs]; rfl
  unfold insertSymbol
  split
  · exact .refl t
  · rename_i hnone
    rw [hexpected] at hnone
    refine (freshName_extends hs name).trans (expect_extends (scope?_modifyScope_self hs _) ?_ hnone)
    exact Ascending.mem_insert.2 (.inl rfl)

end Modify

end ScopeTree

end AbiBridge
