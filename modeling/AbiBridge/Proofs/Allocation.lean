import Mathlib
import AbiBridge.Marshal.Allocation
import AbiBridge.Proofs.ScopeHygiene

/-!
# What allocating names adds to a scope

`ScopeTree.Grown` says how a tree differs before and after a computation that allocates in one of its scopes: which
names are new to the scope, which locals were declared in it, that a declared name keeps the name used for it, and
what every operation keeps of the whole tree (`Extends`). Every operation of `Alloc` is one such step
(`freshName_grown`, `insertSymbol_grown`, `declare_grown`, `series_grown`), and steps compose (`Grown.trans`). A new
name differs from the symbols of the scopes inside (`Inner`), and a scope inside takes none from around it
(`freshName_notMem_parent`).
-/

namespace AbiBridge

open Wrapper

namespace ScopeTree

/-! ### What a scope sees of its neighbours -/

/-- A scope right inside owns the name. -/
def Inner (t : ScopeTree) (id : ScopeId) (n : String) : Prop := ∃ c ∈ t.children id, n ∈ t.symbolsOf c

/-- A scope right inside declares a local of that name. -/
def InnerLocal (t : ScopeTree) (id : ScopeId) (n : String) : Prop :=
  ∃ c ∈ t.children id, c ≠ id ∧ n ∈ (t.localsOf c).map (·.name)

/-- The name used in a scope for a declared one. -/
def nameFor? (t : ScopeTree) (id : ScopeId) (name : String) : Option String := (t.expectedOf id).lookup name

section Visible

variable {t t' : ScopeTree} {id c : Nat} {n : String}

theorem exists_scope? (h : id < t.size) : ∃ s, t.scope? id = some s := ⟨_, List.getElem?_eq_getElem h⟩

theorem mem_visibleSymbols (hn : n ∈ t.symbolsOf id) : n ∈ t.visibleSymbols id := by
  obtain ⟨k, hk⟩ := Nat.exists_eq_add_one_of_ne_zero (Nat.ne_zero_of_lt (lt_size_of_mem_symbolsOf hn))
  refine List.mem_append_right _ (List.mem_flatMap.2 ⟨id, ?_, hn⟩)
  rw [subtree, hk]
  exact List.mem_cons_self

theorem mem_visibleSymbols_of_parent (hp : t.parent? c = some id) (hne : c ≠ id) (hn : n ∈ t.symbolsOf id) :
    n ∈ t.visibleSymbols c := by
  have hc := lt_size_of_parent? hp
  have hid := lt_size_of_mem_symbolsOf hn
  obtain ⟨k, hk⟩ := Nat.exists_eq_add_of_le' (show 2 ≤ t.size by omega)
  refine List.mem_append_left _ (List.mem_flatMap.2 ⟨id, ?_, hn⟩)
  rw [chain, hk]
  simp only [chainWithin, hp, List.tail_cons]
  exact List.mem_cons_self

theorem mem_visibleSymbols_of_inner (hid : id < t.size) (h : t.Inner id n) : n ∈ t.visibleSymbols id := by
  obtain ⟨(c : Nat), hc, hn⟩ := h
  by_cases hne : c = id
  · exact mem_visibleSymbols (hne ▸ hn)
  have hlt := lt_size_of_mem_symbolsOf hn
  obtain ⟨k, hk⟩ := Nat.exists_eq_add_of_le' (show 2 ≤ t.size by omega)
  refine List.mem_append_right _ (List.mem_flatMap.2 ⟨c, ?_, hn⟩)
  rw [subtree, hk]
  exact List.mem_cons_of_mem _ (List.mem_flatMap.2 ⟨c, hc, List.mem_cons_self⟩)

theorem locals_eq (t : ScopeTree) (id : Nat) : ∃ inner, t.locals id = t.localsOf id ++ inner := by
  by_cases hid : id < t.size
  · obtain ⟨k, hk⟩ := Nat.exists_eq_add_one_of_ne_zero (Nat.ne_zero_of_lt hid)
    refine ⟨((t.children id).flatMap (t.subtreeWithin k)).flatMap t.localsOf, ?_⟩
    rw [locals, subtree, hk, subtreeWithin, List.flatMap_cons]
  · refine ⟨t.locals id, ?_⟩
    rw [localsOf, t.scope?_eq_none (Nat.not_lt.1 hid)]
    rfl

theorem lt_size_of_mem_localsOf {l : Local} (h : l ∈ t.localsOf id) : id < t.size := by
  by_contra hlt
  rw [localsOf, t.scope?_eq_none (Nat.not_lt.1 hlt)] at h
  cases h

theorem InnerLocal.mem_locals (h : t.InnerLocal id n) (hid : id < t.size) : n ∈ (t.locals id).map (·.name) := by
  obtain ⟨(c : Nat), hc, (hne : c ≠ id), hn⟩ := h
  obtain ⟨l, hl, rfl⟩ := List.mem_map.1 hn
  have hlt := lt_size_of_mem_localsOf hl
  obtain ⟨k, hk⟩ := Nat.exists_eq_add_of_le' (show 2 ≤ t.size by omega)
  refine List.mem_map.2 ⟨l, List.mem_flatMap.2 ⟨c, ?_, hl⟩, rfl⟩
  rw [subtree, hk]
  exact List.mem_cons_of_mem _ (List.mem_flatMap.2 ⟨c, hc, List.mem_cons_self⟩)

theorem Extends.inner (h : t.Extends t') (hn : t.Inner id n) : t'.Inner id n := by
  obtain ⟨c, hc, hn⟩ := hn
  exact ⟨c, h.children id hc, h.symbols c hn⟩

end Visible

/-! ### Growth -/

/-- The second tree is the first with the names `fresh` and the locals `declared` in scope `id`, where no names were
asked for but those for `requested`. -/
structure Grown (id : ScopeId) (requested fresh : List String) (declared : List Local) (t t' : ScopeTree) :
    Prop where
  extend : t.Extends t'
  mem_symbols : ∀ n, n ∈ t'.symbolsOf id ↔ n ∈ t.symbolsOf id ∨ n ∈ fresh
  nodup : fresh.Nodup
  notMem : ∀ n ∈ fresh, n ∉ t.symbolsOf id
  notInner : ∀ n ∈ fresh, ¬ t.Inner id n
  locals : t'.localsOf id = t.localsOf id ++ declared
  declared_mem : ∀ l ∈ declared, l.name ∈ t'.symbolsOf id
  other : ∀ c n, (c = id → n ∉ requested) → t'.nameFor? c n = t.nameFor? c n
  owned : ∀ n x, t'.nameFor? id n = some x → t.nameFor? id n = some x ∨ x ∈ fresh
  frame : ∀ c < t.size, c ≠ id → t'.symbolsOf c = t.symbolsOf c ∧ t'.localsOf c = t.localsOf c

namespace Grown

variable {requested requested' fresh fresh' : List String} {declared declared' : List Local} {id : ScopeId}
  {t t' t'' : ScopeTree}

theorem mono (h : Grown id requested fresh declared t t') {n : String} (hn : n ∈ t.symbolsOf id) :
    n ∈ t'.symbolsOf id :=
  (h.mem_symbols n).2 (.inl hn)

theorem mem_of_fresh (h : Grown id requested fresh declared t t') {n : String} (hn : n ∈ fresh) :
    n ∈ t'.symbolsOf id :=
  (h.mem_symbols n).2 (.inr hn)

theorem lt_size (h : Grown id requested fresh declared t t') (hid : id < t.size) : id < t'.size :=
  Nat.lt_of_lt_of_le hid h.extend.size_le

theorem kept (h : Grown id requested fresh declared t t') {n x : String} (hx : t.nameFor? id n = some x) :
    t'.nameFor? id n = some x :=
  h.extend.expected hx

theorem innerLocal (h : Grown id requested fresh declared t t') {n : String} (hn : t.InnerLocal id n) :
    t'.InnerLocal id n := by
  obtain ⟨c, hc, hne, hn⟩ := hn
  obtain ⟨l, hl, -⟩ := List.mem_map.1 hn
  exact ⟨c, h.extend.children id hc, hne, (h.frame c (lt_size_of_mem_localsOf hl) hne).2 ▸ hn⟩

theorem weaken (h : Grown id requested fresh declared t t') (hsub : requested ⊆ requested') :
    Grown id requested' fresh declared t t' :=
  ⟨h.extend, h.mem_symbols, h.nodup, h.notMem, h.notInner, h.locals, h.declared_mem,
    fun c n hn => h.other c n fun hc hmem => hn hc (hsub hmem), h.owned, h.frame⟩

theorem refl (id : ScopeId) (t : ScopeTree) : Grown id [] [] [] t t :=
  ⟨.refl t, by simp, .nil, by simp, by simp, by simp, by simp, fun _ _ _ => rfl, fun _ _ hx => .inl hx,
    fun _ _ _ => ⟨rfl, rfl⟩⟩

theorem trans (h : Grown id requested fresh declared t t') (h' : Grown id requested' fresh' declared' t' t'') :
    Grown id (requested ++ requested') (fresh ++ fresh') (declared ++ declared') t t'' where
  extend := h.extend.trans h'.extend
  mem_symbols n := by rw [h'.mem_symbols, h.mem_symbols, List.mem_append, or_assoc]
  nodup := h.nodup.append h'.nodup fun n hn hn' => h'.notMem n hn' (h.mem_of_fresh hn)
  notMem n hn := by
    rcases List.mem_append.1 hn with hn | hn
    · exact h.notMem n hn
    · exact fun ho => h'.notMem n hn (h.mono ho)
  notInner n hn := by
    rcases List.mem_append.1 hn with hn | hn
    · exact h.notInner n hn
    · exact fun hi => h'.notInner n hn (h.extend.inner hi)
  locals := by rw [h'.locals, h.locals, List.append_assoc]
  declared_mem l hl := by
    rcases List.mem_append.1 hl with hl | hl
    · exact h'.mono (h.declared_mem l hl)
    · exact h'.declared_mem l hl
  other c n hn := by
    simp only [List.mem_append, not_or] at hn
    rw [h'.other c n fun hc => (hn hc).2, h.other c n fun hc => (hn hc).1]
  owned n x hn := by
    rcases h'.owned n x hn with hn | hx
    · exact (h.owned n x hn).imp_right (List.mem_append_left _)
    · exact .inr (List.mem_append_right _ hx)
  frame c hc hne := by
    obtain ⟨hsym, hloc⟩ := h.frame c hc hne
    obtain ⟨hsym', hloc'⟩ := h'.frame c (Nat.lt_of_lt_of_le hc h.extend.size_le) hne
    exact ⟨hsym'.trans hsym, hloc'.trans hloc⟩

theorem trans_new {c : Nat} (h : Grown id requested fresh declared t t') (h' : Grown c [] fresh' declared' t' t'')
    (hid : id < t.size) (hc : t.size ≤ c) : Grown id requested fresh declared t t'' := by
  have hframe : ∀ d < t.size, t''.symbolsOf d = t'.symbolsOf d ∧ t''.localsOf d = t'.localsOf d := fun d hd =>
    h'.frame d (Nat.lt_of_lt_of_le hd h.extend.size_le) (Nat.ne_of_lt (Nat.lt_of_lt_of_le hd hc))
  have hname : t''.nameFor? = t'.nameFor? := by
    funext d n
    exact h'.other d n fun _ => List.not_mem_nil
  obtain ⟨hsym, hloc⟩ := hframe id hid
  refine ⟨h.extend.trans h'.extend, ?_, h.nodup, h.notMem, h.notInner, ?_, ?_, ?_, ?_, fun d hd hne => ?_⟩
  · rw [hsym]
    exact h.mem_symbols
  · rw [hloc]
    exact h.locals
  · rw [hsym]
    exact h.declared_mem
  · rw [hname]
    exact h.other
  · rw [hname]
    exact h.owned
  · obtain ⟨hsym, hloc⟩ := h.frame d hd hne
    exact ⟨(hframe d hd).1.trans hsym, (hframe d hd).2.trans hloc⟩

end Grown

/-! ### The operations -/

section Operations

variable {t : ScopeTree} {id : Nat}

theorem freshName_notMem (t : ScopeTree) (id : ScopeId) (hint : String) :
    (t.freshName id hint).1 ∉ t.visibleSymbols id :=
  t.target.freeName_notMem _ _

theorem freshName_grown (hid : id < t.size) (hint : String) :
    Grown id [] [(t.freshName id hint).1] [] t (t.freshName id hint).2 := by
  obtain ⟨s, hs⟩ := exists_scope? hid
  have hexp : ∀ c, (t.freshName id hint).2.expectedOf c = t.expectedOf c := by
    intro c
    unfold expectedOf freshName
    dsimp only
    rw [view_modifyScope]
    exact fun _ => rfl
  have hnew := freshName_notMem t id hint
  have hloc : ∀ c, (t.freshName id hint).2.localsOf c = t.localsOf c := by
    intro c
    unfold localsOf freshName
    dsimp only
    rw [view_modifyScope]
    exact fun _ => rfl
  refine ⟨freshName_extends hs hint, fun n => ?_, List.nodup_singleton _, ?_, ?_, ?_, by simp, fun c n _ => ?_,
    fun n x hx => .inl ?_, fun c _ hc => ⟨?_, hloc c⟩⟩
  · have hsym : (t.freshName id hint).2.symbolsOf id = Ascending.insert (t.freshName id hint).1 s.symbols := by
      unfold symbolsOf freshName
      rw [list_modifyScope Scope.symbols hs, if_pos rfl]
    rw [hsym, Ascending.mem_insert, symbolsOf, hs]
    simp [or_comm]
  · simpa using fun hn => hnew (mem_visibleSymbols hn)
  · simpa using fun hn => hnew (mem_visibleSymbols_of_inner hid hn)
  · rw [List.append_nil, hloc]
  · rw [nameFor?, nameFor?, hexp]
  · rwa [nameFor?, hexp] at hx
  · unfold symbolsOf freshName
    rw [list_modifyScope Scope.symbols hs, if_neg hc]

/-- The first request for a declared name makes a new one, a later one gets the same. -/
theorem insertSymbol_grown (hid : id < t.size) (name : String) :
    ∃ fresh, (t.insertSymbol id name).2.nameFor? id name = some (t.insertSymbol id name).1 ∧
      Grown id [name] fresh [] t (t.insertSymbol id name).2 ∧
      (t.nameFor? id name = none → fresh = [(t.insertSymbol id name).1]) := by
  obtain ⟨s, hs⟩ := exists_scope? hid
  have hext := insertSymbol_extends hs name
  unfold insertSymbol at hext ⊢
  split at hext
  · rename_i x hx
    have hrefl := Grown.refl id t
    exact ⟨[], hx, ⟨hext, hrefl.mem_symbols, .nil, by simp, by simp, hrefl.locals, by simp, fun _ _ _ => rfl,
      fun _ _ hx => .inl hx, fun _ _ _ => ⟨rfl, rfl⟩⟩, fun hn => by rw [nameFor?, hx] at hn; cases hn⟩
  · have hg := freshName_grown hid name
    obtain ⟨s₁, hs₁⟩ := exists_scope? (hg.lt_size hid)
    have hlookup : ∀ c n, ((t.freshName id name).2.modifyScope id fun s =>
        { s with expected := Ascending.insertPair name (t.freshName id name).1 s.expected }).nameFor? c n =
        if c = id ∧ n = name then some (t.freshName id name).1 else t.nameFor? c n := by
      intro c n
      rw [← hg.other c n (by simp), nameFor?, nameFor?, expectedOf, list_modifyScope Scope.expected hs₁]
      by_cases hc : c = id
      · subst hc
        rw [if_pos rfl, Ascending.lookup_insertPair, expectedOf, hs₁]
        simp
      · rw [if_neg hc, if_neg fun h => hc h.1]
        rfl
    refine ⟨[(t.freshName id name).1], (hlookup id name).trans (if_pos ⟨rfl, rfl⟩), ?_, fun _ => rfl⟩
    have hsym : ∀ c, ((t.freshName id name).2.modifyScope id fun s =>
        { s with expected := Ascending.insertPair name (t.freshName id name).1 s.expected }).symbolsOf c =
        (t.freshName id name).2.symbolsOf c := by
      intro c
      rw [symbolsOf, view_modifyScope]
      · rfl
      · exact fun _ => rfl
    have hloc : ∀ c, ((t.freshName id name).2.modifyScope id fun s =>
        { s with expected := Ascending.insertPair name (t.freshName id name).1 s.expected }).localsOf c =
        (t.freshName id name).2.localsOf c := by
      intro c
      rw [localsOf, view_modifyScope]
      · rfl
      · exact fun _ => rfl
    refine ⟨hext, fun n => ?_, hg.nodup, hg.notMem, hg.notInner, (hloc id).trans hg.locals, by simp,
      fun c n hne => ?_, fun n x hx => ?_, fun c hc hne => ?_⟩
    · rw [hsym]
      exact hg.mem_symbols n
    · exact (hlookup c n).trans (if_neg fun h => hne h.1 (List.mem_singleton.2 h.2))
    · replace hx := (hlookup id n).symm.trans hx
      split at hx
      · exact .inr (by simpa using hx.symm)
      · exact .inl hx
    · obtain ⟨hs, hl⟩ := hg.frame c hc hne
      exact ⟨(hsym c).trans hs, (hloc c).trans hl⟩

theorem insertVariable_grown {l : Local} (hid : id < t.size) (hl : l.name ∈ t.symbolsOf id) :
    Grown id [] [] [l] t (t.insertVariable id l) := by
  obtain ⟨s, hs⟩ := exists_scope? hid
  have hown : l.name ∈ s.symbols := by rwa [symbolsOf, hs] at hl
  have hexp : ∀ c, (t.insertVariable id l).expectedOf c = t.expectedOf c := by
    intro c
    rw [insertVariable, expectedOf, view_modifyScope]
    · rfl
    · exact fun _ => rfl
  have hsym : ∀ n, n ∈ (t.insertVariable id l).symbolsOf id ↔ n ∈ t.symbolsOf id := by
    intro n
    rw [insertVariable, symbolsOf, list_modifyScope Scope.symbols hs, if_pos rfl, Ascending.mem_insert, symbolsOf, hs]
    exact ⟨fun hn => hn.elim (fun e => e ▸ hown) fun hn => hn, .inr⟩
  refine ⟨insertVariable_extends hs hown, fun n => ?_, .nil, by simp, by simp, ?_, ?_, fun c n _ => ?_,
    fun n x hx => .inl ?_, fun c _ hne => ⟨?_, ?_⟩⟩
  · rw [List.mem_nil_iff, or_false]
    exact hsym n
  · rw [insertVariable, localsOf, list_modifyScope Scope.locals hs, if_pos rfl, localsOf, hs]
    rfl
  · intro k hk
    rw [List.mem_singleton.1 hk]
    exact (hsym _).2 hl
  · rw [nameFor?, nameFor?, hexp]
  · rwa [nameFor?, hexp] at hx
  · rw [insertVariable, symbolsOf, list_modifyScope Scope.symbols hs, if_neg hne]
    rfl
  · rw [insertVariable, localsOf, list_modifyScope Scope.locals hs, if_neg hne]
    rfl

theorem newChild_grown (hid : id < t.size) (name : String) (kind : ScopeKind) :
    Grown id [] [] [] t (t.newChild id name kind).2 := by
  have hsym := symbolsOf_newChild t name kind hid
  have hloc := localsOf_newChild t name kind hid
  have hname : (t.newChild id name kind).2.nameFor? = t.nameFor? := by
    funext c n
    rw [nameFor?, nameFor?, expectedOf_newChild t name kind hid]
  exact ⟨newChild_extends hid name kind, by simp [hsym], .nil, by simp, by simp, by simp [hloc], by simp,
    fun c n _ => by rw [hname], fun n x hx => .inl (by rwa [← hname]), fun c _ _ => ⟨hsym c, hloc c⟩⟩

end Operations

end ScopeTree

namespace Alloc

open ScopeTree

variable {t t' : ScopeTree} {id c : Nat}

theorem bind_eq {α β : Type} {x : Alloc α} {f : α → Alloc β} {r : β × ScopeTree} (h : (x >>= f) t = r) :
    ∃ a t₁, x t = (a, t₁) ∧ f a t₁ = r :=
  ⟨(x t).1, (x t).2, rfl, h⟩

theorem bind_of_eq {α β : Type} {x : Alloc α} {a : α} {t₁ : ScopeTree} (h : x t = (a, t₁)) (f : α → Alloc β) :
    (x >>= f) t = f a t₁ := by
  show (match x t with | (a, t₁) => f a t₁) = f a t₁
  rw [h]

theorem freshName_grown {hint name : String} (hid : id < t.size) (h : freshName id hint t = (name, t')) :
    Grown id [] [name] [] t t' := by
  obtain ⟨rfl, rfl⟩ := Prod.mk.inj h
  exact ScopeTree.freshName_grown hid hint

theorem insertSymbol_grown {name actual : String} (hid : id < t.size) (h : insertSymbol id name t = (actual, t')) :
    ∃ fresh, t'.nameFor? id name = some actual ∧ Grown id [name] fresh [] t t' ∧
      (t.nameFor? id name = none → fresh = [actual]) := by
  obtain ⟨rfl, rfl⟩ := Prod.ext_iff.1 h
  exact ScopeTree.insertSymbol_grown hid name

theorem declare_grown {l : Local} (hid : id < t.size) (hl : l.name ∈ t.symbolsOf id)
    (h : declare id l t = ((), t')) : Grown id [] [] [l] t t' := by
  obtain ⟨-, rfl⟩ := Prod.mk.inj h
  exact insertVariable_grown hid hl

theorem freshNames_grown {α : Type} (hint : α → String) {xs : List α} {names : List String} (hid : id < t.size)
    (h : (xs.mapM fun x => freshName id (hint x)) t = (names, t')) :
    Grown id [] names [] t t' ∧ names.length = xs.length := by
  induction xs generalizing t names with
  | nil =>
    obtain ⟨rfl, rfl⟩ := Prod.mk.inj h
    exact ⟨.refl id t, rfl⟩
  | cons x xs ih =>
    rw [List.mapM_cons] at h
    obtain ⟨name, t₁, h₁, h⟩ := bind_eq h
    obtain ⟨rest, t₂, h₂, h⟩ := bind_eq h
    obtain ⟨rfl, rfl⟩ := Prod.mk.inj h
    have g₁ := freshName_grown hid h₁
    obtain ⟨g₂, hlen⟩ := ih (g₁.lt_size hid) h₂
    exact ⟨g₁.trans g₂, by simp [hlen]⟩

theorem series_grown {stem : String} {rank : Nat} {names : List String} (hid : id < t.size)
    (h : series id stem rank t = (names, t')) : Grown id [] names [] t t' ∧ names.length = rank := by
  simpa using freshNames_grown (fun i => stem ++ "_" ++ Nat.repr i) hid h

/-! ### Scopes inside a scope -/

theorem newChild_grown {name : String} {kind : ScopeKind} (hid : id < t.size)
    (h : newChild id name kind t = (c, t')) :
    Grown id [] [] [] t t' ∧ t.size ≤ c ∧ c < t'.size ∧ t'.parent? c = some id ∧ c ∈ t'.children id := by
  obtain ⟨rfl, rfl⟩ := Prod.mk.inj h
  refine ⟨ScopeTree.newChild_grown hid name kind, Nat.le_refl _, ?_, ?_, ?_⟩
  · exact (size_newChild t name kind id).symm ▸ Nat.lt_succ_self t.size
  · exact (parent?_newChild t name kind hid t.size).trans (if_pos rfl)
  · exact (mem_children_newChild t name kind hid id t.size).2 (.inr ⟨rfl, rfl⟩)

/-- A scope takes no name of the scope that it stands in. -/
theorem freshName_notMem_parent {hint name : String} (hp : t.parent? c = some id) (hne : c ≠ id)
    (h : freshName c hint t = (name, t')) : name ∉ t.symbolsOf id :=
  fun hn => freshName_notMem t c hint (congrArg Prod.fst h ▸ mem_visibleSymbols_of_parent hp hne hn)

end Alloc

end AbiBridge
