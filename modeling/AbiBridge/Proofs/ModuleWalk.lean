import Mathlib
import AbiBridge.Wrap.Module
import AbiBridge.Proofs.Allocation

/-!
# The wrappers of a module in turn

A module is wrapped by making one wrapper after the other, all of them in one tree of scopes. `Made` says what
a wrapper was made for, `Series` that wrappers were made in turn, each from the tree that the one before left. The
walk over the parts of a module is done here once: `wrapParts_series` gives the series of all its wrappers, and
`wrapClasses_members` the series of the members of each class. What holds of every wrapper that is made, from any tree
that has a property which every step keeps, then holds of all wrappers of a module (`Series.exists_made`).
-/

namespace AbiBridge

open Wrapper

/-- A wrapper made for a member of a class, with the trees before and after. -/
inductive MemberMade (target : Target) (c : Semantic.Class) (t t' : ScopeTree) (w : Wrapper.Function) : Prop
  | method (m : Semantic.Function) (hm : m ∈ publicMethods c) (h : (methodJob c m).run target t = (.ok w, t'))
  | getter (a : Semantic.Attribute) (ha : a ∈ publicAttributes c) (delivery : Delivery)
    (hd : Delivery.of? a.type = some delivery) (h : wrapGetter target c a delivery t = (w, t'))
  | setter (a : Semantic.Attribute) (ha : a ∈ publicAttributes c) (passing : Passing)
    (hp : Passing.of? a.type false = some passing) (h : wrapSetter target c a passing t = (w, t'))

/-- A wrapper made for a part of a module, with the trees before and after. -/
inductive Made (target : Target) (m : Semantic.Module) (t t' : ScopeTree) (w : Wrapper.Function) : Prop
  | function (f : Semantic.Function) (hf : f ∈ exposedFunctions m) (h : (functionJob f).run target t = (.ok w, t'))
  | allocator (c : Semantic.Class) (hc : c ∈ m.classes) (h : wrapAllocator c t = (w, t'))
  | member (c : Semantic.Class) (hc : c ∈ m.classes) (h : MemberMade target c t t' w)
  | accessor (v : Semantic.Variable) (h : wrapAccessor target v t = (w, t'))

/-- Wrappers made in turn. -/
inductive Series (made : ScopeTree → ScopeTree → Wrapper.Function → Prop) :
    ScopeTree → ScopeTree → List Wrapper.Function → Prop
  | nil (t : ScopeTree) : Series made t t []
  | cons {t t₁ t' : ScopeTree} {w : Wrapper.Function} {ws : List Wrapper.Function} (h : made t t₁ w)
    (hs : Series made t₁ t' ws) : Series made t t' (w :: ws)

namespace Series

variable {made made' : ScopeTree → ScopeTree → Wrapper.Function → Prop} {t t' t'' : ScopeTree}
  {w : Wrapper.Function} {ws ws' : List Wrapper.Function}

theorem single (h : made t t' w) : Series made t t' [w] := .cons h (.nil t')

theorem append (h : Series made t t' ws) (h' : Series made t' t'' ws') : Series made t t'' (ws ++ ws') := by
  induction h with
  | nil t => exact h'
  | cons h _ ih => exact .cons h (ih h')

theorem imp (hmade : ∀ {t t' w}, made t t' w → made' t t' w) (h : Series made t t' ws) : Series made' t t' ws := by
  induction h with
  | nil t => exact .nil t
  | cons h _ ih => exact .cons (hmade h) ih

/-- Every wrapper of a series was made, from a tree that has the property. -/
theorem exists_made {P : ScopeTree → Prop} (hstep : ∀ {t t' w}, P t → made t t' w → P t')
    (h : Series made t t' ws) (ht : P t) (hw : w ∈ ws) : ∃ t₁ t₂, P t₁ ∧ made t₁ t₂ w := by
  induction h with
  | nil t => cases hw
  | cons h _ ih =>
    rcases List.mem_cons.1 hw with rfl | hw
    · exact ⟨_, _, ht, h⟩
    · exact ih (hstep ht h) hw

theorem of_mapM {α β : Type} {f : α → Alloc β} {wrappers : β → List Wrapper.Function} {xs : List α} {ys : List β}
    (hf : ∀ x ∈ xs, ∀ {t y t'}, f x t = (y, t') → Series made t t' (wrappers y)) (h : xs.mapM f t = (ys, t')) :
    Series made t t' (ys.flatMap wrappers) := by
  induction xs generalizing t ys with
  | nil =>
    obtain ⟨rfl, rfl⟩ := Prod.mk.inj h
    exact .nil t
  | cons x xs ih =>
    rw [List.mapM_cons] at h
    obtain ⟨y, t₁, h₁, h⟩ := Alloc.bind_eq h
    obtain ⟨rest, t₂, h₂, h⟩ := Alloc.bind_eq h
    obtain ⟨rfl, rfl⟩ := Prod.mk.inj h
    exact (hf x List.mem_cons_self h₁).append (ih (fun x hx => hf x (List.mem_cons_of_mem _ hx)) h₂)

end Series

section Walk

variable {target : Target} {t t' : ScopeTree}

/-! ### Functions and methods -/

theorem Job.run_error {job : Job} {e : WrapFailure} (h : job.run target t = (.error e, t')) : t' = t := by
  unfold Job.run at h
  cases hplan : CrossingPlan.of job.function with
  | error e' =>
    rw [hplan] at h
    exact (Prod.mk.inj h).2.symm
  | ok plan =>
    rw [hplan] at h
    cases h

theorem outcomes_series {made : ScopeTree → ScopeTree → Wrapper.Function → Prop} {job : Semantic.Function → Job}
    {functions : List Semantic.Function} {outcomes : List Outcome}
    (hmade : ∀ f ∈ functions, ∀ {t t' w}, (job f).run target t = (.ok w, t') → made t t' w)
    (h : (functions.mapM fun f => do return (⟨f, ← (job f).run target⟩ : Outcome)) t = (outcomes, t')) :
    Series made t t' (outcomes.filterMap (·.wrapper?)) := by
  rw [List.filterMap_eq_flatMap_toList]
  refine Series.of_mapM (fun f hf t o t' h => ?_) h
  obtain ⟨result, t₁, h₁, h⟩ := Alloc.bind_eq h
  obtain ⟨rfl, rfl⟩ := Prod.mk.inj h
  cases result with
  | error e =>
    obtain rfl := Job.run_error h₁
    exact .nil _
  | ok w => exact .single (hmade f hf h₁)

/-! ### Classes -/

theorem attributeForms_ok {c : Semantic.Class} {a : Semantic.Attribute} {delivery : Delivery} {passing : Passing}
    (h : attributeForms c a = .ok (delivery, passing)) :
    Delivery.of? a.type = some delivery ∧ Passing.of? a.type false = some passing := by
  unfold attributeForms at h
  split at h
  · cases h
  · split at h
    · cases h
    · split at h
      · cases h
      · cases h
        exact ⟨‹_›, ‹_›⟩

theorem wrapAttribute_ok {c : Semantic.Class} {a : Semantic.Attribute} {p : Property}
    (h : wrapAttribute target c a t = (.ok p, t')) :
    ∃ delivery passing t₁ setter, Delivery.of? a.type = some delivery ∧ Passing.of? a.type false = some passing ∧
      wrapGetter target c a delivery t = (p.getter, t₁) ∧ wrapSetter target c a passing t₁ = (setter, t') ∧
      p.setter = some setter := by
  unfold wrapAttribute at h
  cases hforms : attributeForms c a with
  | error e =>
    rw [hforms] at h
    cases h
  | ok forms =>
    rw [hforms] at h
    obtain ⟨getter, t₁, h₁, h⟩ := Alloc.bind_eq h
    obtain ⟨setter, t₂, h₂, h⟩ := Alloc.bind_eq h
    cases h
    obtain ⟨hd, hp⟩ := attributeForms_ok hforms
    exact ⟨forms.1, forms.2, t₁, setter, hd, hp, h₁, h₂, rfl⟩

theorem wrapAttribute_series {c : Semantic.Class} {a : Semantic.Attribute} (ha : a ∈ publicAttributes c)
    {o : Except WrapFailure Property} (h : wrapAttribute target c a t = (o, t')) :
    Series (MemberMade target c) t t' (o.toOption.toList.flatMap Property.functions) := by
  cases o with
  | error e =>
    unfold wrapAttribute at h
    cases hforms : attributeForms c a with
    | error e' =>
      rw [hforms] at h
      cases h
      exact .nil t
    | ok forms =>
      rw [hforms] at h
      cases h
  | ok p =>
    obtain ⟨delivery, passing, t₁, setter, hd, hp, h₁, h₂, hsetter⟩ := wrapAttribute_ok h
    have hfunctions : (Except.toOption (.ok p : Except WrapFailure Property)).toList.flatMap Property.functions =
        [p.getter, setter] := by simp [Except.toOption, Property.functions, hsetter]
    rw [hfunctions]
    exact .cons (.getter a ha delivery hd h₁) (.single (.setter a ha passing hp h₂))

theorem wrapAttributes_series {moduleName : String} {c : Semantic.Class} {taken : List String}
    {attributes : List Semantic.Attribute} (hpublic : attributes ⊆ publicAttributes c) {r : Reported (List Property)}
    (h : wrapAttributes target moduleName c taken attributes t = (r, t')) :
    Series (MemberMade target c) t t' (r.value.flatMap Property.functions) := by
  induction attributes generalizing taken t t' r with
  | nil =>
    obtain ⟨rfl, rfl⟩ := Prod.mk.inj h
    exact .nil t
  | cons a attributes ih =>
    obtain ⟨ha, hpublic⟩ := List.cons_subset.1 hpublic
    unfold wrapAttributes at h
    by_cases htaken : taken.contains a.name = true
    · rw [if_pos htaken] at h
      exact ih hpublic h
    rw [if_neg htaken] at h
    obtain ⟨o, t₁, h₁, h⟩ := Alloc.bind_eq h
    have hone := wrapAttribute_series ha h₁
    cases o with
    | error e =>
      obtain ⟨more, t₂, h₂, h⟩ := Alloc.bind_eq h
      have hall := hone.append (ih hpublic h₂)
      obtain ⟨rfl, rfl⟩ := Prod.mk.inj h
      exact hall
    | ok p =>
      obtain ⟨more, t₂, h₂, h⟩ := Alloc.bind_eq h
      have hall := hone.append (ih hpublic h₂)
      obtain ⟨rfl, rfl⟩ := Prod.mk.inj h
      rwa [← List.flatMap_append] at hall

theorem perm_methods (c : Semantic.Class) (outcomes : List Outcome) :
    (outcomes.filterMap (·.wrapper?)).Perm
      (plainMethods outcomes ++ (outcomes.filterMap (methodProperty c)).flatMap Property.functions) := by
  induction outcomes with
  | nil => exact .nil
  | cons o outcomes ih =>
    unfold plainMethods at ih ⊢
    cases hw : o.wrapper? with
    | none =>
      have hp : methodProperty c o = none := by simp [methodProperty, hw]
      rw [List.filterMap_cons_none hw, List.filterMap_cons_none hp]
      refine ih.trans (.append_right _ (.of_eq ?_))
      rw [List.filter_cons]
      split
      · rw [List.filterMap_cons_none hw]
      · rfl
    | some w =>
      rw [List.filterMap_cons_some hw]
      by_cases hrole : o.function.role = .property
      · have hp : methodProperty c o = some ⟨⟨c.name, o.function.name⟩, w, none, w.docstring⟩ := by
          simp [methodProperty, hw, hrole]
        rw [List.filter_cons_of_neg (by simp [hrole]), List.filterMap_cons_some hp, List.flatMap_cons]
        exact (ih.cons w).trans List.perm_middle.symm
      · have hp : methodProperty c o = none := by simp [methodProperty, hrole]
        rw [List.filter_cons_of_pos (by simp [hrole]), List.filterMap_cons_some hw, List.filterMap_cons_none hp]
        exact ih.cons w

/-- The wrappers of the methods and properties of a class. -/
def Wrapper.Class.members (c : Wrapper.Class) : List Wrapper.Function :=
  c.methods ++ c.properties.flatMap Property.functions

/-- The allocator of a class comes first, then its members. -/
theorem wrapClass_series {moduleName : String} {c : Semantic.Class} {r : Reported Wrapper.Class}
    (h : wrapClass target moduleName c t = (r, t')) :
    ∃ t₁ ws, wrapAllocator c t = (r.value.allocator, t₁) ∧ Series (MemberMade target c) t₁ t' ws ∧
      ws.Perm r.value.members := by
  obtain ⟨allocator, t₁, h₁, h⟩ := Alloc.bind_eq h
  obtain ⟨outcomes, t₂, h₂, h⟩ := Alloc.bind_eq h
  obtain ⟨attributes, t₃, h₃, h⟩ := Alloc.bind_eq h
  obtain ⟨rfl, rfl⟩ := Prod.mk.inj h
  have hmethods : Series (MemberMade target c) t₁ t₂ _ := outcomes_series (fun m hm _ _ _ h => .method m hm h) h₂
  refine ⟨t₁, _, h₁, hmethods.append (wrapAttributes_series (List.Subset.refl _) h₃), ?_⟩
  rw [Class.members, List.flatMap_append, ← List.append_assoc]
  exact (perm_methods c outcomes).append_right _

/-- The members of each class are made in turn. -/
def MembersMade (target : Target) (classes : List Semantic.Class) (wrapped : List Wrapper.Class) : Prop :=
  List.Forall₂ (fun c w => ∃ t t' ws, Series (MemberMade target c) t t' ws ∧ ws.Perm w.members) classes wrapped

theorem wrapClassList_series {made : ScopeTree → ScopeTree → Wrapper.Function → Prop} {moduleName : String}
    {classes : List Semantic.Class} {r : Reported (List Wrapper.Class)}
    (hallocator : ∀ c ∈ classes, ∀ {t t' w}, wrapAllocator c t = (w, t') → made t t' w)
    (hmember : ∀ c ∈ classes, ∀ {t t' w}, MemberMade target c t t' w → made t t' w)
    (h : wrapClassList target moduleName classes t = (r, t')) :
    (∃ ws, Series made t t' ws ∧ ws.Perm (r.value.flatMap Class.functions)) ∧
      MembersMade target classes r.value := by
  induction classes generalizing t r with
  | nil =>
    obtain ⟨rfl, rfl⟩ := Prod.mk.inj h
    exact ⟨⟨[], .nil t, .nil⟩, .nil⟩
  | cons c classes ih =>
    obtain ⟨one, t₁, h₁, h⟩ := Alloc.bind_eq h
    obtain ⟨more, t₂, h₂, h⟩ := Alloc.bind_eq h
    obtain ⟨rfl, rfl⟩ := Prod.mk.inj h
    obtain ⟨t₀, ws, halloc, hws, hperm⟩ := wrapClass_series h₁
    obtain ⟨⟨ws', hws', hperm'⟩, hmembers⟩ := ih (fun d hd => hallocator d (List.mem_cons_of_mem _ hd))
      (fun d hd => hmember d (List.mem_cons_of_mem _ hd)) h₂
    refine ⟨⟨one.value.allocator :: ws ++ ws', ?_, (hperm.cons _).append hperm'⟩,
      .cons ⟨t₀, t₁, ws, hws, hperm⟩ hmembers⟩
    exact (Series.cons (hallocator c List.mem_cons_self halloc) (hws.imp (hmember c List.mem_cons_self))).append hws'

/-! ### Variables -/

theorem wrapVariable_series {made : ScopeTree → ScopeTree → Wrapper.Function → Prop} {v : Semantic.Variable}
    {o : Except WrapFailure Wrapper.Variable} (hmade : ∀ {t t' w}, wrapAccessor target v t = (w, t') → made t t' w)
    (h : wrapVariable target v t = (o, t')) : Series made t t' (o.toOption.bind Variable.accessor?).toList := by
  unfold wrapVariable at h
  cases htype : v.type with
  | array =>
    rw [htype] at h
    obtain ⟨accessor, t₁, h₁, h⟩ := Alloc.bind_eq h
    obtain ⟨rfl, rfl⟩ := Prod.mk.inj h
    exact .single (hmade h₁)
  | _ =>
    rw [htype] at h
    obtain ⟨rfl, rfl⟩ := Prod.mk.inj h
    exact .nil t

theorem wrapVariables_series {made : ScopeTree → ScopeTree → Wrapper.Function → Prop} {moduleName : String}
    {vs : List Semantic.Variable} {r : Reported (List Wrapper.Variable)}
    (hmade : ∀ v, ∀ {t t' w}, wrapAccessor target v t = (w, t') → made t t' w)
    (h : wrapVariables target moduleName vs t = (r, t')) :
    Series made t t' (r.value.filterMap Variable.accessor?) := by
  induction vs generalizing t t' r with
  | nil =>
    obtain ⟨rfl, rfl⟩ := Prod.mk.inj h
    exact .nil t
  | cons v vs ih =>
    obtain ⟨one, t₁, h₁, h⟩ := Alloc.bind_eq h
    obtain ⟨more, t₂, h₂, h⟩ := Alloc.bind_eq h
    have hall := (wrapVariable_series (hmade v) h₁).append (ih h₂)
    cases one with
    | error e =>
      cases h
      exact hall
    | ok w =>
      cases h
      rwa [List.filterMap_eq_flatMap_toList, List.flatMap_cons, ← List.filterMap_eq_flatMap_toList]

/-! ### Modules -/

theorem wrapClasses_members {m : Semantic.Module} {r : Reported (List Wrapper.Class)}
    (h : wrapClasses target m t = (r, t')) :
    (∃ ws, Series (Made target m) t t' ws ∧ ws.Perm (r.value.flatMap Class.functions)) ∧
      (target.supportsClasses = true → MembersMade target m.classes r.value) := by
  unfold wrapClasses at h
  by_cases hclasses : target.supportsClasses = true
  · rw [if_pos hclasses] at h
    have hallocator : ∀ c ∈ m.classes, ∀ {t t' w}, wrapAllocator c t = (w, t') → Made target m t t' w :=
      fun c hc _ _ _ h => .allocator c hc h
    obtain ⟨hseries, hmembers⟩ := wrapClassList_series hallocator (fun c hc _ _ _ h => .member c hc h) h
    exact ⟨hseries, fun _ => hmembers⟩
  · rw [if_neg hclasses] at h
    obtain ⟨rfl, rfl⟩ := Prod.mk.inj h
    exact ⟨⟨[], .nil t, .nil⟩, fun h => absurd h hclasses⟩

/-- All wrappers of a module, in the order in which they are made; the name of the module is the last to be made. -/
theorem wrapParts_series {m : Semantic.Module} {r : Reported Wrapper.Module} (h : wrapParts target m t = (r, t')) :
    ∃ t₁ ws, Series (Made target m) t t₁ ws ∧ ws.Perm r.value.allFunctions ∧
      Alloc.freshName ScopeTree.root ("bind_c_" ++ m.name) t₁ = (r.value.name, t') ∧
      (target.supportsClasses = true → MembersMade target m.classes r.value.classes) := by
  obtain ⟨outcomes, t₁, h₁, h⟩ := Alloc.bind_eq h
  obtain ⟨classes, t₂, h₂, h⟩ := Alloc.bind_eq h
  obtain ⟨globals, t₃, h₃, h⟩ := Alloc.bind_eq h
  obtain ⟨name, t₄, h₄, h⟩ := Alloc.bind_eq h
  obtain ⟨rfl, rfl⟩ := Prod.mk.inj h
  have hfunctions : Series (Made target m) t t₁ _ := outcomes_series (fun f hf _ _ _ h => .function f hf h) h₁
  obtain ⟨⟨ws, hws, hperm⟩, hmembers⟩ := wrapClasses_members h₂
  have hvariables : Series (Made target m) t₂ t₃ _ := wrapVariables_series (fun v _ _ _ h => .accessor v h) h₃
  refine ⟨t₃, _, (hfunctions.append hws).append hvariables, ?_, h₄, hmembers⟩
  -- accessors are made after the classes and listed before them
  rw [List.append_assoc, Module.allFunctions, List.append_assoc]
  exact (List.perm_append_comm.trans (hperm.append_left _)).append_left _

end Walk

end AbiBridge
