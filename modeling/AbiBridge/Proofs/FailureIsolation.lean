import Mathlib
import AbiBridge.Proofs.Wrappable

/-!
# Failures stay where they are

`Module.withhold` makes everything private that cannot be wrapped. `wrapModule_withhold` compares the two runs: with
the failures withheld, the wrapper module and the scope tree are the same down to the last name, no function is listed
as removed, and of the reports those about single functions, attributes and variables are gone.

The runs are compared part by part. A failure leaves the scope tree as it is, so both runs are at the same tree after
each part, and what a part makes is read from the outcomes that hold a wrapper.
-/

namespace AbiBridge

open Wrapper

/-! ### Withholding what fails -/

namespace Semantic

def Function.withhold (fails : Bool) (f : Function) : Function := { f with isPrivate := f.isPrivate || fails }

def Attribute.withhold (a : Attribute) : Attribute := { a with isPrivate := a.isPrivate || !a.isWrappable }

def Variable.withhold (v : Variable) : Variable := { v with isPrivate := v.isPrivate || !v.isWrappable }

def Class.withhold (c : Class) : Class :=
  { c with
    methods := c.methods.map fun f => f.withhold (!f.isWrappable)
    attributes := c.attributes.map Attribute.withhold }

/-- The module with everything private that it would fail to expose. -/
def Module.withhold (m : Module) : Module :=
  { m with
    globals := m.globals.map Variable.withhold
    functions := m.functions.map fun f => f.withhold (f.isHostCallable && !f.isInline && !f.isWrappable)
    classes := m.classes.map Class.withhold }

theorem Module.usedSymbols_withhold (m : Module) : m.withhold.usedSymbols = m.usedSymbols := by
  have hglobals : m.withhold.globals.map (·.name) = m.globals.map (·.name) := List.map_map
  have hfunctions : m.withhold.functions.map (·.name) = m.functions.map (·.name) := List.map_map
  have hclasses : m.withhold.classes.map (·.name) = m.classes.map (·.name) := List.map_map
  unfold usedSymbols
  rw [hglobals, hfunctions, hclasses]
  rfl

end Semantic

/-- Hiding what does not fit, then taking what is shown, is taking what is shown and fits. -/
theorem filter_map_hide {α : Type} {hide : α → α} {shown fits : α → Bool}
    (hkeep : ∀ a, shown a = true → fits a = true → hide a = a)
    (hhide : ∀ a, (shown a = true → fits a = false) → shown (hide a) = false) (l : List α) :
    (l.map hide).filter shown = (l.filter shown).filter fits := by
  induction l with
  | nil => rfl
  | cons a l ih =>
    rw [List.map_cons]
    by_cases h : shown a = true ∧ fits a = true
    · rw [hkeep a h.1 h.2, List.filter_cons_of_pos h.1, List.filter_cons_of_pos h.1, List.filter_cons_of_pos h.2, ih]
    · have ha : shown a = true → fits a = false := fun hs => Bool.eq_false_iff.2 fun hf => h ⟨hs, hf⟩
      rw [List.filter_cons_of_neg (by simp [hhide a ha]), ih]
      by_cases hs : shown a = true
      · rw [List.filter_cons_of_pos hs, List.filter_cons_of_neg (by simp [ha hs])]
      · rw [List.filter_cons_of_neg hs]

theorem exposedFunctions_withhold (m : Semantic.Module) :
    exposedFunctions m.withhold = (exposedFunctions m).filter Semantic.Function.isWrappable := by
  refine filter_map_hide (fun f hs hf => ?_) (fun f h => ?_) m.functions
  · cases f
    simp_all [Semantic.Function.withhold]
  · by_cases hw : f.isWrappable = true <;> simp_all [Semantic.Function.withhold, Semantic.Function.isHostCallable]

theorem publicMethods_withhold (c : Semantic.Class) :
    publicMethods c.withhold = (publicMethods c).filter Semantic.Function.isWrappable := by
  refine filter_map_hide (fun f hs hf => ?_) (fun f h => ?_) c.methods
  · cases f
    simp_all [Semantic.Function.withhold]
  · by_cases hw : f.isWrappable = true <;> simp_all [Semantic.Function.withhold]

theorem publicAttributes_withhold (c : Semantic.Class) :
    publicAttributes c.withhold = (publicAttributes c).filter Semantic.Attribute.isWrappable := by
  refine filter_map_hide (fun a hs hf => ?_) (fun a h => ?_) c.attributes
  · cases a
    simp_all [Semantic.Attribute.withhold]
  · by_cases hw : a.isWrappable = true <;> simp_all [Semantic.Attribute.withhold]

theorem publicVariables_withhold (m : Semantic.Module) :
    publicVariables m.withhold = (publicVariables m).filter Semantic.Variable.isWrappable := by
  refine filter_map_hide (fun v hs hf => ?_) (fun v h => ?_) m.globals
  · cases v
    simp_all [Semantic.Variable.withhold]
  · by_cases hw : v.isWrappable = true <;> simp_all [Semantic.Variable.withhold]

/-! ### Reports -/

/-- The diagnostic is about a function, method, attribute or variable and not about a whole module. -/
def Diagnostic.isOfUnit (d : Diagnostic) : Bool := d.location.symbol.isSome

/-- The same result, with the reports about single units left out. -/
def Reported.withoutUnits {α : Type} (r : Reported α) : Reported α := ⟨r.value, r.reports.filter (!·.isOfUnit)⟩

theorem reportAt_filter {moduleName symbol : String} {span : Semantic.Span} {e : WrapFailure} (ds : List Diagnostic) :
    (reportAt moduleName (some symbol) span e :: ds).filter (!·.isOfUnit) = ds.filter (!·.isOfUnit) :=
  List.filter_cons_of_neg (by simp [Diagnostic.isOfUnit, reportAt, WrapFailure.diagnostic, Diagnostic.make])

theorem reportOutcomes_filter (moduleName : String) (symbol : Semantic.Function → String) (outcomes : List Outcome) :
    (reportOutcomes moduleName symbol outcomes).filter (!·.isOfUnit) = [] := by
  refine List.filter_eq_nil_iff.2 fun d hd => ?_
  obtain ⟨o, -, ho⟩ := List.mem_filterMap.1 hd
  obtain ⟨e, -, rfl⟩ := Option.map_eq_some_iff.1 ho
  simp [Diagnostic.isOfUnit, reportAt, WrapFailure.diagnostic, Diagnostic.make]

theorem sectionReport_filter (target : Target) (m : Semantic.Module) (feature : Feature) (isEmpty : Bool) :
    (sectionReport target m feature isEmpty).filter (!·.isOfUnit) = sectionReport target m feature isEmpty := by
  cases isEmpty <;> rfl

/-! ### What is read from the outcomes -/

section Outcomes

variable (outcomes : List Outcome)

theorem Outcome.isWrapped_or (o : Outcome) : o.isWrapped = true ∨ o.wrapper? = none := by
  unfold Outcome.isWrapped
  cases o.wrapper? with
  | none => exact .inr rfl
  | some _ => exact .inl rfl

theorem filterMap_isWrapped {α : Type} {f : Outcome → Option α} (hf : ∀ o, o.wrapper? = none → f o = none) :
    (outcomes.filter Outcome.isWrapped).filterMap f = outcomes.filterMap f := by
  rw [List.filterMap_filter]
  congr 1
  funext o
  rcases o.isWrapped_or with h | h
  · rw [if_pos h]
  · rw [hf o h, ite_self]

theorem wrapperName?_isWrapped : wrapperName? (outcomes.filter Outcome.isWrapped) = wrapperName? outcomes := by
  funext name
  unfold wrapperName?
  rw [← List.filter_reverse, List.find?_filter]
  congr 2
  funext o
  show decide (o.isWrapped = true ∧ (o.function.name == name && o.isWrapped) = true) =
    (o.function.name == name && o.isWrapped)
  refine Bool.eq_iff_iff.2 ⟨fun h => (of_decide_eq_true h).2, fun h => decide_eq_true ⟨?_, h⟩⟩
  exact (Bool.and_eq_true_iff.1 h).2

theorem restrictInterface_isWrapped :
    restrictInterface (outcomes.filter Outcome.isWrapped) = restrictInterface outcomes := by
  funext i
  unfold restrictInterface
  rw [wrapperName?_isWrapped]

theorem plainMethods_isWrapped : plainMethods (outcomes.filter Outcome.isWrapped) = plainMethods outcomes := by
  unfold plainMethods
  rw [List.filter_comm, filterMap_isWrapped _ fun _ h => h]

theorem methodProperty_isWrapped (c : Semantic.Class) :
    (outcomes.filter Outcome.isWrapped).filterMap (methodProperty c) = outcomes.filterMap (methodProperty c) := by
  refine filterMap_isWrapped outcomes fun o ho => ?_
  unfold methodProperty
  rw [ho]
  exact ite_self none

theorem failure?_of_isWrapped {o : Outcome} (h : o ∈ outcomes.filter Outcome.isWrapped) : o.failure? = none := by
  obtain ⟨f, w⟩ := o
  cases w with
  | ok => rfl
  | error e => cases (List.mem_filter.1 h).2

theorem reportOutcomes_isWrapped (moduleName : String) (symbol : Semantic.Function → String) :
    reportOutcomes moduleName symbol (outcomes.filter Outcome.isWrapped) = [] := by
  refine List.filterMap_eq_nil_iff.2 fun o ho => ?_
  rw [failure?_of_isWrapped outcomes ho, Option.map_none]

theorem removed_isWrapped :
    ((outcomes.filter Outcome.isWrapped).filter (·.failure?.isSome)).map (·.function.name) = [] := by
  rw [List.map_eq_nil_iff, List.filter_eq_nil_iff]
  intro o ho
  simp [failure?_of_isWrapped outcomes ho]

end Outcomes

/-! ### The two runs -/

section Runs

variable {target : Target} {moduleName : String} {c : Semantic.Class} {m : Semantic.Module} {t t' : ScopeTree}

theorem wrapFunctions_withhold {outcomes : List Outcome} (h : wrapFunctions target m t = (outcomes, t')) :
    wrapFunctions target m.withhold t = (outcomes.filter Outcome.isWrapped, t') := by
  unfold wrapFunctions
  rw [exposedFunctions_withhold]
  exact outcomes_filter functionJob (fun _ => rfl) h

theorem wrapMethods_withhold {outcomes : List Outcome} (h : wrapMethods target c t = (outcomes, t')) :
    wrapMethods target c.withhold t = (outcomes.filter Outcome.isWrapped, t') := by
  unfold wrapMethods
  rw [publicMethods_withhold]
  -- the job of a method looks at the name and the overload sets of the class only
  exact outcomes_filter (methodJob c) (fun _ => rfl) h

theorem wrapAttributes_withhold {attributes : List Semantic.Attribute} {taken : List String}
    {r : Reported (List Property)} (h : wrapAttributes target moduleName c taken attributes t = (r, t')) :
    wrapAttributes target moduleName c.withhold taken (attributes.filter Semantic.Attribute.isWrappable) t =
      (r.withoutUnits, t') := by
  induction attributes generalizing taken t r with
  | nil =>
    obtain ⟨rfl, rfl⟩ := Prod.mk.inj h
    rfl
  | cons a rest ih =>
    unfold wrapAttributes at h
    by_cases htaken : taken.contains a.name = true
    · rw [if_pos htaken] at h
      cases ha : a.isWrappable with
      | false =>
        rw [List.filter_cons_of_neg (by simp [ha])]
        exact ih h
      | true =>
        rw [List.filter_cons_of_pos ha]
        unfold wrapAttributes
        rw [if_pos htaken]
        exact ih h
    · rw [if_neg htaken] at h
      obtain ⟨made, t₁, h₁, h₂⟩ := Alloc.bind_eq h
      rcases wrapAttribute_cases target c a t with ⟨ha, p, t₂, hrun, -⟩ | ⟨ha, e, hrun, -⟩ <;>
        obtain ⟨rfl, rfl⟩ := Prod.mk.inj (h₁.symm.trans hrun) <;>
        obtain ⟨more, t₃, h₃, h₄⟩ := Alloc.bind_eq h₂ <;>
        obtain ⟨rfl, rfl⟩ := Prod.mk.inj h₄
      · rw [List.filter_cons_of_pos ha]
        unfold wrapAttributes
        have hrun' : wrapAttribute target c.withhold a t = (.ok p, t₁) := hrun
        rw [if_neg htaken, Alloc.bind_of_eq hrun']
        simp only
        rw [Alloc.bind_of_eq (ih h₃)]
        rfl
      · rw [List.filter_cons_of_neg (by simp [ha]), ih h₃, Reported.withoutUnits, Reported.withoutUnits,
          reportAt_filter]

theorem wrapClass_withhold {r : Reported Wrapper.Class} (h : wrapClass target moduleName c t = (r, t')) :
    wrapClass target moduleName c.withhold t = (r.withoutUnits, t') := by
  obtain ⟨allocator, t₁, h₁, h⟩ := Alloc.bind_eq h
  obtain ⟨outcomes, t₂, h₂, h⟩ := Alloc.bind_eq h
  obtain ⟨attributes, t₃, h₃, h⟩ := Alloc.bind_eq h
  obtain ⟨rfl, rfl⟩ := Prod.mk.inj h
  have h₁' : wrapAllocator c.withhold t = (allocator, t₁) := h₁
  have hproperties : (outcomes.filter Outcome.isWrapped).filterMap (methodProperty c.withhold) =
      outcomes.filterMap (methodProperty c) := methodProperty_isWrapped outcomes c
  have h₃' := wrapAttributes_withhold h₃
  rw [← publicAttributes_withhold, ← hproperties] at h₃'
  refine (Alloc.bind_of_eq h₁' _).trans ((Alloc.bind_of_eq (wrapMethods_withhold h₂) _).trans ?_)
  refine (Alloc.bind_of_eq h₃' _).trans ?_
  rw [hproperties, plainMethods_isWrapped, restrictInterface_isWrapped, reportOutcomes_isWrapped]
  simp only [Reported.withoutUnits, List.filter_append, reportOutcomes_filter]
  rfl

theorem wrapClassList_withhold {classes : List Semantic.Class} {r : Reported (List Wrapper.Class)}
    (h : wrapClassList target moduleName classes t = (r, t')) :
    wrapClassList target moduleName (classes.map Semantic.Class.withhold) t = (r.withoutUnits, t') := by
  induction classes generalizing t r with
  | nil =>
    obtain ⟨rfl, rfl⟩ := Prod.mk.inj h
    rfl
  | cons c rest ih =>
    obtain ⟨one, t₁, h₁, h⟩ := Alloc.bind_eq h
    obtain ⟨more, t₂, h₂, h⟩ := Alloc.bind_eq h
    obtain ⟨rfl, rfl⟩ := Prod.mk.inj h
    refine (Alloc.bind_of_eq (wrapClass_withhold h₁) _).trans ((Alloc.bind_of_eq (ih h₂) _).trans ?_)
    unfold Reported.withoutUnits
    rw [List.filter_append]
    rfl

theorem wrapClasses_withhold {r : Reported (List Wrapper.Class)} (h : wrapClasses target m t = (r, t')) :
    wrapClasses target m.withhold t = (r.withoutUnits, t') := by
  unfold wrapClasses at h ⊢
  by_cases hclasses : target.supportsClasses = true
  · rw [if_pos hclasses] at h ⊢
    exact wrapClassList_withhold h
  · rw [if_neg hclasses] at h ⊢
    obtain ⟨rfl, rfl⟩ := Prod.mk.inj h
    have hempty : m.withhold.classes.isEmpty = m.classes.isEmpty := List.isEmpty_map
    rw [hempty, Reported.withoutUnits, sectionReport_filter]
    rfl

theorem wrapInterfaces_withhold (outcomes : List Outcome) :
    wrapInterfaces target m.withhold (outcomes.filter Outcome.isWrapped) =
      (wrapInterfaces target m outcomes).withoutUnits := by
  unfold wrapInterfaces
  rw [restrictInterface_isWrapped]
  by_cases hinterfaces : target.supportsInterfaces = true
  · rw [if_pos hinterfaces, if_pos hinterfaces]
    rfl
  · rw [if_neg hinterfaces, if_neg hinterfaces, Reported.withoutUnits, sectionReport_filter]
    rfl

theorem wrapVariables_withhold {vs : List Semantic.Variable} {r : Reported (List Wrapper.Variable)}
    (h : wrapVariables target moduleName vs t = (r, t')) :
    wrapVariables target moduleName (vs.filter Semantic.Variable.isWrappable) t = (r.withoutUnits, t') := by
  induction vs generalizing t r with
  | nil =>
    obtain ⟨rfl, rfl⟩ := Prod.mk.inj h
    rfl
  | cons v rest ih =>
    obtain ⟨one, t₁, h₁, h₂⟩ := Alloc.bind_eq h
    obtain ⟨more, t₃, h₃, h₄⟩ := Alloc.bind_eq h₂
    rcases wrapVariable_cases target v t with ⟨hv, w, t₂, hrun⟩ | ⟨hv, e, hrun, -⟩ <;>
      obtain ⟨rfl, rfl⟩ := Prod.mk.inj (h₁.symm.trans hrun) <;>
      obtain ⟨rfl, rfl⟩ := Prod.mk.inj h₄
    · rw [List.filter_cons_of_pos hv]
      refine (Alloc.bind_of_eq hrun _).trans ((Alloc.bind_of_eq (ih h₃) _).trans ?_)
      rfl
    · rw [List.filter_cons_of_neg (by simp [hv]), ih h₃, Reported.withoutUnits, Reported.withoutUnits, reportAt_filter]

theorem wrapParts_withhold {r : Reported Wrapper.Module} (h : wrapParts target m t = (r, t')) :
    wrapParts target m.withhold t =
      (⟨{ r.value with removedFunctions := [] }, r.withoutUnits.reports⟩, t') := by
  obtain ⟨outcomes, t₁, h₁, h⟩ := Alloc.bind_eq h
  obtain ⟨classes, t₂, h₂, h⟩ := Alloc.bind_eq h
  obtain ⟨globals, t₃, h₃, h⟩ := Alloc.bind_eq h
  obtain ⟨name, t₄, h₄, h⟩ := Alloc.bind_eq h
  obtain ⟨rfl, rfl⟩ := Prod.mk.inj h
  have h₃' := wrapVariables_withhold h₃
  rw [← publicVariables_withhold] at h₃'
  have h₄' : Alloc.freshName ScopeTree.root ("bind_c_" ++ m.withhold.name) t₃ = (name, t₄) := h₄
  refine (Alloc.bind_of_eq (wrapFunctions_withhold h₁) _).trans ?_
  refine (Alloc.bind_of_eq (wrapClasses_withhold h₂) _).trans ?_
  refine (Alloc.bind_of_eq h₃' _).trans ((Alloc.bind_of_eq h₄' _).trans ?_)
  rw [wrapInterfaces_withhold, filterMap_isWrapped outcomes fun _ h => h, wrapperName?_isWrapped, removed_isWrapped,
    reportOutcomes_isWrapped]
  simp only [Reported.withoutUnits, List.filter_append, reportOutcomes_filter]
  rfl

end Runs

/-- To make private what cannot be wrapped changes nothing of the wrapped module and its scopes but the list of removed
functions, which is empty then, and takes away exactly the reports about single units. -/
theorem wrapModule_withhold (target : Target) (m : Semantic.Module) (hname : isIdentifier m.name = true) :
    ∃ made, wrapModule target m = .ok made ∧
      wrapModule target m.withhold =
        .ok ⟨⟨{ made.value.module with removedFunctions := [] }, made.value.scopes⟩,
          made.reports.filter (!·.isOfUnit)⟩ := by
  obtain ⟨r, t', hrun⟩ : ∃ r t', wrapParts target m (.new target m.name m.usedSymbols) = (r, t') := ⟨_, _, rfl⟩
  have hrun' := wrapParts_withhold hrun
  rw [← m.usedSymbols_withhold] at hrun'
  refine ⟨⟨⟨r.value, t'⟩, r.reports⟩, wrapModule_of_parts hname hrun, ?_⟩
  exact wrapModule_of_parts (m := m.withhold) hname hrun'

/-- Six failures are reported on the one target, and none once they are withheld; the other target lacks two sections,
and says so either way. -/
theorem wrapModule_withhold_patchy : isIdentifier patchyModule.name = true ∧
    (∃ made, wrapModule .fortran patchyModule = .ok made ∧
      wrapModule .fortran patchyModule.withhold =
        .ok ⟨⟨{ made.value.module with removedFunctions := [] }, made.value.scopes⟩,
          made.reports.filter (!·.isOfUnit)⟩ ∧
      made.value.module.removedFunctions = ["visit", "split"] ∧
      made.reports.length = 6 ∧ (made.reports.filter (!·.isOfUnit)).length = 0) ∧
    ∃ made, wrapModule .cuda patchyModule = .ok made ∧
      wrapModule .cuda patchyModule.withhold =
        .ok ⟨⟨{ made.value.module with removedFunctions := [] }, made.value.scopes⟩,
          made.reports.filter (!·.isOfUnit)⟩ ∧
      made.value.module.removedFunctions = ["visit", "split"] ∧
      made.reports.length = 5 ∧ (made.reports.filter (!·.isOfUnit)).length = 2 := by
  have hname : isIdentifier patchyModule.name = true := by decide +kernel
  have hfortran : (wrapModule .fortran patchyModule).toOption.map (fun r => (r.value.module.removedFunctions,
      r.reports.length, (r.reports.filter (!·.isOfUnit)).length)) = some (["visit", "split"], 6, 0) := by decide +kernel
  have hcuda : (wrapModule .cuda patchyModule).toOption.map (fun r => (r.value.module.removedFunctions,
      r.reports.length, (r.reports.filter (!·.isOfUnit)).length)) = some (["visit", "split"], 5, 2) := by decide +kernel
  obtain ⟨r, hr, hr'⟩ := wrapModule_withhold .fortran patchyModule hname
  obtain ⟨s, hs, hs'⟩ := wrapModule_withhold .cuda patchyModule hname
  rw [hr] at hfortran
  rw [hs] at hcuda
  simp only [Except.toOption, Option.map_some, Option.some.injEq, Prod.mk.injEq] at hfortran hcuda
  exact ⟨hname, ⟨r, hr, hr', hfortran⟩, s, hs, hs', hcuda⟩

end AbiBridge
