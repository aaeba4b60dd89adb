import Mathlib
import AbiBridge.Proofs.ClassMembers

/-!
# What the wrappers of a module stand for

`Module.origins` lists from the declarations alone what the wrappers of a module stand for, in their order, and
`wrapModule_origins` says that the list is right. What decides is where a function stands: a function of the module is
wrapped if it is public, not inline and runs on the host, a method of a class if it is public. So code that runs on the
device is exposed as a method and never as a function (`wrapModule_exposes`).
-/

namespace AbiBridge

open Wrapper

/-! ### The list of origins -/

namespace Semantic

/-- The allocator, the methods, the properties from methods and both accessors of each attribute that gets them. -/
def Class.origins (c : Class) : List Origin :=
  .allocator c.name :: (c.callableMethods.map (fun f => .method (c.key f.name)) ++
    (c.propertyMethods.map (fun f => .method (c.key f.name)) ++
      (accessed (c.propertyMethods.map (·.name)) (publicAttributes c)).flatMap fun a =>
        [.getter (c.key a.name), .setter (c.key a.name)]))

/-- The functions, the array variables and the classes of a module, as far as they are exposed. -/
def Module.origins (target : Target) (m : Module) : List Origin :=
  ((exposedFunctions m).filter (·.isWrappable)).map (fun f => .function f.name) ++
    ((publicVariables m).filter (·.type.isArray)).map (fun v => .variableAccessor v.name) ++
    (exposedClasses target m).flatMap Class.origins

end Semantic

/-! ### The origins of each part -/

section Parts

variable {target : Target} {moduleName : String} {t t' : ScopeTree}

theorem origins_of_methods {c : Semantic.Class} {fs : List Semantic.Function} {ps : List Property}
    (h : List.Forall₂ (fun f p => p.OfMethod (c.key f.name)) fs ps) :
    (ps.flatMap Property.functions).map (·.origin) = fs.map fun f => .method (c.key f.name) := by
  rw [List.map_flatMap, List.map_eq_flatMap]
  refine flatMap_eq_of_forall₂ (h.imp fun f p hp => ?_)
  rw [Property.functions, hp.setter, ← hp.getter]
  rfl

theorem origins_of_attributes {c : Semantic.Class} {as : List Semantic.Attribute} {ps : List Property}
    (h : List.Forall₂ (fun a p => p.OfAttribute (c.key a.name)) as ps) :
    (ps.flatMap Property.functions).map (·.origin) =
      as.flatMap fun a => [.getter (c.key a.name), .setter (c.key a.name)] := by
  rw [List.map_flatMap]
  refine flatMap_eq_of_forall₂ (h.imp fun a p hp => ?_)
  obtain ⟨setter, hsetter, horigin⟩ := hp.setter
  rw [Property.functions, hsetter, ← hp.getter, ← horigin]
  rfl

theorem wrapClass_origins {c : Semantic.Class} {r : Reported Wrapper.Class}
    (h : wrapClass target moduleName c t = (r, t')) : r.value.functions.map (·.origin) = c.origins := by
  obtain ⟨allocator, t₁, h₁, h⟩ := Alloc.bind_eq h
  obtain ⟨outcomes, t₂, h₂, h⟩ := Alloc.bind_eq h
  obtain ⟨attributes, t₃, h₃, h⟩ := Alloc.bind_eq h
  obtain ⟨rfl, rfl⟩ := Prod.mk.inj h
  have hallocator : allocator.origin = .allocator c.name := (congrArg (·.1.origin) h₁).symm
  have hsettled := outcomes_settled (methodJob c) (fun _ => rfl) h₂
  have hproperties : List.Forall₂ _ c.propertyMethods _ := methodProperties_of_settled hsettled
  have hnames : (outcomes.filterMap (methodProperty c)).map (·.key.member) = c.propertyMethods.map (·.name) :=
    forall₂_map_eq (hproperties.imp fun f p hp => congrArg MemberKey.member hp.key_eq)
  have haccessors := wrapAttributes_accessors h₃
  rw [hnames] at haccessors
  rw [Class.functions, List.map_cons, List.map_append, List.flatMap_append, List.map_append, hallocator,
    plainMethods_origins hsettled, origins_of_methods hproperties, origins_of_attributes haccessors]
  rfl

theorem wrapVariable_origin {v : Semantic.Variable} {o : Except WrapFailure Wrapper.Variable}
    (h : wrapVariable target v t = (o, t')) :
    (o.toOption.bind Variable.accessor?).map (·.origin) =
      if v.type.isArray then some (.variableAccessor v.name) else none := by
  unfold wrapVariable at h
  cases htype : v.type with
  | array =>
    rw [htype] at h
    obtain ⟨accessor, t₁, h₁, h⟩ := Alloc.bind_eq h
    cases h
    exact congrArg some (congrArg (·.1.origin) h₁).symm
  | _ =>
    rw [htype] at h
    cases h
    rfl

theorem wrapVariables_origins {vs : List Semantic.Variable} {r : Reported (List Wrapper.Variable)}
    (h : wrapVariables target moduleName vs t = (r, t')) :
    (r.value.filterMap Variable.accessor?).map (·.origin) =
      (vs.filter (·.type.isArray)).map fun v => .variableAccessor v.name := by
  induction vs generalizing t t' r with
  | nil =>
    obtain ⟨rfl, rfl⟩ := Prod.mk.inj h
    rfl
  | cons v vs ih =>
    obtain ⟨one, t₁, h₁, h⟩ := Alloc.bind_eq h
    obtain ⟨more, t₂, h₂, h⟩ := Alloc.bind_eq h
    have hmade : r.value.filterMap Variable.accessor? =
        (one.toOption.bind Variable.accessor?).toList ++ more.value.filterMap Variable.accessor? := by
      cases one with
      | error e =>
        obtain ⟨rfl, -⟩ := Prod.mk.inj h
        rfl
      | ok w =>
        obtain ⟨rfl, -⟩ := Prod.mk.inj h
        rw [List.filterMap_eq_flatMap_toList, List.flatMap_cons, ← List.filterMap_eq_flatMap_toList]
        rfl
    rw [hmade, List.map_append, ← Option.toList_map, wrapVariable_origin h₁, ih h₂, List.filter_cons]
    split <;> rfl

end Parts

/-! ### The module -/

theorem wrapModule_origins {target : Target} {m : Semantic.Module} {r : Reported WrappedModule}
    (h : wrapModule target m = .ok r) : r.value.module.allFunctions.map (·.origin) = m.origins target := by
  have hclasses := wrapModule_classes h
  obtain ⟨parts, hparts, hmodule⟩ := wrapModule_parts h
  obtain ⟨outcomes, t₁, h₁, hparts⟩ := Alloc.bind_eq hparts
  obtain ⟨classes, t₂, h₂, hparts⟩ := Alloc.bind_eq hparts
  obtain ⟨globals, t₃, h₃, hparts⟩ := Alloc.bind_eq hparts
  obtain ⟨name, t₄, h₄, hparts⟩ := Alloc.bind_eq hparts
  cases hparts
  have hmembers : (r.value.module.classes.flatMap Class.functions).map (·.origin) =
      (exposedClasses target m).flatMap Semantic.Class.origins := by
    rw [List.map_flatMap]
    refine flatMap_eq_of_forall₂ (hclasses.imp fun c wc hc => ?_)
    obtain ⟨t, one, t', hwrap, rfl⟩ := hc
    exact wrapClass_origins hwrap
  rw [Module.allFunctions, List.map_append, List.map_append, hmembers, ← hmodule, Module.variableAccessors,
    origins_of_settled (outcomes_settled functionJob (fun _ => rfl) h₁), wrapVariables_origins h₃]
  rfl

/-! ### Where device code is exposed -/

namespace Semantic

/-- A method is wrapped as a method or as a property. -/
theorem Class.method_mem_origins (c : Class) (key : MemberKey) :
    .method key ∈ c.origins ↔ ∃ f ∈ publicMethods c, f.isWrappable = true ∧ c.key f.name = key := by
  simp only [origins, callableMethods, propertyMethods, List.mem_cons, List.mem_append, List.mem_map, List.mem_filter,
    List.mem_flatMap, Bool.and_eq_true, bne_iff_ne, beq_iff_eq, Origin.method.injEq, reduceCtorEq, List.not_mem_nil,
    or_self, false_or, and_false, exists_false, or_false]
  constructor
  · rintro (⟨f, ⟨hf, hfits, -⟩, hkey⟩ | ⟨f, ⟨hf, hfits, -⟩, hkey⟩) <;> exact ⟨f, hf, hfits, hkey⟩
  · rintro ⟨f, hf, hfits, hkey⟩
    by_cases hrole : f.role = .property
    · exact .inr ⟨f, ⟨hf, hfits, hrole⟩, hkey⟩
    · exact .inl ⟨f, ⟨hf, hfits, hrole⟩, hkey⟩

theorem Module.method_mem_origins (target : Target) (m : Module) (key : MemberKey) :
    .method key ∈ m.origins target ↔ ∃ c ∈ exposedClasses target m, .method key ∈ c.origins := by
  simp [origins]

theorem Module.function_mem_origins (target : Target) (m : Module) (name : String) :
    .function name ∈ m.origins target ↔ ∃ f ∈ exposedFunctions m, f.isWrappable = true ∧ f.name = name := by
  have hclass : ∀ c : Class, .function name ∉ c.origins := by
    intro c
    simp [Class.origins]
  simp [origins, hclass, and_assoc]

end Semantic

/-- Host functions that are public and not inline are exposed, and public methods wherever they run, each if it can be
wrapped at all. -/
theorem wrapModule_exposes (target : Target) {m : Semantic.Module} (hname : isIdentifier m.name = true) :
    ∃ r, wrapModule target m = .ok r ∧
      (∀ name, (∃ w ∈ r.value.module.allFunctions, w.origin = .function name) ↔
        ∃ f ∈ m.functions, f.name = name ∧ f.kind = .host ∧ f.isInline = false ∧ f.isPrivate = false ∧
          f.isWrappable = true) ∧
      ∀ key, (∃ w ∈ r.value.module.allFunctions, w.origin = .method key) ↔
        target.supportsClasses = true ∧ ∃ c ∈ m.classes, ∃ f ∈ c.methods, c.key f.name = key ∧
          f.isPrivate = false ∧ f.isWrappable = true := by
  obtain ⟨r, hr⟩ := wrapModule_ok target hname
  have hmem : ∀ o, (∃ w ∈ r.value.module.allFunctions, w.origin = o) ↔ o ∈ m.origins target := by
    intro o
    rw [← wrapModule_origins hr, List.mem_map]
  refine ⟨r, hr, fun name => ?_, fun key => ?_⟩
  · rw [hmem, m.function_mem_origins]
    simp only [exposedFunctions, Semantic.Function.isHostCallable, List.mem_filter, Bool.and_eq_true, beq_iff_eq,
      Bool.not_eq_true']
    constructor
    · rintro ⟨f, ⟨hf, ⟨hkind, hinline⟩, hpublic⟩, hfits, hname⟩
      exact ⟨f, hf, hname, hkind, hinline, hpublic, hfits⟩
    · rintro ⟨f, hf, hname, hkind, hinline, hpublic, hfits⟩
      exact ⟨f, ⟨hf, ⟨hkind, hinline⟩, hpublic⟩, hfits, hname⟩
  · rw [hmem, m.method_mem_origins]
    simp only [Semantic.Class.method_mem_origins, publicMethods, List.mem_filter, Bool.not_eq_true']
    unfold exposedClasses
    constructor
    · rintro ⟨c, hc, f, ⟨hf, hpublic⟩, hfits, hkey⟩
      split at hc
      · exact ⟨‹_›, c, hc, f, hf, hkey, hpublic, hfits⟩
      · cases hc
    · rintro ⟨hclasses, c, hc, f, hf, hkey, hpublic, hfits⟩
      rw [if_pos hclasses]
      exact ⟨c, hc, f, ⟨hf, hpublic⟩, hfits, hkey⟩

/-- Code for the host and for the device, at the top and in a class. -/
def reactor : Semantic.Module where
  name := "reactor"
  functions := [
    { name := "run", arguments := [] }, { name := "diffuse", arguments := [], kind := .kernel },
    { name := "flux", arguments := [], kind := .device }, { name := "flux", arguments := [], isPrivate := true }]
  classes := [{
    name := "Tank"
    methods := [
      { name := "step", arguments := [{ name := "self", type := .object "Tank", bound := true }], kind := .kernel },
      { name := "level", arguments := [{ name := "self", type := .object "Tank", bound := true }], kind := .device,
        isPrivate := true }] }]

theorem wrapModule_exposes_reactor : isIdentifier reactor.name = true ∧
    ∃ r, wrapModule .fortran reactor = .ok r ∧
      (∃ w ∈ r.value.module.allFunctions, w.origin = .function "run") ∧
      (¬∃ w ∈ r.value.module.allFunctions, w.origin = .function "diffuse") ∧
      (¬∃ w ∈ r.value.module.allFunctions, w.origin = .function "flux") ∧
      (∃ w ∈ r.value.module.allFunctions, w.origin = .method ⟨"Tank", "step"⟩) ∧
      ¬∃ w ∈ r.value.module.allFunctions, w.origin = .method ⟨"Tank", "level"⟩ := by
  have hname : isIdentifier reactor.name = true := by decide +kernel
  obtain ⟨r, hr, hfunction, hmethod⟩ := wrapModule_exposes .fortran hname
  refine ⟨hname, r, hr, ?_⟩
  simp only [hfunction, hmethod]
  decide +kernel

/-- All code behind the wrapper of a method may be code that runs on the device. -/
theorem reactor_step_wrapped : (∀ c ∈ reactor.classes, ∀ f ∈ c.methods, f.isHostCallable = false) ∧
    ((wrapModule .fortran reactor).toOption.map fun r => r.value.module.allFunctions.map fun w => (w.name, w.origin)) =
      some [("bind_c_run", .function "run"), ("tank_bind_c_alloc", .allocator "Tank"),
        ("bind_c_tank_step", .method ⟨"Tank", "step"⟩)] := by
  decide +kernel

end AbiBridge
