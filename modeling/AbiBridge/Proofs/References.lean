import Mathlib
import AbiBridge.Proofs.ClassMembers

/-!
# References inside a wrapped module

A wrapped module refers to its wrappers by name: it designates two of them for the start and the end, and its overload
sets and those of its classes list others. `Resolves` says that names stand for the functions that were wrapped, in
their order, each for a wrapper of the right origin. `wrapModule_linked` says that all references of a module resolve.

References are looked up among the outcomes of the functions before methods are divided into methods and properties.
What makes them resolve in the finished class is that the division loses no method (`perm_methods`) and that no other
accessor has the origin of a method.
-/

namespace AbiBridge

open Wrapper

/-! ### Names that resolve -/

/-- One of the wrappers has the origin. -/
def Wrapper.Origin.isWrapped (ws : List Wrapper.Function) (o : Origin) : Bool := ws.any (·.origin == o)

/-- The names are those of wrappers of the functions that were wrapped, in the order of the functions. -/
def Resolves (ws : List Wrapper.Function) (origin : String → Origin) (functions names : List String) : Prop :=
  List.Forall₂ (fun f name => ∃ w ∈ ws, w.origin = origin f ∧ w.name = name)
    (functions.filter fun f => (origin f).isWrapped ws) names

/-- The overload sets are those with a function that was wrapped; each lists the wrappers of these functions. -/
def InterfacesResolve (ws : List Wrapper.Function) (origin : String → Origin) (declared : List Semantic.Interface)
    (made : List Wrapper.Interface) : Prop :=
  List.Forall₂ (fun i w => w.name = i.name ∧ w.functions ≠ [] ∧ Resolves ws origin i.functions w.functions)
    (declared.filter fun i => i.functions.any fun f => (origin f).isWrapped ws) made

/-- The overload sets that a module exposes, on a target that has them. -/
def exposedInterfaces (target : Target) (m : Semantic.Module) : List Semantic.Interface :=
  if target.supportsInterfaces then m.interfaces.filter (!·.isInline) else []

/-- The wrappers that the overload sets of a class may list. -/
def Wrapper.Class.callables (c : Wrapper.Class) : List Wrapper.Function := c.methods ++ c.properties.map (·.getter)

/-- All references of the wrapped module resolve. -/
structure Linked (target : Target) (m : Semantic.Module) (w : Wrapper.Module) : Prop where
  initFunction : Resolves w.functions .function m.initFunction.toList w.initFunction.toList
  freeFunction : Resolves w.functions .function m.freeFunction.toList w.freeFunction.toList
  interfaces : InterfacesResolve w.functions .function (exposedInterfaces target m) w.interfaces
  classes : List.Forall₂ (fun c wc => InterfacesResolve wc.callables (fun f => .method (c.key f)) c.interfaces wc.interfaces)
    (exposedClasses target m) w.classes

theorem forall₂_filterMap {α β : Type} {R : α → β → Prop} {g : α → Option β} {p : α → Bool}
    (h : ∀ a, (g a = none ∧ p a = false) ∨ ∃ b, g a = some b ∧ p a = true ∧ R a b) (l : List α) :
    List.Forall₂ R (l.filter p) (l.filterMap g) := by
  induction l with
  | nil => exact .nil
  | cons a l ih =>
    rcases h a with ⟨hg, hp⟩ | ⟨b, hg, hp, hR⟩
    · rw [List.filter_cons_of_neg (by simp [hp]), List.filterMap_cons_none hg]
      exact ih
    · rw [List.filter_cons_of_pos hp, List.filterMap_cons_some hg]
      exact .cons hR ih

/-! ### Looking up the outcomes -/

/-- The wrappers hold those of the outcomes, and no other that has the origin of a function. -/
structure Covers (origin : String → Origin) (outcomes : List Outcome) (ws : List Wrapper.Function) : Prop where
  settled : ∀ o ∈ outcomes, o.Settled (origin o.function.name)
  injective : Function.Injective origin
  mem : ∀ w ∈ outcomes.filterMap (·.wrapper?), w ∈ ws
  of_mem : ∀ w ∈ ws, ∀ f, w.origin = origin f → w ∈ outcomes.filterMap (·.wrapper?)

namespace Covers

variable {origin : String → Origin} {outcomes : List Outcome} {ws : List Wrapper.Function}

theorem origin_eq (h : Covers origin outcomes ws) {o : Outcome} (ho : o ∈ outcomes) {w : Wrapper.Function}
    (hw : o.wrapper? = some w) : w.origin = origin o.function.name := by
  obtain ⟨f, wrapper⟩ := o
  cases h.settled _ ho with
  | wrapped fits made =>
    obtain rfl := Option.some.inj hw
    exact made
  | failed => cases hw

theorem wrapperName?_cases (h : Covers origin outcomes ws) (f : String) :
    (wrapperName? outcomes f = none ∧ (origin f).isWrapped ws = false) ∨
      ∃ name, wrapperName? outcomes f = some name ∧ (origin f).isWrapped ws = true ∧
        ∃ w ∈ ws, w.origin = origin f ∧ w.name = name := by
  unfold wrapperName?
  cases hfind : outcomes.reverse.find? fun o => o.function.name == f && o.wrapper?.isSome with
  | none =>
    refine .inl ⟨rfl, List.any_eq_false.2 fun w hw horigin => ?_⟩
    have horigin : w.origin = origin f := eq_of_beq horigin
    obtain ⟨o, ho, how⟩ := List.mem_filterMap.1 (h.of_mem w hw f horigin)
    have hname : o.function.name = f := h.injective ((h.origin_eq ho how).symm.trans horigin)
    have hnone := List.find?_eq_none.1 hfind o (List.mem_reverse.2 ho)
    simp [hname, how] at hnone
  | some o =>
    have ho : o ∈ outcomes := List.mem_reverse.1 (List.mem_of_find?_eq_some hfind)
    have hfound := List.find?_some hfind
    simp only [Bool.and_eq_true, beq_iff_eq] at hfound
    obtain ⟨rfl, hsome⟩ := hfound
    obtain ⟨w, how⟩ := Option.isSome_iff_exists.1 hsome
    have hw : w ∈ ws := h.mem w (List.mem_filterMap.2 ⟨o, ho, how⟩)
    have horigin := h.origin_eq ho how
    exact .inr ⟨w.name, by simp [how], List.any_eq_true.2 ⟨w, hw, by simp [horigin]⟩, w, hw, horigin, rfl⟩

theorem resolves (h : Covers origin outcomes ws) (functions : List String) :
    Resolves ws origin functions (functions.filterMap (wrapperName? outcomes)) :=
  forall₂_filterMap h.wrapperName?_cases functions

theorem restrictInterface_cases (h : Covers origin outcomes ws) (i : Semantic.Interface) :
    (restrictInterface outcomes i = none ∧ (i.functions.any fun f => (origin f).isWrapped ws) = false) ∨
      ∃ w, restrictInterface outcomes i = some w ∧ (i.functions.any fun f => (origin f).isWrapped ws) = true ∧
        w.name = i.name ∧ w.functions ≠ [] ∧ Resolves ws origin i.functions w.functions := by
  have hresolves := h.resolves i.functions
  have hnil : (i.functions.any fun f => (origin f).isWrapped ws) = false ↔
      i.functions.filterMap (wrapperName? outcomes) = [] := by
    rw [← List.length_eq_zero_iff, ← hresolves.length_eq, List.length_eq_zero_iff, List.filter_eq_nil_iff,
      List.any_eq_false]
  cases hnames : i.functions.filterMap (wrapperName? outcomes) with
  | nil => exact .inl ⟨by rw [restrictInterface, hnames], hnil.2 hnames⟩
  | cons name names =>
    rw [hnames] at hresolves
    refine .inr ⟨⟨i.name, name :: names⟩, by rw [restrictInterface, hnames], ?_, rfl, by simp, hresolves⟩
    rw [← Bool.not_eq_false, hnil, hnames]
    simp

theorem interfacesResolve (h : Covers origin outcomes ws) (declared : List Semantic.Interface) :
    InterfacesResolve ws origin declared (declared.filterMap (restrictInterface outcomes)) :=
  forall₂_filterMap h.restrictInterface_cases declared

end Covers

/-! ### Functions and classes -/

section Parts

variable {target : Target} {t t' : ScopeTree} {outcomes : List Outcome}

theorem mem_settled (origin : String → Origin) {fs : List Semantic.Function}
    (h : List.Forall₂ (fun f o => o.function = f ∧ o.Settled (origin f.name)) fs outcomes) :
    ∀ o ∈ outcomes, o.Settled (origin o.function.name) := by
  intro o ho
  obtain ⟨f, -, rfl, hsettled⟩ := exists_of_forall₂_right h ho
  exact hsettled

theorem wrapFunctions_covers {m : Semantic.Module} (h : wrapFunctions target m t = (outcomes, t')) :
    Covers .function outcomes (outcomes.filterMap (·.wrapper?)) where
  settled := mem_settled .function (outcomes_settled functionJob (fun _ => rfl) h)
  injective _ _ := Origin.function.inj
  mem _ hw := hw
  of_mem _ hw _ _ := hw

/-- The methods of a class are all among its methods and the getters of its properties. -/
theorem wrapMethods_covers {moduleName : String} {c : Semantic.Class} {taken : List String}
    {attributes : List Semantic.Attribute} {r : Reported (List Property)} {t₁ t₂ : ScopeTree}
    (h : wrapMethods target c t = (outcomes, t'))
    (hattributes : wrapAttributes target moduleName c taken attributes t₁ = (r, t₂)) :
    Covers (fun f => .method (c.key f)) outcomes
      (plainMethods outcomes ++ (outcomes.filterMap (methodProperty c) ++ r.value).map (·.getter)) := by
  have hsettled := outcomes_settled (methodJob c) (fun _ => rfl) h
  have hgetters : (outcomes.filterMap (methodProperty c)).map (·.getter) =
      (outcomes.filterMap (methodProperty c)).flatMap Property.functions := by
    rw [List.map_eq_flatMap]
    refine List.flatMap_congr fun p hp => ?_
    obtain ⟨f, -, hof⟩ := exists_of_forall₂_right (methodProperties_of_settled hsettled) hp
    rw [Property.functions, hof.setter]
    rfl
  have hperm := perm_methods c outcomes
  rw [← hgetters] at hperm
  refine ⟨mem_settled (fun f => .method (c.key f)) hsettled, fun f g hfg => ?_, fun w hw => ?_, fun w hw f horigin => ?_⟩
  · exact congrArg MemberKey.member (Origin.method.inj hfg)
  · rw [List.map_append, ← List.append_assoc]
    exact List.mem_append_left _ (hperm.mem_iff.1 hw)
  · rw [List.map_append, ← List.append_assoc] at hw
    rcases List.mem_append.1 hw with hw | hw
    · exact hperm.mem_iff.2 hw
    -- an accessor of an attribute has another origin
    · obtain ⟨p, hp, rfl⟩ := List.mem_map.1 hw
      obtain ⟨a, -, hof⟩ := exists_of_forall₂_right (wrapAttributes_accessors hattributes) hp
      cases hof.getter.symm.trans horigin

theorem wrapClass_interfacesResolve {moduleName : String} {c : Semantic.Class} {r : Reported Wrapper.Class}
    (h : wrapClass target moduleName c t = (r, t')) :
    InterfacesResolve r.value.callables (fun f => .method (c.key f)) c.interfaces r.value.interfaces := by
  obtain ⟨allocator, t₁, h₁, h⟩ := Alloc.bind_eq h
  obtain ⟨outcomes, t₂, h₂, h⟩ := Alloc.bind_eq h
  obtain ⟨attributes, t₃, h₃, h⟩ := Alloc.bind_eq h
  obtain ⟨rfl, rfl⟩ := Prod.mk.inj h
  exact (wrapMethods_covers h₂ h₃).interfacesResolve c.interfaces

end Parts

/-! ### Main statement -/

theorem wrapInterfaces_eq (target : Target) (m : Semantic.Module) (outcomes : List Outcome) :
    (wrapInterfaces target m outcomes).value =
      (exposedInterfaces target m).filterMap (restrictInterface outcomes) := by
  unfold wrapInterfaces exposedInterfaces
  split <;> rfl

theorem toList_bind {α β : Type} (o : Option α) (g : α → Option β) : (o.bind g).toList = o.toList.filterMap g := by
  cases o with
  | none => rfl
  | some a => cases h : g a <;> simp [h]

/-- Every reference of a wrapped module stands for a wrapper, and no function that was wrapped loses a reference. -/
theorem wrapModule_linked (target : Target) {m : Semantic.Module} (hname : isIdentifier m.name = true) :
    ∃ r, wrapModule target m = .ok r ∧ Linked target m r.value.module := by
  obtain ⟨r, hr⟩ := wrapModule_ok target hname
  have hclasses := wrapModule_classes hr
  obtain ⟨parts, hparts, hmodule⟩ := wrapModule_parts hr
  obtain ⟨outcomes, t₁, h₁, hparts⟩ := Alloc.bind_eq hparts
  obtain ⟨classes, t₂, h₂, hparts⟩ := Alloc.bind_eq hparts
  obtain ⟨globals, t₃, h₃, hparts⟩ := Alloc.bind_eq hparts
  obtain ⟨name, t₄, h₄, hparts⟩ := Alloc.bind_eq hparts
  cases hparts
  have hcovers := wrapFunctions_covers h₁
  refine ⟨r, hr, ?_⟩
  have hclasses : List.Forall₂ (fun c wc => InterfacesResolve wc.callables (fun f => .method (c.key f)) c.interfaces
      wc.interfaces) (exposedClasses target m) r.value.module.classes := by
    refine hclasses.imp fun c wc hc => ?_
    obtain ⟨t, one, t', hwrap, rfl⟩ := hc
    exact wrapClass_interfacesResolve hwrap
  rw [← hmodule] at hclasses ⊢
  refine ⟨?_, ?_, ?_, hclasses⟩
  · rw [toList_bind]
    exact hcovers.resolves _
  · rw [toList_bind]
    exact hcovers.resolves _
  · rw [wrapInterfaces_eq]
    exact hcovers.interfacesResolve _

/-- One overload cannot be wrapped, and methods of one overload set are divided into methods and properties. -/
def depot : Semantic.Module where
  name := "depot"
  functions := [
    { name := "open", arguments := [] }, { name := "fill", arguments := [{ name := "n", type := .scalar .int32 }] },
    { name := "fill_with", arguments := [{ name := "f", type := .functionRef }] }]
  interfaces := [
    { name := "fills", functions := ["fill_with", "fill"] }, { name := "with", functions := ["fill_with"] }]
  classes := [{ shelf with interfaces := [{ name := "reads", functions := ["size", "spare", "push"] }] }]
  initFunction := some "open"
  freeFunction := some "fill_with"

theorem wrapModule_linked_depot : isIdentifier depot.name = true ∧
    ∃ r, wrapModule .fortran depot = .ok r ∧ Linked .fortran depot r.value.module ∧
      r.value.module.initFunction = some "bind_c_open" ∧ r.value.module.freeFunction = none ∧
      r.value.module.interfaces.map (fun i => i.name :: i.functions) = [["fills", "bind_c_fill"]] ∧
      r.value.module.classes.flatMap (fun c => c.interfaces.map fun i => i.name :: i.functions) =
        [["reads", "bind_c_shelf_size", "bind_c_shelf_push"]] := by
  have hname : isIdentifier depot.name = true := by decide +kernel
  obtain ⟨r, hr, hlinked⟩ := wrapModule_linked .fortran hname
  have hrun : (wrapModule .fortran depot).toOption.map (fun r => (r.value.module.initFunction,
      r.value.module.freeFunction, r.value.module.interfaces.map (fun i => i.name :: i.functions),
      r.value.module.classes.flatMap fun c => c.interfaces.map fun i => i.name :: i.functions)) =
      some (some "bind_c_open", none, [["fills", "bind_c_fill"]],
        [["reads", "bind_c_shelf_size", "bind_c_shelf_push"]]) := by decide +kernel
  rw [hr] at hrun
  simp only [Except.toOption, Option.map_some, Option.some.injEq, Prod.mk.injEq] at hrun
  exact ⟨hname, r, hr, hlinked, hrun⟩

/-- An overload set that is inline, of a function that is not. -/
def inlineOverloads : Semantic.Module where
  name := "lib"
  functions := [{ name := "norm", arguments := [{ name := "x", type := .scalar .int32 }] }]
  interfaces := [{ name := "norms", functions := ["norm"], isInline := true }]

/-- A module leaves out an overload set that is inline, also where its functions are wrapped. -/
theorem inlineOverloads_left_out :
    (∃ i ∈ inlineOverloads.interfaces, i.functions = ["norm"]) ∧ Target.fortran.supportsInterfaces = true ∧
    ((wrapModule .fortran inlineOverloads).toOption.map fun r =>
      (r.value.module.functions.map (·.origin), r.value.module.interfaces.map (·.name))) =
      some ([.function "norm"], []) := by
  refine ⟨⟨_, List.mem_cons_self, rfl⟩, rfl, ?_⟩
  decide +kernel

end AbiBridge
