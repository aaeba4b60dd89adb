import Mathlib
import AbiBridge.Proofs.ArgumentCrossing
import AbiBridge.Proofs.Assembly

/-!
# Names of parameters

The parameters of a wrapper are called by the names of its arguments and results. `wrapModule_params_apart` says which
of them denote one name: a scalar argument and a scalar result of one declared name, where the result is one of
several and so an output parameter. All others differ. A function that changes a scalar in place and returns another
value besides is the case where this happens (`wrapModule_params_bump`).
-/

namespace AbiBridge

open Wrapper ScopeTree

/-- The two parameters are those of a scalar argument and a scalar result of one declared name. -/
def Wrapper.Function.Shared (w : Wrapper.Function) (p q : Parameter) : Prop :=
  ∃ a ∈ w.arguments, ∃ r ∈ w.results, a.abi = .direct ∧ r.abi = .direct ∧ a.declared.name = r.declared.name ∧
    p ∈ a.params ∧ q ∈ r.outputs

theorem Wrapper.Function.params_sublist (w : Wrapper.Function) :
    w.signature.params.Sublist (w.arguments.flatMap Argument.params ++ w.results.flatMap Result.outputs) := by
  unfold signature
  split
  · rename_i hresults
    simp [hresults]
  · rename_i r hresults
    rw [hresults, List.flatMap_singleton]
    exact (List.Sublist.refl _).append (List.sublist_cons_self _ _)
  · exact .refl _

namespace Wrapper.Function.Shared

variable {w : Wrapper.Function} {p q : Parameter}

theorem input (h : w.Shared p q) : p.direction = .input := by
  obtain ⟨a, -, r, -, -, -, -, hp, -⟩ := h
  exact Argument.direction_of_mem hp

theorem output (h : w.Shared p q) : q.direction = .output := by
  obtain ⟨a, -, r, -, -, -, -, -, hq⟩ := h
  exact Result.direction_of_mem hq

end Wrapper.Function.Shared

/-! ### The parameters of one part -/

theorem Wrapper.Argument.name_of_direct {a : Argument} {p : Parameter} (habi : a.abi = .direct) (hp : p ∈ a.params) :
    p.name = a.native.name := by
  rw [Argument.params, habi] at hp
  rw [List.mem_singleton.1 hp]
  rfl

theorem Wrapper.Result.name_of_direct {r : Result} {p : Parameter} (habi : r.abi = .direct) (hp : p ∈ r.outputs) :
    p.name = r.native.name := by
  rw [Result.outputs, Result.slot, Result.shapeParams, habi] at hp
  rw [List.mem_singleton.1 hp]
  rfl

/-- Only an argument passed by value has its native local as a parameter. -/
theorem MarshalledArgument.mem_companions {m : MarshalledArgument} {p : Parameter} (habi : m.argument.abi ≠ .direct)
    (hp : p ∈ m.argument.params) : p.name ∈ m.companions := by
  unfold companions
  unfold Argument.params at hp
  cases hm : m.argument.abi with
  | direct => exact absurd hm habi
  | pointer ptr shape strides =>
    rw [hm] at hp
    rcases List.mem_cons.1 hp with rfl | hp
    · exact List.mem_cons_self
    · obtain ⟨n, hn, rfl⟩ := List.mem_map.1 hp
      exact List.mem_cons_of_mem _ (List.mem_append_left _ hn)

section Results

variable {target : Target} {r : Semantic.Result} {source : ResultSource} {delivery : Delivery} {d : MarshalledResult}
  {ns : ResultNames}

theorem Delivered.outputNames_sublist (h : Delivered target r source delivery d ns) :
    d.result.abi = .direct ∧ d.result.outputs.map (·.name) = [d.result.native.name] ∨
      (d.result.outputs.map (·.name)).Sublist ns.companions := by
  cases h with
  | direct value => exact .inl ⟨rfl, rfl⟩
  | kept value ptr shape =>
    rw [Result.names_outputs rfl]
    exact .inr (.refl _)
  | whole n =>
    rw [Result.names_outputs rfl]
    exact .inr ((List.sublist_append_left _ _).cons_cons _)
  | filled n isSet counter element =>
    rw [Result.names_outputs rfl]
    exact .inr (((List.sublist_append_left _ _).cons_cons _).trans (List.sublist_append_left _ _))

theorem Delivered.mem_companions (h : Delivered target r source delivery d ns) {p : Parameter}
    (habi : d.result.abi ≠ .direct) (hp : p ∈ d.result.outputs) : p.name ∈ ns.companions := by
  rcases h.outputNames_sublist with ⟨hdirect, -⟩ | hsub
  · exact absurd hdirect habi
  · exact hsub.subset (List.mem_map_of_mem hp)

theorem Delivered.outputNames_sublist_resultNames (h : Delivered target r source delivery d ns) :
    (d.result.outputs.map (·.name)).Sublist (Assembly.resultNames (d, ns)) := by
  rcases h.outputNames_sublist with ⟨-, heq⟩ | hsub
  · rw [heq]
    exact (List.nil_sublist _).cons_cons _
  · exact hsub.cons _

end Results

/-! ### The parameters of a wrapper -/

theorem ScopeTree.Tidy.pairwise_iff {used : List String} {t : ScopeTree} {id : ScopeId} (ht : t.Tidy used)
    (hid : id ≠ root) {ps : List Parameter} {R : Parameter → Parameter → Prop} (hnd : (ps.map (·.name)).Nodup)
    (hmem : ∀ p ∈ ps, p.name ∈ t.symbolsOf id) (hR : ∀ p ∈ ps, ∀ q ∈ ps, ¬ R p q) :
    ps.Pairwise fun p q => t.target.sameName p.name q.name = true ↔ R p q := by
  rw [List.Nodup, List.pairwise_map] at hnd
  refine hnd.imp_of_mem fun {p q} hp hq hne => ?_
  rw [ht.sameName_iff_eq hid (hmem p hp) (hmem q hq)]
  exact iff_of_false hne (hR p hp q hq)

theorem Assembly.params_apart {target : Target} {used : List String} {t t' : ScopeTree} {w : Wrapper.Function}
    {arguments : List MarshalledArgument} {made : List (MarshalledResult × ResultNames)}
    (h : Assembly target t t' w arguments made) (ht : t'.Tidy used) (hid : w.scope ≠ root)
    (hargs : (w.arguments.map (·.declared.name)).Nodup) (hres : (w.results.map (·.declared.name)).Nodup) :
    w.signature.params.Pairwise fun p q => t'.target.sameName p.name q.name = true ↔ w.Shared p q := by
  rw [h.arguments_eq, List.map_map] at hargs
  rw [h.results_eq, List.map_map] at hres
  have hinputs : w.arguments.flatMap Argument.params = arguments.flatMap (·.argument.params) := by
    rw [h.arguments_eq, List.flatMap_map]
  have houtputs : w.results.flatMap Result.outputs = made.flatMap (·.1.result.outputs) := by
    rw [h.results_eq, List.flatMap_map]
  refine List.Pairwise.sublist w.params_sublist ?_
  rw [hinputs, houtputs]
  have hinput : ((arguments.flatMap (·.argument.params)).map (·.name)).Sublist (arguments.flatMap (·.names)) := by
    rw [List.map_flatMap]
    refine List.Sublist.flatMap_right _ fun a ha => ?_
    obtain ⟨d, p, hm⟩ := h.marshalled a ha
    exact hm.paramNames_sublist
  have houtput : ((made.flatMap (·.1.result.outputs)).map (·.name)).Sublist (made.flatMap resultNames) := by
    rw [List.map_flatMap]
    refine List.Sublist.flatMap_right _ fun m hm => ?_
    obtain ⟨r, source, p, hd, -⟩ := h.delivered m hm
    exact hd.outputNames_sublist_resultNames
  have hmemIn : ∀ p ∈ arguments.flatMap (·.argument.params), p.name ∈ t'.symbolsOf w.scope := fun p hp =>
    h.mem_symbolsOf (List.mem_append_left _ (hinput.subset (List.mem_map_of_mem hp)))
  have hmemOut : ∀ p ∈ made.flatMap (·.1.result.outputs), p.name ∈ t'.symbolsOf w.scope := fun p hp =>
    h.mem_symbolsOf (List.mem_append_right _ (houtput.subset (List.mem_map_of_mem hp)))
  refine List.pairwise_append.2 ⟨?_, ?_, fun p hp q hq => ?_⟩
  · refine ht.pairwise_iff hid (hinput.nodup (h.nodup_arguments hargs)) hmemIn fun p _ q hq hshared => ?_
    obtain ⟨a, -, hq⟩ := List.mem_flatMap.1 hq
    cases hshared.output.symm.trans (Argument.direction_of_mem hq)
  · refine ht.pairwise_iff hid (houtput.nodup (h.nodup_results hres)) hmemOut fun p hp q _ hshared => ?_
    obtain ⟨m, -, hp⟩ := List.mem_flatMap.1 hp
    cases hshared.input.symm.trans (Result.direction_of_mem hp)
  rw [ht.sameName_iff_eq hid (hmemIn p hp) (hmemOut q hq)]
  constructor
  · -- a name of both an argument and a result is the native one, which only scalars pass
    intro heq
    obtain ⟨a, ha, hp⟩ := List.mem_flatMap.1 hp
    obtain ⟨m, hm, hq⟩ := List.mem_flatMap.1 hq
    obtain ⟨d, passing, hmarshalled⟩ := h.marshalled a ha
    obtain ⟨r, source, delivery, hdelivered, -⟩ := h.delivered m hm
    have hpa : p.name ∈ a.names := MarshalledArgument.name_mem_of_mem_params hp
    have hqm : q.name ∈ resultNames m := hdelivered.outputNames_sublist_resultNames.subset (List.mem_map_of_mem hq)
    obtain ⟨hnative, hnative', hname⟩ := h.eq_native_of_mem ha hm hpa (heq ▸ hqm)
    refine ⟨a.argument, ?_, m.1.result, ?_, ?_, ?_, hname, hp, hq⟩
    · rw [h.arguments_eq]
      exact List.mem_map_of_mem ha
    · rw [h.results_eq]
      exact List.mem_map_of_mem hm
    · by_contra habi
      have hcompanion := MarshalledArgument.mem_companions habi hp
      refine h.companion_ne_native (h.argument_native a ha) ?_ hnative.symm
      exact List.mem_append_left _ (List.mem_flatMap.2 ⟨a, ha, hcompanion⟩)
    · by_contra habi
      have hcompanion := hdelivered.mem_companions habi hq
      refine h.companion_ne_native (h.result_native m hm) ?_ (hnative'.symm.trans heq)
      exact List.mem_append_right _ (List.mem_flatMap.2 ⟨m, hm, hcompanion⟩)
  · -- scalars of one declared name are passed under its one name in the scope
    rintro ⟨a, ha, r, hr, habi, habi', hname, hp, hq⟩
    rw [h.arguments_eq] at ha
    rw [h.results_eq] at hr
    obtain ⟨x, hx, rfl⟩ := List.mem_map.1 ha
    obtain ⟨m, hm, rfl⟩ := List.mem_map.1 hr
    rw [Argument.name_of_direct habi hp, Result.name_of_direct habi' hq]
    have hnative := h.argument_native x hx
    rw [MarshalledArgument.name, hname, h.result_native m hm] at hnative
    exact (Option.some.inj hnative).symm

theorem wrapAccessor_params {target : Target} {t t' : ScopeTree} {v : Semantic.Variable} {w : Wrapper.Function}
    (hpos : 0 < t.size) (h : wrapAccessor target v t = (w, t')) :
    w.scope ≠ root ∧ w.arguments = [] ∧ (w.signature.params.map (·.name)).Nodup ∧
      ∀ p ∈ w.signature.params, p.name ∈ t'.symbolsOf w.scope := by
  obtain ⟨⟨name, scope⟩, t₁, h₁, h⟩ := Alloc.bind_eq h
  obtain ⟨ptr, t₂, h₂, h⟩ := Alloc.bind_eq h
  obtain ⟨shape, t₃, h₃, h⟩ := Alloc.bind_eq h
  obtain ⟨rfl, rfl⟩ := Prod.mk.inj h
  have g₂ := Alloc.freshName_grown (Alloc.openFunction_opened h₁).1 h₂
  have g₃ := (Alloc.series_grown (g₂.lt_size (Alloc.openFunction_opened h₁).1) h₃).1
  refine ⟨Nat.ne_of_gt (Nat.lt_of_lt_of_le hpos (Alloc.openFunction_grown hpos h₁).2), rfl, ?_, fun p hp => ?_⟩
  · change ((shape.map fun n => Parameter.output n (.scalar .index)).map (·.name)).Nodup
    rw [List.map_map]
    exact (List.map_id shape).symm ▸ g₃.nodup
  · obtain ⟨n, hn, rfl⟩ := List.mem_map.1 (show p ∈ shape.map fun n => Parameter.output n (.scalar .index) from hp)
    exact g₃.mem_of_fresh hn

theorem wrapAllocator_params {t t' : ScopeTree} {c : Semantic.Class} {w : Wrapper.Function}
    (h : wrapAllocator c t = (w, t')) : w.signature.params = [] := by
  obtain ⟨⟨name, scope⟩, t₁, h₁, h⟩ := Alloc.bind_eq h
  obtain ⟨object, t₂, h₂, h⟩ := Alloc.bind_eq h
  obtain ⟨_, t₃, h₃, h⟩ := Alloc.bind_eq h
  obtain ⟨ptr, t₄, h₄, h⟩ := Alloc.bind_eq h
  obtain ⟨rfl, rfl⟩ := Prod.mk.inj h
  rfl

theorem Made.params_apart {target : Target} {m : Semantic.Module} {used : List String} {t t' : ScopeTree}
    {w : Wrapper.Function} (h : Made target m t t' w) (ht : t.Tidy used)
    (hargs : (w.arguments.map (·.declared.name)).Nodup) (hres : (w.results.map (·.declared.name)).Nodup) :
    w.signature.params.Pairwise fun p q => t'.target.sameName p.name q.name = true ↔ w.Shared p q := by
  have ht' := (h.built ht).extend.tidy ht
  have hjob : ∀ {job : Job}, job.run target t = (.ok w, t') →
      w.signature.params.Pairwise fun p q => t'.target.sameName p.name q.name = true ↔ w.Shared p q := by
    intro job hrun
    obtain ⟨arguments, made, hw⟩ := Job.run_lowering hrun
    exact hw.assembly.params_apart ht' (hw.assembly.scope_ne_root ht.pos) hargs hres
  cases h with
  | function f hf h => exact hjob h
  | allocator c hc h =>
    rw [wrapAllocator_params h]
    exact .nil
  | accessor v h =>
    obtain ⟨hid, hnone, hnd, hmem⟩ := wrapAccessor_params ht.pos h
    refine ht'.pairwise_iff hid hnd hmem fun p _ q _ hshared => ?_
    obtain ⟨a, ha, -⟩ := hshared
    rw [hnone] at ha
    cases ha
  | member c hc h =>
    cases h with
    | method f hf h => exact hjob h
    | getter a ha delivery hd h =>
      obtain ⟨receiver, value, hw, -⟩ := wrapGetter_assembly h
      exact hw.params_apart ht' (hw.scope_ne_root ht.pos) hargs hres
    | setter a ha passing hp h =>
      obtain ⟨receiver, value, hw, -⟩ := wrapSetter_assembly h
      exact hw.params_apart ht' (hw.scope_ne_root ht.pos) hargs hres

/-- Two parameters denote one name exactly if they are a scalar argument and a scalar result of one declared name. -/
theorem wrapModule_params_apart (target : Target) (m : Semantic.Module) {r : Reported WrappedModule}
    (h : wrapModule target m = .ok r) {w : Wrapper.Function} (hw : w ∈ r.value.module.allFunctions)
    (hargs : (w.arguments.map (·.declared.name)).Nodup) (hres : (w.results.map (·.declared.name)).Nodup) :
    w.signature.params.Pairwise fun p q => target.sameName p.name q.name = true ↔ w.Shared p q := by
  obtain ⟨t, t', ht, htarget, hmade⟩ := wrapModule_made h hw
  have hapart := hmade.params_apart ht hargs hres
  rwa [(hmade.built ht).extend.target, htarget] at hapart

/-- Changes a scalar and an array in place and returns a list besides. -/
def sweepModule : Semantic.Module where
  name := "lib"
  functions := [{
    name := "sweep"
    arguments := [{ name := "x", type := .scalar .int32 }, { name := "X_shape", type := .scalar .int32 },
      { name := "cells", type := .array .float64 2 .rowMajor }]
    results := [{ name := "x", type := .scalar .int32, isArgument := true },
      { name := "cells", type := .array .float64 2 .rowMajor, isArgument := true },
      { name := "hits", type := .list (.scalar .int32) }] }]

theorem wrapModule_params_sweep : ∃ r w, wrapModule .fortran sweepModule = .ok r ∧
    w ∈ r.value.module.allFunctions ∧ (w.arguments.map (·.declared.name)).Nodup ∧
    (w.results.map (·.declared.name)).Nodup ∧ w.signature.params.length = 13 ∧
    w.signature.params.Pairwise fun p q => Target.fortran.sameName p.name q.name = true ↔ w.Shared p q := by
  obtain ⟨r, hok⟩ := wrapModule_ok .fortran (show isIdentifier sweepModule.name = true by decide +kernel)
  have hrun : ((wrapModule .fortran sweepModule).toOption.bind fun r => r.value.module.allFunctions.head?.map fun w =>
      (w.arguments.map (·.declared.name), w.results.map (·.declared.name), w.signature.params.length)) =
      some (["x", "X_shape", "cells"], ["x", "cells", "hits"], 13) := by decide +kernel
  rw [hok] at hrun
  obtain ⟨w, hw, hrun⟩ := Option.map_eq_some_iff.1 hrun
  obtain ⟨hargs, hrun⟩ := Prod.mk.inj hrun
  obtain ⟨hres, hlength⟩ := Prod.mk.inj hrun
  have hmem := List.mem_of_mem_head? hw
  have hnd : (w.arguments.map (·.declared.name)).Nodup := hargs ▸ by decide
  have hnd' : (w.results.map (·.declared.name)).Nodup := hres ▸ by decide
  exact ⟨r, w, hok, hmem, hnd, hnd', hlength, wrapModule_params_apart .fortran sweepModule hok hmem hnd hnd'⟩

/-- Changes a scalar in place and returns another. -/
def bumpModule : Semantic.Module where
  name := "lib"
  functions := [{
    name := "bump"
    arguments := [{ name := "x", type := .scalar .int32 }]
    results := [{ name := "x", type := .scalar .int32, isArgument := true }, { name := "y", type := .scalar .int32 }] }]

/-- The scalar that is changed in place comes in and goes out under one name. -/
theorem wrapModule_params_bump : (∀ f ∈ bumpModule.functions, ∀ r ∈ f.results,
      r.isArgument = true ↔ ∃ a ∈ f.arguments, a.name = r.name ∧ a.type = r.type) ∧
    ((wrapModule .fortran bumpModule).toOption.map fun r => r.value.module.allFunctions.map fun w =>
      (w.arguments.map (·.declared.name), w.results.map (·.declared.name), w.signature.params.map (·.name))) =
      some [(["x"], ["x", "y"], ["x", "x", "y"])] := by
  refine ⟨by simp [bumpModule], ?_⟩
  decide +kernel

end AbiBridge
