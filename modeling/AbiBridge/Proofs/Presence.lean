import Mathlib
import AbiBridge.Proofs.Lowering
import AbiBridge.Proofs.StridedView

/-!
# How a wrapper reaches its call

The tests of the presence tree look at pointers only, so a run of the tree is a run of the leaf of the live
arguments (`execBlock_tree`). A leaf prepares the values of its arguments, makes the call and binds what it
returns (`execBlock_leaf`), and the preparation changes nothing but locals (`preparation_keeps`,
`preparation_outside`). `call_eq` puts this together for a call of a wrapper.
-/

namespace AbiBridge

open Wrapper Run

/-! ### Bindings made from pairs -/

namespace Bindings

variable {α : Type} {names : List String} {values : List α}

theorem get?_foldl_set (pairs : List (String × α)) (b : Bindings α) {n : String}
    (h : n ∉ pairs.map Prod.fst) : (pairs.foldl (fun b p => set p.1 p.2 b) b).get? n = b.get? n := by
  induction pairs generalizing b with
  | nil => rfl
  | cons p pairs ih =>
    rw [List.map_cons, List.mem_cons, not_or] at h
    rw [List.foldl_cons, ih _ h.2, get?_set, if_neg (Ne.symm h.1)]

theorem get?_ofPairs_of_notMem {n : String} (h : n ∉ names) : (ofPairs (names.zip values)).get? n = none := by
  refine get?_foldl_set _ [] fun hn => h ?_
  obtain ⟨p, hp, rfl⟩ := List.mem_map.1 hn
  exact (List.of_mem_zip hp).1

theorem exists_get?_foldl_set (b : Bindings α) {n : String} (hl : names.length = values.length)
    (h : n ∈ names ∨ ∃ v, b.get? n = some v) :
    ∃ v, ((names.zip values).foldl (fun b p => set p.1 p.2 b) b).get? n = some v := by
  induction names generalizing b values with
  | nil => simpa using h
  | cons name names ih =>
    obtain _ | ⟨v, values⟩ := values
    · cases hl
    refine ih _ (by simpa using hl) ?_
    by_cases hn : name = n
    · exact .inr ⟨v, by rw [get?_set, if_pos hn]⟩
    · rcases h with h | h
      · exact .inl ((List.mem_cons.1 h).resolve_left (Ne.symm hn))
      · exact .inr (by rwa [get?_set, if_neg hn])

theorem exists_get?_ofPairs {n : String} (hl : names.length = values.length) (h : n ∈ names) :
    ∃ v, (ofPairs (names.zip values)).get? n = some v :=
  exists_get?_foldl_set [] hl (.inl h)

theorem forall₂_get?_ofPairs (hl : names.length = values.length) (hnd : names.Nodup) (b : Bindings α) :
    List.Forall₂ (fun n v => ((names.zip values).foldl (fun b p => set p.1 p.2 b) b).get? n = some v)
      names values := by
  induction names generalizing b values with
  | nil =>
    obtain rfl := List.length_eq_zero_iff.1 hl.symm
    exact .nil
  | cons name names ih =>
    obtain _ | ⟨v, values⟩ := values
    · cases hl
    obtain ⟨hname, hnd⟩ := List.nodup_cons.1 hnd
    have hl : names.length = values.length := by simpa using hl
    refine .cons ?_ (ih hl hnd _)
    rw [List.zip_cons_cons, List.foldl_cons, get?_foldl_set, get?_set, if_pos rfl]
    rwa [List.map_fst_zip (by omega)]

end Bindings

/-! ### Signatures -/

namespace Wrapper

/-- The names of the parameters of an argument. -/
def Argument.paramNames (a : Argument) : List String := a.params.map (·.name)

theorem Argument.direction_of_mem {a : Argument} {p : Parameter} (hp : p ∈ a.params) : p.direction = .input := by
  unfold params at hp
  split at hp
  · rw [List.mem_singleton.1 hp]
    rfl
  · rcases List.mem_cons.1 hp with rfl | hp
    · rfl
    · obtain ⟨n, -, rfl⟩ := List.mem_map.1 hp
      rfl

theorem Result.direction_of_mem {r : Result} {p : Parameter} (hp : p ∈ r.outputs) : p.direction = .output := by
  rcases List.mem_cons.1 hp with rfl | hp
  · rfl
  unfold shapeParams at hp
  split at hp
  · cases hp
  · obtain ⟨n, -, rfl⟩ := List.mem_map.1 hp
    rfl

theorem Result.names_outputs {r : Result} {ptr : String} {shape : List String} (h : r.abi = .pointer ptr shape) :
    r.outputs.map (·.name) = ptr :: shape := by
  simp [outputs, slot, shapeParams, h, Parameter.output, Function.comp_def]

namespace Function

variable (w : Function)

theorem inputs_append (outputs : List Parameter) (h : ∀ p ∈ outputs, p.direction = .output) :
    (w.arguments.flatMap Argument.params ++ outputs).filter (·.direction == .input)
      = w.arguments.flatMap Argument.params := by
  rw [List.filter_append, List.filter_eq_self.2, List.filter_eq_nil_iff.2, List.append_nil]
  · intro p hp
    simp [h p hp]
  · intro p hp
    obtain ⟨a, -, hp⟩ := List.mem_flatMap.1 hp
    simp [Argument.direction_of_mem hp]

theorem signature_inputs : w.signature.inputs = w.arguments.flatMap Argument.params := by
  unfold signature Signature.inputs
  split
  · simpa using w.inputs_append [] (by simp)
  · exact w.inputs_append _ fun p hp => Result.direction_of_mem (List.mem_cons_of_mem _ hp)
  · refine w.inputs_append _ fun p hp => ?_
    obtain ⟨r, -, hp⟩ := List.mem_flatMap.1 hp
    exact Result.direction_of_mem hp

variable {w} in
theorem signature_outputs {r : Result} (h : w.results = [r]) : w.signature.outputs = r.shapeParams := by
  unfold signature Signature.outputs
  rw [h, List.filter_append, List.filter_eq_nil_iff.2, List.nil_append, List.filter_eq_self.2]
  · intro p hp
    simp [Result.direction_of_mem (List.mem_cons_of_mem _ hp)]
  · intro p hp
    obtain ⟨a, -, hp⟩ := List.mem_flatMap.1 hp
    simp [Argument.direction_of_mem hp]

end Function

end Wrapper

/-! ### The tree -/

/-- Whether an argument is passed on: it is not optional, or its pointer is not null. -/
def MarshalledArgument.isLive (f : Frame) (a : MarshalledArgument) : Bool :=
  !a.argument.isOptional || !((a.argument.pointer?.bind f.locals.get?).any Value.isNull)

namespace CallSite

/-- What a leaf does before the call. -/
def preparation (live : List MarshalledArgument) : List Stmt :=
  (receiverFirst live).filterMap (·.rebuild) ++ (receiverFirst live).filterMap bindView

/-- The arguments of the call at a leaf. -/
def actuals (live : List MarshalledArgument) : List Actual := live.map fun a => .mk (some a.name) a.passedValue

end CallSite

namespace Interpreter

open Exec CallSite

variable (it : Interpreter) {f : Frame} {m : Machine}

theorem execBlock_singleton (f : Frame) (s : Stmt) : it.execBlock f [s] = it.exec f s := by
  simp only [execBlock, bind_pure]

theorem exec_branch {ptr : String} {v : Value} (hv : f.locals.get? ptr = some v) (body orelse : List Stmt) :
    it.exec f (.branch (.isNotNull (.var ptr)) body orelse) m
      = it.execBlock f (if v.isNull then orelse else body) m := by
  have hcond : it.eval f (.isNotNull (.var ptr)) m = (.ok (.bool (!v.isNull)), m) := by
    simp only [eval]
    rw [bind_ok (by rw [ofExcept_apply, it.lookup_of_get? hv]), pure_apply]
  simp only [exec]
  rw [bind_ok hcond]
  cases v.isNull <;> rfl

/-- The tests of the tree settle which arguments are live, and run the leaf of those. -/
theorem execBlock_tree (site : CallSite) {rest : List MarshalledArgument}
    (h : ∀ a ∈ rest, a.argument.isOptional = true →
      ∃ ptr v, a.argument.pointer? = some ptr ∧ f.locals.get? ptr = some v) (live : List MarshalledArgument) :
    it.execBlock f (site.tree live rest) m
      = it.execBlock f (site.leaf (live ++ rest.filter (·.isLive f))) m := by
  -- no test changes the frame, so `isLive` may be read off the frame at the root
  induction rest generalizing live with
  | nil => rw [tree, List.filter_nil, List.append_nil]
  | cons a rest ih =>
    have ih := ih fun b hb => h b (List.mem_cons_of_mem _ hb)
    rw [tree]
    cases ho : a.argument.isOptional with
    | false =>
      have hlive : a.isLive f = true := by simp [MarshalledArgument.isLive, ho]
      rw [if_neg (by simp), ih, List.filter_cons_of_pos hlive, List.append_assoc]
      rfl
    | true =>
      obtain ⟨ptr, v, hptr, hv⟩ := h a List.mem_cons_self ho
      have hlive : a.isLive f = !v.isNull := by simp [MarshalledArgument.isLive, ho, hptr, hv]
      rw [if_pos rfl, hptr]
      simp only [execBlock_singleton]
      rw [it.exec_branch hv]
      cases hnull : v.isNull with
      | true =>
        rw [if_pos rfl, ih, List.filter_cons_of_neg (by simp [hlive, hnull])]
      | false =>
        rw [if_neg (by simp), ih, List.filter_cons_of_pos (by simp [hlive, hnull]), List.append_assoc]
        rfl

/-! ### The leaf -/

/-- Binds the value of the call to the targets. -/
def bindTargets (targets : List CallTarget) (f : Frame) (v : Value) : Exec Frame :=
  match targets with
  | [] => pure f
  | [t] => it.assign (!t.aliased) f (.var t.name) v
  | ts => it.assign true f (.tuple (ts.map fun t => .var t.name)) v

theorem exec_bind (site : CallSite) (f : Frame) (arguments : List Actual) :
    it.exec f (site.bind (.call site.callee arguments)) = (do
      let args ← it.evalActuals f 0 arguments
      let v ← it.callHost f site.callee ⟨args⟩
      it.bindTargets site.targets f v) := by
  obtain ⟨callee, targets⟩ := site
  match targets with
  | [] => simp only [CallSite.bind, bindTargets, exec, eval, bind_assoc]
  | [⟨name, true⟩] => simp only [CallSite.bind, bindTargets, exec, eval, bind_assoc, if_true, Bool.not_true]
  | [⟨name, false⟩] =>
    simp only [CallSite.bind, bindTargets, exec, eval, bind_assoc, Bool.false_eq_true, if_false, Bool.not_false]
  | _ :: _ :: _ => simp only [CallSite.bind, bindTargets, exec, eval, bind_assoc]

theorem execBlock_leaf (site : CallSite) (f : Frame) (live : List MarshalledArgument) :
    it.execBlock f (site.leaf live) = (do
      let f ← it.execBlock f (preparation live)
      let args ← it.evalActuals f 0 (actuals live)
      let v ← it.callHost f site.callee ⟨args⟩
      it.bindTargets site.targets f v) := by
  have hleaf : site.leaf live = preparation live ++ [site.bind (.call site.callee (actuals live))] := rfl
  simp only [hleaf, execBlock_append, execBlock_singleton, exec_bind]

theorem callHost_ok {name : String} {args : CallArgs} {callee : Callee} {host : Host} {vs : List Value}
    {heap : Heap} (hr : it.hosts.resolve? f.owner? name = some (callee, host))
    (hh : host args m.heap = (.ok vs, heap)) :
    it.callHost f name args m = (.ok (resultValue vs), ⟨heap, m.calls ++ [⟨callee, args, m.heap⟩]⟩) := by
  simp only [callHost, hr, bind_apply, Run.modify, onHeap_apply, hh, pure_apply]

theorem callHost_error {name : String} {args : CallArgs} {callee : Callee} {host : Host} {e : Trap}
    {heap : Heap} (hr : it.hosts.resolve? f.owner? name = some (callee, host))
    (hh : host args m.heap = (.error e, heap)) :
    it.callHost f name args m = (.error e, ⟨heap, m.calls ++ [⟨callee, args, m.heap⟩]⟩) := by
  simp only [callHost, hr, bind_apply, Run.modify, onHeap_apply, hh]

/-! ### The preparation -/

theorem exec_reinterpret_keeps {τ : Type} {view : Machine → τ} {ptr name : String} {sizes : List Expr}
    (h : exprCalls sizes = 0) (f : Frame) : Keeps view (it.exec f (.reinterpret ptr name sizes)) := by
  simp only [exec]
  refine .bind (.ofExcept _) fun v => ?_
  split
  · exact .trap _
  · exact .bind (it.evalExtents_keeps f h) fun _ => .bind (.read _) fun _ => .pure _

theorem exec_aliasAssign_var {name : String} {e : Expr} :
    it.exec f (.aliasAssign (.var name) e) = (do let v ← it.eval f e; return f.set name v) := by
  simp only [exec, assign]
  congr 1
  funext v
  unfold assignVar
  split <;> simp_all

end Interpreter

theorem Passing.of?_eq_direct {type : ValueType} {optional : Bool} (h : Passing.of? type optional = some .direct) :
    (∃ kind, type = .scalar kind) ∧ optional = false := by
  cases type <;> cases optional <;> simp_all [Passing.of?]

section Marshalled

variable {target : Target} {a : Semantic.Argument} {p : Passing} {x : MarshalledArgument}

theorem Marshalled.callCount_callValue (h : Marshalled target a p x) : x.argument.callValue.callCount = 0 := by
  cases h with
  | array native ptr shape strides viewAlias =>
    simp only [stridedView, Expr.callCount]
    induction a.type.order.reorder target.storageOrder strides with
    | nil => rfl
    | cons st strides ih => simp [subscriptCalls, Subscript.callCount, Expr.callCount, ih]
  | _ => rfl

theorem Marshalled.callCount_passedValue (h : Marshalled target a p x) : x.passedValue.callCount = 0 := by
  unfold MarshalledArgument.passedValue
  split
  · rfl
  · exact h.callCount_callValue

theorem exprCalls_spanSizes (shape strides : List String) : exprCalls (spanSizes shape strides) = 0 := by
  rw [exprCalls_eq_zero]
  intro e he
  obtain ⟨i, hi, rfl⟩ := List.mem_iff_getElem.1 he
  simp [spanSizes, Expr.callCount]

theorem Marshalled.rebuild_eq (h : Marshalled target a p x) {s : Stmt} (hs : x.rebuild = some s) :
    ∃ ptr sizes, s = .reinterpret ptr x.argument.native.name sizes ∧ exprCalls sizes = 0 := by
  cases h with
  | direct native => cases hs
  | handle native ptr => cases hs; exact ⟨ptr, [], rfl, rfl⟩
  | sequence native ptr length => cases hs; exact ⟨ptr, _, rfl, rfl⟩
  | array native ptr shape strides viewAlias =>
    cases hs
    exact ⟨ptr, _, rfl, exprCalls_spanSizes _ _⟩

end Marshalled

namespace CallSite

variable {live : List MarshalledArgument}

theorem mem_receiverFirst {a : MarshalledArgument} : a ∈ receiverFirst live ↔ a ∈ live := by
  unfold receiverFirst
  rw [List.mem_append, List.mem_filter, List.mem_filter, ← and_or_left]
  cases a.argument.isBound <;> simp

theorem mem_preparation {s : Stmt} : s ∈ preparation live ↔
    (∃ a ∈ live, a.rebuild = some s) ∨ ∃ a ∈ live, bindView a = some s := by
  simp only [preparation, List.mem_append, List.mem_filterMap, mem_receiverFirst]

theorem actualCalls_actuals {target : Target} (h : ∀ x ∈ live, ∃ a p, Marshalled target a p x) :
    actualCalls (actuals live) = 0 := by
  induction live with
  | nil => rfl
  | cons x live ih =>
    obtain ⟨a, p, hm⟩ := h x List.mem_cons_self
    have ih := ih fun y hy => h y (List.mem_cons_of_mem _ hy)
    rw [actuals] at ih
    simp only [actuals, List.map_cons, actualCalls, Actual.callCount, hm.callCount_passedValue, ih]

end CallSite

/-! ### Calls of a wrapper -/

/-- The class whose method a wrapper of this origin wraps. -/
def Wrapper.Origin.owner? : Origin → Option String
  | .method key => some key.className
  | _ => none

theorem Frame.owner?_eq (f : Frame) : f.owner? = f.function.origin.owner? := by
  unfold Frame.owner? Origin.owner?
  cases f.function.origin <;> rfl

namespace Interpreter

open Exec CallSite

variable (it : Interpreter) {f : Frame} {m : Machine} {live : List MarshalledArgument}

theorem preparation_step_keeps {τ : Type} {view : Machine → τ}
    (h : ∀ x ∈ live, ∃ a p, Marshalled it.target a p x) {s : Stmt} (hs : s ∈ preparation live) (f : Frame) :
    Keeps view (it.exec f s) := by
  rcases mem_preparation.1 hs with ⟨x, hx, hs⟩ | ⟨x, hx, hs⟩
  · obtain ⟨a, p, hm⟩ := h x hx
    obtain ⟨ptr, sizes, rfl, hsizes⟩ := hm.rebuild_eq hs
    exact it.exec_reinterpret_keeps hsizes f
  · obtain ⟨a, p, hm⟩ := h x hx
    obtain ⟨name, -, rfl⟩ := Option.map_eq_some_iff.1 hs
    rw [it.exec_aliasAssign_var]
    exact .bind (it.eval_keeps f _ hm.callCount_callValue) fun _ => .pure _

theorem preparation_keeps {τ : Type} {view : Machine → τ}
    (h : ∀ x ∈ live, ∃ a p, Marshalled it.target a p x) (f : Frame) :
    Keeps view (it.execBlock f (preparation live)) :=
  it.execBlock_keeps (fun _ hs f => it.preparation_step_keeps h hs f) f

theorem mem_writes_preparation (h : ∀ x ∈ live, ∃ a p, Marshalled it.target a p x) {n : String}
    (hn : n ∈ writesAll (preparation live)) :
    ∃ x ∈ live, (∃ s, x.rebuild = some s) ∧ n = x.argument.native.name ∨ x.viewAlias = some n := by
  obtain ⟨s, hs, hn⟩ := mem_writesAll.1 hn
  rcases mem_preparation.1 hs with ⟨x, hx, hs⟩ | ⟨x, hx, hs⟩ <;> refine ⟨x, hx, ?_⟩
  · obtain ⟨a, p, hm⟩ := h x hx
    obtain ⟨ptr, sizes, rfl, -⟩ := hm.rebuild_eq hs
    exact .inl ⟨⟨_, hs⟩, List.mem_singleton.1 hn⟩
  · obtain ⟨name, hname, rfl⟩ := Option.map_eq_some_iff.1 hs
    exact .inr (List.mem_singleton.1 hn ▸ hname)

theorem writes_preparation (h : ∀ x ∈ live, ∃ a p, Marshalled it.target a p x) :
    writesAll (preparation live) ⊆ live.flatMap (·.names) := by
  intro n hn
  obtain ⟨x, hx, ⟨-, rfl⟩ | hview⟩ := it.mem_writes_preparation h hn
  · exact List.mem_flatMap.2 ⟨x, hx, List.mem_cons_self⟩
  · refine List.mem_flatMap.2 ⟨x, hx, ?_⟩
    obtain ⟨a, p, hm⟩ := h x hx
    -- only an array has a view
    cases hm with
    | array => simp_all [MarshalledArgument.names, MarshalledArgument.companions]
    | _ => cases hview

/-- The frame in which the body of a wrapper starts. -/
def entry (w : Wrapper.Function) (inputs : List Value) : Frame :=
  ⟨w, Bindings.ofPairs ((w.signature.inputs.map (·.name)).zip inputs)⟩

/-- What a wrapper delivers at the end of its body. -/
def outcome (w : Wrapper.Function) (f : Frame) : Exec CallOutcome := do
  let outputs ← Run.ofExcept (it.lookupAll f (w.signature.outputs.map (·.name)))
  let value ← Run.ofExcept (it.returned f w.signature)
  return ⟨value, outputs⟩

theorem call_eq_outcome {w : Wrapper.Function} {inputs : List Value} (hw : it.module.function? w.name = some w)
    (hl : (w.signature.inputs.map (·.name)).length = inputs.length) :
    it.call w.name inputs = it.execBlock (entry w inputs) w.body >>= it.outcome w := by
  simp only [call, hw, callFunction, hl, if_true]
  rfl

theorem bindTargets_keeps_calls (targets : List CallTarget) (f : Frame) (v : Value) :
    Keeps Machine.calls (it.bindTargets targets f v) := by
  unfold bindTargets
  split
  · exact .pure _
  · exact it.assign_keeps_calls _ f _ v rfl
  · refine it.assign_keeps_calls _ f _ v ?_
    simp only [Expr.callCount, exprCalls_eq_zero]
    intro e he
    obtain ⟨t, -, rfl⟩ := List.mem_map.1 he
    rfl

end Interpreter

namespace Lowered

open Interpreter CallSite

variable {it : Interpreter} {job : Job} {w : Wrapper.Function} {arguments : List MarshalledArgument}
  {results : List MarshalledResult} {inputs : List Value} {m : Machine}

theorem exists_marshalled {target : Target} (h : Lowered target job w arguments results)
    {x : MarshalledArgument} (hx : x ∈ arguments) :
    ∃ a ∈ job.function.arguments, ∃ p, Passing.of? a.type a.optional = some p ∧ Marshalled target a p x :=
  exists_of_forall₂_right h.marshalled hx

/-- What follows the call in the body of a wrapper. -/
def finish (it : Interpreter) (job : Job) (w : Wrapper.Function) (arguments : List MarshalledArgument)
    (results : List MarshalledResult) (f : Frame) (v : Value) : Exec CallOutcome := do
  let f ← it.bindTargets (results.filterMap (·.target)) f v
  let f ← it.execBlock f (results.flatMap (·.deferred))
  let f ← it.execBlock f (Job.release job.function arguments)
  it.outcome w f

theorem blockCalls_deferred {target : Target} (h : Lowered target job w arguments results) :
    blockCalls (results.flatMap (·.deferred)) = 0 := by
  rw [blockCalls_eq_zero]
  intro s hs
  obtain ⟨d, hd, hs⟩ := List.mem_flatMap.1 hs
  exact blockCalls_eq_zero.1 (h.deferred d hd) s hs

theorem blockCalls_release (f : Semantic.Function) (arguments : List MarshalledArgument) :
    blockCalls (Job.release f arguments) = 0 := by
  unfold Job.release
  split
  · split <;> rfl
  · rfl

theorem finish_keeps_calls (h : Lowered it.target job w arguments results) (f : Frame) (v : Value) :
    Keeps Machine.calls (finish it job w arguments results f v) := by
  refine .bind (it.bindTargets_keeps_calls _ f v) fun f =>
    .bind (it.execBlock_keeps_calls f _ h.blockCalls_deferred) fun f =>
    .bind (it.execBlock_keeps_calls f _ (blockCalls_release _ _)) fun f => ?_
  exact .bind (.ofExcept _) fun _ => .bind (.ofExcept _) fun _ => .pure _

theorem inputs_eq {target : Target} (h : Lowered target job w arguments results) :
    w.signature.inputs.map (·.name) = arguments.flatMap (·.argument.paramNames) := by
  rw [w.signature_inputs, h.arguments_eq, List.flatMap_map, List.map_flatMap]
  rfl

theorem exists_pointer (h : Lowered it.target job w arguments results)
    (hl : (w.signature.inputs.map (·.name)).length = inputs.length) {x : MarshalledArgument} (hx : x ∈ arguments)
    (ho : x.argument.isOptional = true) :
    ∃ ptr v, x.argument.pointer? = some ptr ∧ (entry w inputs).locals.get? ptr = some v := by
  obtain ⟨a, -, p, hp, hm⟩ := h.exists_marshalled hx
  obtain ⟨ptr, hptr, hmem⟩ : ∃ ptr, x.argument.pointer? = some ptr ∧ ptr ∈ x.argument.paramNames := by
    cases hm with
    | direct native => exact absurd (ho.symm.trans (Passing.of?_eq_direct hp).2) (by simp)
    | _ => exact ⟨_, rfl, List.mem_cons_self⟩
  have hmem_inputs : ptr ∈ w.signature.inputs.map (·.name) := by
    rw [h.inputs_eq]
    exact List.mem_flatMap.2 ⟨x, hx, hmem⟩
  obtain ⟨v, hv⟩ := Bindings.exists_get?_ofPairs hl hmem_inputs
  exact ⟨ptr, v, hptr, hv⟩

/-- The arguments that a call passes on. -/
def liveAt (w : Wrapper.Function) (inputs : List Value) (arguments : List MarshalledArgument) :
    List MarshalledArgument :=
  arguments.filter (·.isLive (entry w inputs))

theorem live_marshalled (h : Lowered it.target job w arguments results) :
    ∀ x ∈ liveAt w inputs arguments, ∃ a p, Marshalled it.target a p x := by
  intro x hx
  obtain ⟨a, -, p, -, hm⟩ := h.exists_marshalled (List.mem_filter.1 hx).1
  exact ⟨a, p, hm⟩

/-- The body of a wrapper prepares the live arguments, calls the host, and delivers the results. -/
theorem body_eq (h : Lowered it.target job w arguments results)
    (hl : (w.signature.inputs.map (·.name)).length = inputs.length) :
    it.execBlock (entry w inputs) w.body m = (do
      let f ← it.execBlock (entry w inputs) (preparation (liveAt w inputs arguments))
      let args ← it.evalActuals f 0 (actuals (liveAt w inputs arguments))
      let v ← it.callHost f job.callName ⟨args⟩
      let f ← it.bindTargets (results.filterMap (·.target)) f v
      let f ← it.execBlock f (results.flatMap (·.deferred))
      it.execBlock f (Job.release job.function arguments) : Exec Frame) m := by
  rw [h.body, execBlock_append, execBlock_append, bind_assoc, CallSite.body,
    bind_congr_apply (it.execBlock_tree _ (fun x hx => h.exists_pointer hl hx) []), execBlock_leaf]
  simp only [bind_assoc]
  rfl

theorem call_eq (h : Lowered it.target job w arguments results) (hw : it.module.function? w.name = some w)
    (hl : (w.signature.inputs.map (·.name)).length = inputs.length) :
    it.call w.name inputs m = (do
      let f ← it.execBlock (entry w inputs) (preparation (liveAt w inputs arguments))
      let args ← it.evalActuals f 0 (actuals (liveAt w inputs arguments))
      let v ← it.callHost f job.callName ⟨args⟩
      finish it job w arguments results f v : Exec CallOutcome) m := by
  rw [it.call_eq_outcome hw hl, bind_congr_apply (h.body_eq hl)]
  simp only [bind_assoc]
  rfl

/-- The preparation succeeds with this frame, and the call gets these arguments. -/
structure Prepared (it : Interpreter) (w : Wrapper.Function) (arguments : List MarshalledArgument)
    (inputs : List Value) (m : Machine) (f : Frame) (args : List (String × Value)) : Prop where
  length_eq : (w.signature.inputs.map (·.name)).length = inputs.length
  frame : it.execBlock (entry w inputs) (preparation (liveAt w inputs arguments)) m = (.ok f, m)
  actuals : it.evalActuals f 0 (actuals (liveAt w inputs arguments)) m = (.ok args, m)

theorem Prepared.outside (h : Lowered it.target job w arguments results) {f : Frame} {args : List (String × Value)}
    (hp : Prepared it w arguments inputs m f args) :
    Frame.Outside (arguments.flatMap (·.names)) (entry w inputs) f := by
  refine (it.execBlock_outside _ _ _ _ _ hp.frame).mono fun n hn => ?_
  obtain ⟨x, hx, hn⟩ := List.mem_flatMap.1 (it.writes_preparation h.live_marshalled hn)
  exact List.mem_flatMap.2 ⟨x, (List.mem_filter.1 hx).1, hn⟩

theorem call_eq_finish (h : Lowered it.target job w arguments results) (hw : it.module.function? w.name = some w)
    {f : Frame} {args : List (String × Value)} (hp : Prepared it w arguments inputs m f args) :
    it.call w.name inputs m = (do
      let v ← it.callHost f job.callName ⟨args⟩
      finish it job w arguments results f v : Exec CallOutcome) m := by
  rw [h.call_eq hw hp.length_eq, bind_ok hp.frame, bind_ok hp.actuals]

theorem Prepared.owner? (h : Lowered it.target job w arguments results) {f : Frame} {args : List (String × Value)}
    (hp : Prepared it w arguments inputs m f args) : f.owner? = job.origin.owner? := by
  rw [f.owner?_eq, (hp.outside h).function]
  exact congrArg _ h.origin

/-- A call that is prepared reaches its host once, whatever the host does. -/
theorem calls_eq (h : Lowered it.target job w arguments results) (hw : it.module.function? w.name = some w)
    {callee : Callee} {host : Host} (hr : it.hosts.resolve? job.origin.owner? job.callName = some (callee, host))
    {f : Frame} {args : List (String × Value)} (hp : Prepared it w arguments inputs m f args) :
    (it.call w.name inputs m).2.calls = m.calls ++ [⟨callee, ⟨args⟩, m.heap⟩] := by
  rw [← hp.owner? h] at hr
  rw [h.call_eq_finish hw hp]
  rcases hh : host ⟨args⟩ m.heap with ⟨e | vs, heap⟩
  · rw [bind_error (it.callHost_error hr hh)]
  · rw [bind_ok (it.callHost_ok hr hh)]
    exact h.finish_keeps_calls f _ _

/-- A call that reaches its host was prepared: before the host runs, nothing but locals changes. -/
theorem exists_prepared (h : Lowered it.target job w arguments results) (hw : it.module.function? w.name = some w)
    {callee : Callee} {host : Host} (hr : it.hosts.resolve? job.origin.owner? job.callName = some (callee, host))
    {c : HostCall} (hc : (it.call w.name inputs m).2.calls = m.calls ++ [c]) :
    ∃ f args, Prepared it w arguments inputs m f args ∧ c = ⟨callee, ⟨args⟩, m.heap⟩ := by
  have hne : ∀ {o : Except Trap CallOutcome}, it.call w.name inputs m ≠ (o, m) := by
    rintro o ho
    rw [ho] at hc
    simpa using congrArg List.length hc
  by_cases hl : (w.signature.inputs.map (·.name)).length = inputs.length
  · rcases hf : it.execBlock (entry w inputs) (preparation (liveAt w inputs arguments)) m with ⟨e | f, m'⟩ <;>
      obtain rfl : m' = m := (congrArg Prod.snd hf).symm.trans
        ((it.preparation_keeps h.live_marshalled _).state m)
    · exact absurd ((h.call_eq hw hl).trans (bind_error hf)) hne
    rcases hargs : it.evalActuals f 0 (actuals (liveAt w inputs arguments)) m' with ⟨e | args, m''⟩ <;>
      obtain rfl : m'' = m' := (congrArg Prod.snd hargs).symm.trans
        ((it.evalActuals_keeps f (actualCalls_actuals h.live_marshalled) 0).state m')
    · exact absurd (((h.call_eq hw hl).trans (bind_ok hf)).trans (bind_error hargs)) hne
    have hp : Prepared it w arguments inputs m'' f args := ⟨hl, hf, hargs⟩
    rw [h.calls_eq hw hr hp, List.append_cancel_left_eq, List.singleton_inj] at hc
    exact ⟨f, args, hp, hc.symm⟩
  · have harity : it.call w.name inputs m = (.error (.arityMismatch w.name
        (w.signature.inputs.map (·.name)).length inputs.length), m) := by
      simp only [call, hw, callFunction, if_neg hl]
      rfl
    exact absurd harity hne

end Lowered

end AbiBridge
