import Mathlib
import AbiBridge.Proofs.ResultEncoding
import AbiBridge.Proofs.ModuleNames
import AbiBridge.Proofs.DefiniteAssignment

/-!
# What a wrapper reads is bound

The statements of a wrapper need the parameters, the native values of the live arguments and the values of the call,
and each is bound when it is needed. The native value of an argument that is absent is never bound; the only things
that read it are the results in place. Such a result takes its extents from the parameters and its address from a
variable that may be unbound, so it is delivered as null, but a scalar is read as it is.

`call_finds_variables`: a call traps on no undefined variable, and its outputs and its return slot are bound at the
end, unless an absent argument is returned in place as a scalar. Then it does trap (`bump_absent`).
-/

namespace AbiBridge

open Wrapper Run

/-! ### Reading lists of names -/

section Reads

variable {n : String}

theorem mem_exprReads_vars {names : List String} : n ∈ exprReads (names.map .var) ↔ n ∈ names := by
  induction names with
  | nil => rfl
  | cons x names ih => rw [List.map_cons, exprReads, List.mem_append, ih, Expr.reads, List.mem_singleton, List.mem_cons]

theorem mem_of_mem_spanSizes {shape strides : List String} (h : n ∈ exprReads (spanSizes shape strides)) :
    n ∈ shape ∨ n ∈ strides := by
  induction shape generalizing strides with
  | nil => cases h
  | cons sh shape ih =>
    cases strides with
    | nil => cases h
    | cons st strides =>
      simp only [spanSizes, List.zipWith_cons_cons, exprReads, Expr.reads, List.mem_append, List.mem_singleton] at h
      rcases h with (rfl | rfl) | h
      · exact .inl List.mem_cons_self
      · exact .inr List.mem_cons_self
      · exact (ih h).imp (List.mem_cons_of_mem _) (List.mem_cons_of_mem _)

theorem mem_of_mem_slices {start : Int} {strides : List String}
    (h : n ∈ subscriptReads (strides.map fun st => .slice (.int start) none (.var st))) : n ∈ strides := by
  induction strides with
  | nil => cases h
  | cons st strides ih =>
    rcases List.mem_append.1 h with h | h
    · rw [List.mem_singleton.1 h]
      exact List.mem_cons_self
    · exact List.mem_cons_of_mem _ (ih h)

theorem exists_of_mem_needsAll_flatMap {α : Type} {g : α → List Stmt} {l : List α} (h : n ∈ needsAll (l.flatMap g)) :
    ∃ x ∈ l, n ∈ needsAll (g x) := by
  induction l with
  | nil => cases h
  | cons a l ih =>
    rw [List.flatMap_cons] at h
    rcases mem_needsAll_append.1 h with h | ⟨h, -⟩
    · exact ⟨a, List.mem_cons_self, h⟩
    · obtain ⟨x, hx, hn⟩ := ih h
      exact ⟨x, List.mem_cons_of_mem _ hx, hn⟩

end Reads

/-! ### Arguments -/

namespace Marshalled

variable {target : Target} {a : Semantic.Argument} {p : Passing} {x : MarshalledArgument}

theorem rebuild_needs (h : Marshalled target a p x) {s : Stmt} (hs : x.rebuild = some s) :
    s.needs ⊆ x.argument.paramNames := by
  intro n hn
  cases h with
  | direct native => cases hs
  | handle native ptr =>
    cases hs
    exact hn
  | sequence native ptr length =>
    cases hs
    exact hn
  | array native ptr shape strides viewAlias =>
    cases hs
    rw [Argument.paramNames_of_pointer rfl, List.mem_cons, List.mem_append]
    rcases List.mem_cons.1 hn with hn | hn
    · exact .inl hn
    · have hmem := mem_of_mem_spanSizes hn
      rw [StorageOrder.mem_reorder, StorageOrder.mem_reorder] at hmem
      exact .inr hmem

theorem callValue_reads (h : Marshalled target a p x) :
    x.argument.callValue.reads ⊆ x.argument.native.name :: x.argument.paramNames := by
  intro n hn
  cases h with
  | direct native => exact List.mem_cons.2 (.inl (List.mem_singleton.1 hn))
  | handle native ptr => exact List.mem_cons.2 (.inl (List.mem_singleton.1 hn))
  | sequence native ptr length => exact List.mem_cons.2 (.inl (List.mem_singleton.1 hn))
  | array native ptr shape strides viewAlias =>
    rw [Argument.paramNames_of_pointer rfl, List.mem_cons, List.mem_cons, List.mem_append]
    rcases List.mem_cons.1 hn with hn | hn
    · exact .inl hn
    · exact .inr (.inr (.inr ((StorageOrder.mem_reorder _ _).1 (mem_of_mem_slices hn))))

theorem native_bound (h : Marshalled target a p x) :
    x.argument.native.name ∈ x.argument.paramNames ∨ ∃ s, x.rebuild = some s ∧ x.argument.native.name ∈ s.binds := by
  cases h with
  | direct native => exact .inl List.mem_cons_self
  | _ => exact .inr ⟨_, rfl, List.mem_cons_self⟩

theorem passedValue_reads (x : MarshalledArgument) (h : Marshalled target a p x) :
    x.passedValue.reads ⊆ x.viewAlias.toList ++ x.argument.native.name :: x.argument.paramNames := by
  unfold MarshalledArgument.passedValue
  cases x.viewAlias with
  | none => exact h.callValue_reads
  | some view => exact fun n hn => List.mem_append_left _ hn

end Marshalled

theorem CallSite.bindView_eq {x : MarshalledArgument} {s : Stmt} (h : CallSite.bindView x = some s) :
    ∃ view, x.viewAlias = some view ∧ s = .aliasAssign (.var view) x.argument.callValue := by
  obtain ⟨view, hview, rfl⟩ := Option.map_eq_some_iff.1 h
  exact ⟨view, hview, rfl⟩

theorem CallSite.exists_of_mem_actualReads {live : List MarshalledArgument} {n : String}
    (h : n ∈ actualReads (actuals live)) : ∃ x ∈ live, n ∈ x.passedValue.reads := by
  induction live with
  | nil => cases h
  | cons x live ih =>
    rcases List.mem_append.1 h with h | h
    · exact ⟨x, List.mem_cons_self, h⟩
    · obtain ⟨y, hy, h⟩ := ih h
      exact ⟨y, List.mem_cons_of_mem _ hy, h⟩

namespace Interpreter

open Exec CallSite AbiBridge.Frame

variable (it : Interpreter) {f : Frame} {live : List MarshalledArgument}

theorem preparation_resolves (hlive : ∀ x ∈ live, ∃ a p, Marshalled it.target a p x)
    (hparams : ∀ x ∈ live, f.Binds x.argument.paramNames) :
    Resolves (fun f' => Gains [] f f' ∧ ∀ x ∈ live, f'.Binds (x.argument.native.name :: x.viewAlias.toList))
      (it.execBlock f (preparation live)) := by
  have hcalls : blockCalls (preparation live) = 0 := by
    refine blockCalls_eq_zero.2 fun s hs => ?_
    rcases mem_preparation.1 hs with ⟨x, hx, hs⟩ | ⟨x, hx, hs⟩ <;> obtain ⟨a, p, hm⟩ := hlive x hx
    · obtain ⟨ptr, sizes, rfl, hsizes⟩ := hm.rebuild_eq hs
      exact hsizes
    · obtain ⟨view, -, rfl⟩ := bindView_eq hs
      simp only [Stmt.callCount, Expr.callCount, hm.callCount_callValue]
  have hneeds : f.Binds (needsAll (preparation live)) := by
    intro n hn
    rcases mem_needsAll_append.1 hn with hn | ⟨hn, hnot⟩ <;> obtain ⟨s, hs, hn⟩ := exists_of_mem_needsAll hn <;>
      obtain ⟨x, hx, hs⟩ := List.mem_filterMap.1 hs <;> rw [mem_receiverFirst] at hx <;>
      obtain ⟨a, p, hm⟩ := hlive x hx
    · exact hparams x hx n (hm.rebuild_needs hs hn)
    · -- a view reads the native value, which is rebuilt before unless it is a parameter
      obtain ⟨view, -, rfl⟩ := bindView_eq hs
      rw [Stmt.needs, Expr.targetReads_var, List.append_nil] at hn
      rcases List.mem_cons.1 (hm.callValue_reads hn) with rfl | hn
      · rcases hm.native_bound with hn | ⟨s, hs, hn⟩
        · exact hparams x hx _ hn
        · refine absurd (List.mem_flatMap.2 ⟨s, List.mem_filterMap.2 ⟨x, mem_receiverFirst.2 hx, hs⟩, hn⟩) hnot
      · exact hparams x hx n hn
  refine (it.execBlock_resolves _ hcalls hneeds).mono fun f' hf' => ⟨hf'.mono (List.nil_subset _), fun x hx => ?_⟩
  have hbinds : ∀ s ∈ preparation live, f'.Binds s.binds := fun s hs =>
    hf'.bound.mono fun n hn => List.mem_flatMap.2 ⟨s, hs, hn⟩
  obtain ⟨a, p, hm⟩ := hlive x hx
  refine binds_cons.2 ⟨?_, fun view hview => ?_⟩
  · rcases hm.native_bound with hn | ⟨s, hs, hn⟩
    · exact hf'.kept _ (hparams x hx _ hn)
    · exact hbinds s (mem_preparation.2 (.inl ⟨x, hx, hs⟩)) _ hn
  · have hs : bindView x = some (.aliasAssign (.var view) x.argument.callValue) := by
      rw [bindView, Option.mem_toList.1 hview, Option.map_some]
    exact hbinds _ (mem_preparation.2 (.inr ⟨x, hx, hs⟩)) view List.mem_cons_self

theorem actuals_finds (hlive : ∀ x ∈ live, ∃ a p, Marshalled it.target a p x)
    (hbound : ∀ x ∈ live, f.Binds (x.viewAlias.toList ++ x.argument.native.name :: x.argument.paramNames)) :
    Finds (it.evalActuals f 0 (actuals live)) := by
  refine it.evalActuals_finds (actualCalls_actuals hlive) ?_ 0
  intro n hn
  obtain ⟨x, hx, hn⟩ := exists_of_mem_actualReads hn
  obtain ⟨a, p, hm⟩ := hlive x hx
  exact hbound x hx n (hm.passedValue_reads x hn)

theorem vars_of_targets (ts : List CallTarget) : targetsAll (ts.map fun t => .var t.name) = ts.map (·.name) ∧
    targetReadsAll (ts.map fun t => .var t.name) = [] ∧ exprCalls (ts.map fun t => .var t.name) = 0 := by
  induction ts with
  | nil => exact ⟨rfl, rfl, rfl⟩
  | cons t ts ih => simp [targetsAll, targetReadsAll, exprCalls, Expr.targets, Expr.callCount, ih]

theorem bindTargets_resolves (targets : List CallTarget) (f : Frame) (v : Value) :
    Resolves (Gains (targets.map (·.name)) f) (it.bindTargets targets f v) := by
  unfold bindTargets
  split
  · exact .pure (.refl f)
  · exact it.assign_resolves _ _ v rfl fun _ h => absurd h List.not_mem_nil
  · obtain ⟨hnames, hreads, hcalls⟩ := vars_of_targets targets
    have hcount : (Expr.tuple (targets.map fun t => .var t.name)).callCount = 0 := hcalls
    have hbinds : f.Binds (Expr.tuple (targets.map fun t => .var t.name)).targetReads := by
      rw [Expr.targetReads, hreads]
      exact fun _ h => absurd h List.not_mem_nil
    have hassign := it.assign_resolves true _ v hcount hbinds
    rwa [Expr.targets, hnames] at hassign

end Interpreter

/-! ### Results -/

theorem flatMap_binds_zipWith {β : Type} {g : β → Expr} {xs : List String} {ys : List β} (h : xs.length ≤ ys.length) :
    (List.zipWith (fun out y => Stmt.assign (.var out) (g y)) xs ys).flatMap Stmt.binds = xs := by
  induction xs generalizing ys with
  | nil => rfl
  | cons x xs ih =>
    cases ys with
    | nil => simp at h
    | cons y ys =>
      rw [List.zipWith_cons_cons, List.flatMap_cons, ih (by simpa using h)]
      rfl

theorem exists_of_mem_needsAll_zipWith {β : Type} {g : β → Expr} {xs : List String} {ys : List β} {n : String}
    (h : n ∈ needsAll (List.zipWith (fun out y => Stmt.assign (.var out) (g y)) xs ys)) :
    ∃ y ∈ ys, n ∈ (g y).reads := by
  induction xs generalizing ys with
  | nil => cases h
  | cons x xs ih =>
    cases ys with
    | nil => cases h
    | cons y ys =>
      rw [List.zipWith_cons_cons] at h
      rcases mem_needsAll_cons.1 h with h | ⟨h, -⟩
      · exact ⟨y, List.mem_cons_self, by simpa [Stmt.needs, Expr.targetReads] using h⟩
      · obtain ⟨z, hz, hn⟩ := ih h
        exact ⟨z, List.mem_cons_of_mem _ hz, hn⟩

theorem binds_assignShapes (order native : StorageOrder) (value : String) (shape : List String) :
    (assignShapes order native value shape).flatMap Stmt.binds = shape :=
  flatMap_binds_zipWith (by simp)

theorem needs_assignShapes {order native : StorageOrder} {value n : String} {shape : List String}
    (h : n ∈ needsAll (assignShapes order native value shape)) : n = value := by
  obtain ⟨dim, -, hn⟩ := exists_of_mem_needsAll_zipWith h
  exact List.mem_singleton.1 hn

theorem needs_fillBody {target : Target} {array counter element n : String} {isSet : Bool}
    (h : n ∈ needsAll (fillBody target array counter element isSet)) : n = element ∨ n = array ∨ n = counter := by
  have hposition : ∀ m, m ∈ (nativePosition target counter).reads → m = counter := by
    intro m hm
    unfold nativePosition at hm
    split at hm
    · exact List.mem_singleton.1 hm
    · simpa [Expr.reads] using hm
  obtain ⟨s, hs, hn⟩ := exists_of_mem_needsAll h
  have hcases : s = .assign (.index array [.element (nativePosition target counter)]) (.var element) ∨
      s = .assign (.var counter) (.add (.var counter) (.int 1)) := by
    cases isSet <;> simp [fillBody] at hs <;> tauto
  rcases hcases with rfl | rfl
  · simp only [Stmt.needs, Expr.reads, Expr.targetReads, subscriptReads, Subscript.reads, List.append_nil,
      List.singleton_append, List.mem_cons] at hn
    rcases hn with hn | hn | hn
    · exact .inl hn
    · exact .inr (.inl hn)
    · exact .inr (.inr (hposition n hn))
  · simp only [Stmt.needs, Expr.reads, Expr.targetReads_var, List.append_nil, List.mem_singleton] at hn
    exact .inr (.inr hn)

theorem needs_fillStmts {target : Target} {source array counter element n : String} {isSet : Bool}
    (h : n ∈ needsAll (fillStmts target source array counter element isSet)) : n = source ∨ n = array := by
  rcases mem_needsAll_cons.1 h with h | ⟨h, hcounter⟩
  · cases h
  obtain ⟨s, hs, h⟩ := exists_of_mem_needsAll h
  rw [List.mem_singleton.1 hs, Stmt.needs] at h
  rcases List.mem_cons.1 h with h | h
  · exact .inl h
  · -- the loop binds the element, and the counter is set before it
    obtain ⟨h, helement⟩ := List.mem_filter.1 h
    rcases needs_fillBody h with rfl | h | rfl
    · simp at helement
    · exact .inr h
    · exact absurd List.mem_cons_self hcounter

namespace OwnedResult

variable {n : OwnedResult} {target : Target} {r : Semantic.Result} {copy : List Stmt}

theorem needs_deferred (hcopy : ∀ x ∈ needsAll copy, x = n.value ∨ x = n.held) {x : String}
    (h : x ∈ needsAll (n.marshalled target r copy).deferred) : x = n.value := by
  rcases mem_needsAll_append.1 h with h | ⟨h, -⟩
  · rcases mem_needsAll_append.1 h with h | ⟨h, hshape⟩
    · exact needs_assignShapes h
    · rw [binds_assignShapes] at hshape
      rcases mem_needsAll_cons.1 h with h | ⟨h, hheld⟩
      · rw [Stmt.needs, mem_exprReads_vars, StorageOrder.mem_reorder] at h
        exact absurd h hshape
      · exact (hcopy x h).resolve_right fun heq => hheld (List.mem_singleton.2 heq)
  · cases h

theorem binds_deferred : n.ptr :: n.shape ⊆ (n.marshalled target r copy).deferred.flatMap Stmt.binds := by
  intro x hx
  simp only [marshalled, List.flatMap_append, binds_assignShapes]
  rcases List.mem_cons.1 hx with rfl | hx
  · exact List.mem_append_right _ List.mem_cons_self
  · exact List.mem_append_left _ (List.mem_append_left _ hx)

end OwnedResult

namespace ResultSource

/-- The parameters that give the extents of a result in place. -/
def shapeParams : ResultSource → List String
  | .inPlace a => a.shapeParams
  | _ => []

variable {source : ResultSource} {target : Target} {r : Semantic.Result} {native : String} {shape : List String}

theorem binds_measure (hshape : shape.length = r.type.rank) :
    (source.measure target r native shape).flatMap Stmt.binds = shape := by
  unfold measure
  split
  · split
    · rename_i hrank
      exact flatMap_binds_zipWith (by omega)
    · exact binds_assignShapes _ _ _ _
  · exact binds_assignShapes _ _ _ _

theorem needs_measure {n : String} (h : n ∈ needsAll (source.measure target r native shape)) :
    n ∈ source.shapeParams ∨ n = native := by
  unfold measure at h
  split at h
  · split at h
    · obtain ⟨y, hy, hn⟩ := exists_of_mem_needsAll_zipWith h
      rw [List.mem_singleton.1 hn]
      exact .inl hy
    · exact .inr (needs_assignShapes h)
  · exact .inr (needs_assignShapes h)

theorem needs_measure_inPlace {a : MarshalledArgument} (hrank : a.shapeParams.length = r.type.rank) {n : String}
    (h : n ∈ needsAll ((inPlace a).measure target r native shape)) : n ∈ a.shapeParams := by
  unfold measure at h
  simp only at h
  rw [if_pos hrank] at h
  obtain ⟨y, hy, hn⟩ := exists_of_mem_needsAll_zipWith h
  rwa [List.mem_singleton.1 hn]

end ResultSource

namespace Delivered

variable {target : Target} {r : Semantic.Result} {source : ResultSource} {p : Delivery} {d : MarshalledResult}
  {ns : ResultNames} {n : String} {a : MarshalledArgument}

theorem needs_deferred (h : Delivered target r source p d ns) (hn : n ∈ needsAll d.deferred) :
    n ∈ source.shapeParams ∨ n = d.result.native.name := by
  cases h with
  | direct value => cases hn
  | kept value ptr shape =>
    rcases mem_needsAll_append.1 hn with hn | ⟨hn, -⟩
    · exact ResultSource.needs_measure hn
    · cases hn
  | whole o =>
    refine .inr (o.needs_deferred (fun x hx => .inl ?_) hn)
    obtain ⟨s, hs, hx⟩ := exists_of_mem_needsAll hx
    rw [List.mem_singleton.1 hs] at hx
    simpa [Stmt.needs, Expr.reads] using hx
  | filled o isSet counter element => exact .inr (o.needs_deferred (fun x hx => needs_fillStmts hx) hn)

/-- A result in place takes its extents from the parameters, if there are as many as it needs. -/
theorem needs_inPlace (h : Delivered target r (.inPlace a) p d ns) (hrank : a.shapeParams.length = r.type.rank)
    (hn : n ∈ needsAll d.deferred) : n ∈ a.shapeParams := by
  cases h with
  | direct value => cases hn
  | kept value ptr shape =>
    rcases mem_needsAll_append.1 hn with hn | ⟨hn, -⟩
    · exact ResultSource.needs_measure_inPlace hrank hn
    · cases hn
  | whole o hcopies => cases hcopies
  | filled o isSet counter element hcopies => cases hcopies

theorem output_bound (h : Delivered target r source p d ns) {q : Parameter} (hq : q ∈ d.result.outputs) :
    (p = .direct ∧ q.name = d.result.native.name) ∨ q.name ∈ d.deferred.flatMap Stmt.binds := by
  have hpointer : ∀ {ptr shape}, d.result.abi = .pointer ptr shape → q.name ∈ ptr :: shape := by
    intro ptr shape habi
    simp only [Result.outputs, Result.slot, Result.shapeParams, habi] at hq
    rcases List.mem_cons.1 hq with rfl | hq
    · exact List.mem_cons_self
    · obtain ⟨n, hn, rfl⟩ := List.mem_map.1 hq
      exact List.mem_cons_of_mem _ hn
  cases h with
  | direct value =>
    rw [List.mem_singleton.1 hq]
    exact .inl ⟨rfl, rfl⟩
  | kept value ptr shape hd hcopies hshape =>
    refine .inr ?_
    rw [List.flatMap_append, ResultSource.binds_measure hshape]
    rcases List.mem_cons.1 (hpointer rfl) with hq | hq
    · exact List.mem_append_right _ (List.mem_singleton.2 hq)
    · exact List.mem_append_left _ hq
  | whole o => exact .inr (o.binds_deferred (hpointer rfl))
  | filled o isSet counter element => exact .inr (o.binds_deferred (hpointer rfl))

theorem native_call (h : Delivered target r .call p d ns) : ∃ t, d.target = some t ∧ t.name = d.result.native.name := by
  cases h <;> exact ⟨_, rfl, rfl⟩

theorem native_inPlace (h : Delivered target r (.inPlace a) p d ns) : d.result.native = a.argument.native := by
  cases h with
  | direct value => rfl
  | kept value ptr shape => rfl
  | whole o hcopies => cases hcopies
  | filled o isSet counter element hcopies => cases hcopies

end Delivered

theorem Marshalled.length_shapeParams {target : Target} {a : Semantic.Argument} {p : Passing} {x : MarshalledArgument}
    (hp : Passing.of? a.type a.optional = some p) (h : Marshalled target a p x) :
    x.shapeParams.length = a.type.rank := by
  cases h with
  | array native ptr shape strides viewAlias hshape => exact hshape
  | _ =>
    cases htype : a.type <;> rw [htype] at hp <;> cases ho : a.optional <;> rw [ho] at hp <;>
      first | rfl | cases hp

theorem MarshalledArgument.shapeParams_subset (x : MarshalledArgument) : x.shapeParams ⊆ x.argument.paramNames := by
  intro n hn
  unfold shapeParams at hn
  split at hn
  · rename_i habi
    rw [Argument.paramNames_of_pointer habi]
    exact List.mem_cons_of_mem _ (List.mem_append_left _ hn)
  · cases hn

theorem Job.sourceOf_cases (arguments : List MarshalledArgument) (r : Semantic.Result) :
    Job.sourceOf arguments r = .call ∨
      ∃ a ∈ arguments, Job.sourceOf arguments r = .inPlace a ∧ r.isArgument = true ∧ r.name = a.name := by
  rcases Job.sourceOf_eq arguments r with ⟨hplace, a, hsource⟩ | ⟨-, hsource⟩
  · obtain ⟨ha, hname⟩ := Job.sourceOf_inPlace hsource
    exact .inr ⟨a, ha, hsource, (Bool.and_eq_true_iff.1 hplace).1, hname.symm⟩
  · exact .inl hsource

/-! ### Calls -/

/-- The argument is optional and its pointer is null. -/
def Wrapper.Argument.isAbsent (x : Wrapper.Argument) (f : Frame) : Bool :=
  x.isOptional && (x.pointer?.bind f.locals.get?).any Value.isNull

theorem MarshalledArgument.isLive_eq (f : Frame) (x : MarshalledArgument) : x.isLive f = !x.argument.isAbsent f := by
  rw [isLive, Argument.isAbsent, Bool.not_and]

/-- The frame holds the parameters of all arguments, and the native values of the live ones. -/
structure Frame.Holding (arguments live : List MarshalledArgument) (f : Frame) : Prop where
  params : ∀ x ∈ arguments, f.Binds x.argument.paramNames
  natives : ∀ x ∈ live, (f.locals.get? x.argument.native.name).isSome

theorem Frame.Holding.gains {arguments live : List MarshalledArgument} {names : List String} {f f' : Frame}
    (h : f.Holding arguments live) (hg : Gains names f f') : f'.Holding arguments live :=
  ⟨fun x hx => hg.binds (h.params x hx), fun x hx => hg.kept _ (h.natives x hx)⟩

/-- The names of the outputs and of the return slot. -/
def Wrapper.Function.deliveredNames (w : Wrapper.Function) : List String :=
  w.signature.outputs.map (·.name) ++ w.signature.returns.name?.toList

theorem Wrapper.Function.exists_delivered (w : Wrapper.Function) {n : String} (h : n ∈ w.deliveredNames) :
    (∃ a ∈ w.arguments, ∃ p ∈ a.params, p.name = n) ∨ ∃ r ∈ w.results, ∃ p ∈ r.outputs, p.name = n := by
  refine Function.exists_param ?_
  rcases List.mem_append.1 h with h | h
  · obtain ⟨p, hp, rfl⟩ := List.mem_map.1 h
    exact List.mem_append_left _ (List.mem_map_of_mem (List.mem_filter.1 hp).1)
  · exact List.mem_append_right _ h

/-- No absent argument is returned in place as a scalar. -/
def NullInPlace (job : Job) (w : Wrapper.Function) (f : Frame) : Prop :=
  ∀ x ∈ w.arguments, x.isAbsent f = true → ∀ r ∈ job.function.results, r.isArgument = true →
    r.name = x.declared.name → r.type.isScalar = false

/-- A result in place has the type of the argument. -/
def TypedInPlace (function : Semantic.Function) : Prop :=
  ∀ r ∈ function.results, r.isArgument = true → ∀ a ∈ function.arguments, a.name = r.name → a.type = r.type

namespace Lowering

open Interpreter CallSite AbiBridge.Frame

variable {it : Interpreter} {job : Job} {t t' : ScopeTree} {w : Wrapper.Function} {arguments : List MarshalledArgument}
  {made : List (MarshalledResult × ResultNames)} {inputs : List Value} {m : Machine} {f : Frame}

theorem deliverable (h : Lowering it.target job t t' w arguments made) (htyped : TypedInPlace job.function)
    (hnull : NullInPlace job w (entry w inputs))
    (hf : f.Holding arguments (Lowered.liveAt w inputs arguments))
    (htargets : f.Binds ((made.filterMap (·.1.target)).map (·.name))) {d : MarshalledResult × ResultNames}
    (hd : d ∈ made) :
    ∃ r p, Delivered it.target r (Job.sourceOf arguments r) p d.1 d.2 ∧ f.Binds (needsAll d.1.deferred) ∧
      (p = .direct → (f.locals.get? d.1.result.native.name).isSome) := by
  obtain ⟨r, hr, p, hp, hdel⟩ := exists_of_forall₂_right h.delivered hd
  refine ⟨r, p, hdel, ?_⟩
  rcases Job.sourceOf_cases arguments r with hsource | ⟨a, ha, hsource, hflag, hname⟩ <;> rw [hsource] at hdel
  · obtain ⟨c, hc, hcname⟩ := hdel.native_call
    have hnative : (f.locals.get? d.1.result.native.name).isSome := by
      refine htargets _ (List.mem_map.2 ⟨c, List.mem_filterMap.2 ⟨d, hd, hc⟩, hcname⟩)
    refine ⟨fun n hn => ?_, fun _ => hnative⟩
    rcases hdel.needs_deferred hn with hn | rfl
    · cases hn
    · exact hnative
  · have hparams : f.Binds a.shapeParams := (hf.params a ha).mono a.shapeParams_subset
    cases habsent : a.argument.isAbsent (entry w inputs) with
    | false =>
      have hlive : a ∈ Lowered.liveAt w inputs arguments :=
        List.mem_filter.2 ⟨ha, by rw [a.isLive_eq, habsent]; rfl⟩
      have hnative : (f.locals.get? d.1.result.native.name).isSome := by
        rw [hdel.native_inPlace]
        exact hf.natives a hlive
      refine ⟨fun n hn => ?_, fun _ => hnative⟩
      rcases hdel.needs_deferred hn with hn | rfl
      · exact hparams n hn
      · exact hnative
    | true =>
      obtain ⟨b, hb, q, hq, hm⟩ := exists_of_forall₂_right h.marshalled ha
      have hmem : a.argument ∈ w.arguments := h.arguments_eq ▸ List.mem_map_of_mem ha
      have hscalar := hnull _ hmem habsent r hr hflag hname
      have htype : b.type = r.type := by
        refine htyped r hr hflag b hb ?_
        rw [hname, MarshalledArgument.name, hm.declared_eq]
      refine ⟨fun n hn => hparams n (hdel.needs_inPlace ?_ hn), ?_⟩
      · rw [← htype]
        exact hm.length_shapeParams hq
      · rintro rfl
        obtain ⟨kind, hkind⟩ := Delivery.of?_eq_direct.1 hp
        rw [hkind] at hscalar
        cases hscalar

theorem release_needs (h : Lowering it.target job t t' w arguments made)
    (hreceiver : ∀ a ∈ job.function.arguments, a.bound = true → a.optional = false)
    (hf : f.Holding arguments (Lowered.liveAt w inputs arguments)) :
    f.Binds (needsAll (Job.release job.function arguments)) := by
  intro n hn
  obtain ⟨s, hs, hn⟩ := exists_of_mem_needsAll hn
  unfold Job.release at hs
  split at hs
  · split at hs
    · rename_i a ha
      rw [List.mem_singleton.1 hs] at hn
      rw [List.mem_singleton.1 hn]
      have hmem := List.mem_of_find?_eq_some ha
      obtain ⟨b, hb, q, -, hm⟩ := exists_of_forall₂_right h.marshalled hmem
      have hbound := List.find?_some ha
      simp only [Argument.isBound, hm.declared_eq] at hbound
      -- the receiver is not optional, so it is live
      have hoptional : a.argument.isOptional = false := by
        rw [Argument.isOptional, hm.declared_eq]
        exact hreceiver b hb hbound
      refine hf.natives a (List.mem_filter.2 ⟨hmem, ?_⟩)
      rw [a.isLive_eq, Argument.isAbsent, hoptional]
      rfl
    · cases hs
  · cases hs

theorem tail_resolves (h : Lowering it.target job t t' w arguments made) (htyped : TypedInPlace job.function)
    (hnull : NullInPlace job w (entry w inputs))
    (hreceiver : ∀ a ∈ job.function.arguments, a.bound = true → a.optional = false)
    (hf : f.Holding arguments (Lowered.liveAt w inputs arguments)) (v : Value) :
    Resolves (fun f' => f'.Binds w.deliveredNames) (do
      let f ← it.bindTargets ((made.map (·.1)).filterMap (·.target)) f v
      let f ← it.execBlock f ((made.map (·.1)).flatMap (·.deferred))
      it.execBlock f (Job.release job.function arguments) : Exec Frame) := by
  have hcalls := h.lowered.blockCalls_deferred
  rw [List.flatMap_map] at hcalls
  rw [List.filterMap_map, List.flatMap_map]
  refine .bind (it.bindTargets_resolves _ f v) fun f₁ hf₁ => ?_
  have hhold₁ := hf.gains hf₁
  have hready := fun d hd => h.deliverable (d := d) htyped hnull hhold₁ hf₁.bound hd
  have hneeds : f₁.Binds (needsAll (made.flatMap (·.1.deferred))) := by
    intro n hn
    obtain ⟨d, hd, hn⟩ := exists_of_mem_needsAll_flatMap hn
    obtain ⟨r, p, -, hbinds, -⟩ := hready d hd
    exact hbinds n hn
  refine .bind (it.execBlock_resolves _ hcalls hneeds) fun f₂ hf₂ => ?_
  have hhold₂ := hhold₁.gains hf₂
  have hrelease := h.release_needs hreceiver hhold₂
  refine (it.execBlock_resolves _ (Lowered.blockCalls_release _ _) hrelease).mono fun f₃ hf₃ => hf₃.binds fun n hn => ?_
  rcases w.exists_delivered hn with ⟨a, ha, q, hq, rfl⟩ | ⟨r, hr, q, hq, rfl⟩
  · rw [h.arguments_eq] at ha
    obtain ⟨x, hx, rfl⟩ := List.mem_map.1 ha
    exact hhold₂.params x hx _ (List.mem_map_of_mem hq)
  · rw [h.results_eq] at hr
    obtain ⟨d, hd, rfl⟩ := List.mem_map.1 hr
    obtain ⟨r, p, hdel, -, hdirect⟩ := hready d hd
    rcases hdel.output_bound hq with ⟨hp, hname⟩ | hbound
    · rw [hname]
      exact hf₂.kept _ (hdirect hp)
    · refine hf₂.bound _ ?_
      rw [List.flatMap_assoc]
      exact List.mem_flatMap.2 ⟨d, hd, hbound⟩

/-- The call is prepared in a frame that holds what is needed, or the body stops before it with another trap. -/
theorem prepared_or_stops (h : Lowering it.target job t t' w arguments made)
    (hl : (w.signature.inputs.map (·.name)).length = inputs.length) :
    (∃ f args, Lowered.Prepared it w arguments inputs m f args ∧
        f.Holding arguments (Lowered.liveAt w inputs arguments)) ∨
      ∃ e, e.undefined? = none ∧ it.execBlock (entry w inputs) w.body m = (.error e, m) := by
  have hlow := h.lowered
  have hmarshalled : ∀ x ∈ Lowered.liveAt w inputs arguments, ∃ a p, Marshalled it.target a p x := hlow.live_marshalled
  have hparams : ∀ x ∈ arguments, (entry w inputs).Binds x.argument.paramNames := by
    intro x hx n hn
    have hmem : n ∈ w.signature.inputs.map (·.name) := by
      rw [hlow.inputs_eq]
      exact List.mem_flatMap.2 ⟨x, hx, hn⟩
    obtain ⟨v, hv⟩ := Bindings.exists_get?_ofPairs hl hmem
    exact Option.isSome_iff_exists.2 ⟨v, hv⟩
  rw [hlow.body_eq hl]
  have hprep := it.preparation_resolves hmarshalled (fun x hx => hparams x (List.mem_filter.1 hx).1) m
  rcases hf : it.execBlock (entry w inputs) (preparation (Lowered.liveAt w inputs arguments)) m with ⟨e | f, m₁⟩ <;>
    rw [hf] at hprep <;>
    obtain rfl : m₁ = m := (congrArg Prod.snd hf).symm.trans ((it.preparation_keeps hmarshalled _).state m)
  · exact .inr ⟨e, hprep, bind_error hf⟩
  obtain ⟨hgains, hnatives⟩ := hprep
  have hhold : f.Holding arguments (Lowered.liveAt w inputs arguments) :=
    ⟨fun x hx => hgains.binds (hparams x hx), fun x hx => (binds_cons.1 (hnatives x hx)).1⟩
  have hpassed : ∀ x ∈ Lowered.liveAt w inputs arguments,
      f.Binds (x.viewAlias.toList ++ x.argument.native.name :: x.argument.paramNames) := by
    intro x hx
    obtain ⟨hnative, hview⟩ := binds_cons.1 (hnatives x hx)
    exact binds_append.2 ⟨hview, binds_cons.2 ⟨hnative, hhold.params x (List.mem_filter.1 hx).1⟩⟩
  have hactuals := it.actuals_finds hmarshalled hpassed m₁
  rcases hargs : it.evalActuals f 0 (actuals (Lowered.liveAt w inputs arguments)) m₁ with ⟨e | args, m₂⟩ <;>
    rw [hargs] at hactuals <;>
    obtain rfl : m₂ = m₁ := (congrArg Prod.snd hargs).symm.trans
      ((it.evalActuals_keeps f (actualCalls_actuals hmarshalled) 0).state m₁)
  · exact .inr ⟨e, hactuals, by rw [bind_ok hf, bind_error hargs]⟩
  · exact .inl ⟨f, args, ⟨hl, hf, hargs⟩, hhold⟩

/-- The body of a wrapper traps on no undefined variable, and binds all that the wrapper delivers. -/
theorem body_resolved (h : Lowering it.target job t t' w arguments made) (hw : it.module.function? w.name = some w)
    (hl : (w.signature.inputs.map (·.name)).length = inputs.length) (htyped : TypedInPlace job.function)
    (hnull : NullInPlace job w (entry w inputs))
    (hreceiver : ∀ a ∈ job.function.arguments, a.bound = true → a.optional = false)
    (hhost : ∀ c callee host, (it.call w.name inputs m).2.calls = m.calls ++ [c] →
      it.hosts.resolve? job.origin.owner? job.callName = some (callee, host) →
      ∃ vs heap, host c.args c.heap = (.ok vs, heap)) :
    Resolved (fun f => f.Binds w.deliveredNames) (it.execBlock (entry w inputs) w.body m).1 := by
  rcases h.prepared_or_stops (m := m) hl with ⟨f, args, hp, hhold⟩ | ⟨e, he, hstop⟩
  · rw [h.lowered.body_eq hl, bind_ok hp.frame, bind_ok hp.actuals]
    cases hr : it.hosts.resolve? f.owner? job.callName with
    | none =>
      have hunknown : it.callHost f job.callName ⟨args⟩ m = (.error (.unknownCallable job.callName), m) := by
        simp only [callHost, hr]
        rfl
      rw [bind_error hunknown]
      rfl
    | some found =>
      obtain ⟨callee, host⟩ := found
      have hr' := hr
      rw [hp.owner? h.lowered] at hr'
      obtain ⟨vs, heap, hh⟩ := hhost _ callee host (h.lowered.calls_eq hw hr' hp) hr'
      rw [bind_ok (it.callHost_ok hr hh)]
      exact h.tail_resolves htyped hnull hreceiver hhold _ _
  · rw [hstop]
    exact he

end Lowering

namespace Interpreter

open AbiBridge.Frame

variable {it : Interpreter} {job : Job} {w : Wrapper.Function} {inputs : List Value} {m : Machine}

variable (it) in
theorem outcome_finds {f : Frame} (h : f.Binds w.deliveredNames) : Finds (it.outcome w f) := by
  obtain ⟨houtputs, hreturn⟩ := binds_append.1 h
  refine .bind_any (.ofExcept (resolved_mapM fun n hn => it.lookup_resolved (houtputs n hn))) fun _ =>
    .bind_any (.ofExcept ?_) fun _ => .pure trivial
  unfold returned
  split
  · trivial
  · rename_i name type hreturns
    have hname := it.lookup_resolved (hreturn name (by rw [hreturns]; exact List.mem_cons_self))
    cases hv : it.lookup f name with
    | ok v => trivial
    | error e => exact hname.of_error hv
  · trivial

/-- If no absent argument is returned in place as a scalar and the receiver is required, a call whose host returns traps
on no undefined variable, and all that it delivers is bound at the end of its body. -/
theorem call_finds_variables (hw : it.Wraps job w) (hl : w.signature.inputs.length = inputs.length)
    (htyped : TypedInPlace job.function) (hnull : NullInPlace job w (entry w inputs))
    (hreceiver : ∀ a ∈ job.function.arguments, a.bound = true → a.optional = false)
    (hhost : ∀ c callee host, (it.call w.name inputs m).2.calls = m.calls ++ [c] →
      it.hosts.resolve? job.origin.owner? job.callName = some (callee, host) →
      ∃ vs heap, host c.args c.heap = (.ok vs, heap)) :
    (∀ n, (it.call w.name inputs m).1 ≠ .error (.undefinedVariable n)) ∧
      ∀ f m', it.execBlock (entry w inputs) w.body m = (.ok f, m') →
        ∀ n ∈ w.signature.outputs.map (·.name) ++ w.signature.returns.name?.toList, (f.locals.get? n).isSome := by
  obtain ⟨t, t', hrun⟩ := hw.made
  obtain ⟨arguments, made, h⟩ := Job.run_lowering hrun
  have hl' : (w.signature.inputs.map (·.name)).length = inputs.length := by rw [List.length_map, hl]
  have hbody := h.body_resolved hw.found hl' htyped hnull hreceiver hhost
  refine ⟨fun n hn => ?_, fun f m' hf => ?_⟩
  · rw [it.call_eq_outcome hw.found hl'] at hn
    rcases hf : it.execBlock (entry w inputs) w.body m with ⟨e | f, m'⟩ <;> rw [hf] at hbody
    · rw [bind_error hf] at hn
      cases hn
      cases hbody
    · rw [bind_ok hf] at hn
      have hout := it.outcome_finds hbody m'
      rw [hn] at hout
      cases hout
  · rw [hf] at hbody
    exact hbody

/-! ### Arguments that are absent -/

/-- Changes those of its arguments that are given. -/
def adjust : Semantic.Function where
  name := "adjust"
  arguments := [
    { name := "step", type := .scalar .int32, optional := true },
    { name := "field", type := .array .int32 2 .rowMajor, optional := true, contiguous := true },
    { name := "tags", type := .list (.scalar .int32), optional := true }]
  results := [
    { name := "step", type := .scalar .int32, isArgument := true },
    { name := "field", type := .array .int32 2 .rowMajor, isArgument := true },
    { name := "tags", type := .list (.scalar .int32), isArgument := true },
    { name := "count", type := .scalar .int64 }]

def adjustPlan : CrossingPlan :=
  ⟨List.zip adjust.arguments [.handle, .array, .sequence],
    List.zip adjust.results [.direct, .copy, .fill false, .direct]⟩

/-- The step is given, the field and the tags are not. -/
def adjustInputs : List Value := [.ptr (some 0), .ptr none, .nat 2, .nat 3, .nat 1, .nat 1, .ptr none, .nat 0]

theorem adjust_typed : TypedInPlace adjust := by
  intro r hr _ a ha hname
  simp only [adjust, List.mem_cons, List.not_mem_nil, or_false] at hr ha
  rcases hr with rfl | rfl | rfl | rfl <;> rcases ha with rfl | rfl | rfl <;>
    first | rfl | exact absurd hname (by decide)

theorem call_finds_variables_adjust :
    (plainWrapper .fortran adjust adjustPlan).arguments.map
        (·.isAbsent (entry (plainWrapper .fortran adjust adjustPlan) adjustInputs)) = [false, true, true] ∧
      (∀ n, ((plainInterpreter .fortran adjust adjustPlan [.int 4]).call (plainWrapper .fortran adjust adjustPlan).name
        adjustInputs ⟨⟨[.buffer [.int 5]]⟩, []⟩).1 ≠ .error (.undefinedVariable n)) ∧
      ∃ f m', (plainInterpreter .fortran adjust adjustPlan [.int 4]).execBlock
          (entry (plainWrapper .fortran adjust adjustPlan) adjustInputs) (plainWrapper .fortran adjust adjustPlan).body
          ⟨⟨[.buffer [.int 5]]⟩, []⟩ = (.ok f, m') ∧
        ∀ n ∈ ["step", "bound_field_0001", "field_shape_1_0001", "field_shape_2_0001", "bound_tags_0001",
          "tags_shape_1_0001", "count"], (f.locals.get? n).isSome := by
  -- all that is evaluated stands in one fact, so that the wrapper is made once
  obtain ⟨hnull, hlength, habsent, hnames, hdone⟩ :
      (∀ x ∈ (plainWrapper .fortran adjust adjustPlan).arguments,
        x.isAbsent (entry (plainWrapper .fortran adjust adjustPlan) adjustInputs) = true →
          ∀ r ∈ adjust.results, r.isArgument = true → r.name = x.declared.name → r.type.isScalar = false) ∧
      (plainWrapper .fortran adjust adjustPlan).signature.inputs.length = adjustInputs.length ∧
      (plainWrapper .fortran adjust adjustPlan).arguments.map
        (·.isAbsent (entry (plainWrapper .fortran adjust adjustPlan) adjustInputs)) = [false, true, true] ∧
      (plainWrapper .fortran adjust adjustPlan).signature.outputs.map (·.name) ++
        (plainWrapper .fortran adjust adjustPlan).signature.returns.name?.toList = ["step", "bound_field_0001",
          "field_shape_1_0001", "field_shape_2_0001", "bound_tags_0001", "tags_shape_1_0001", "count"] ∧
      ((plainInterpreter .fortran adjust adjustPlan [.int 4]).execBlock
        (entry (plainWrapper .fortran adjust adjustPlan) adjustInputs) (plainWrapper .fortran adjust adjustPlan).body
        ⟨⟨[.buffer [.int 5]]⟩, []⟩).1.toOption.isSome = true := by
    decide +kernel
  obtain ⟨hcall, hbound⟩ := call_finds_variables (m := ⟨⟨[.buffer [.int 5]]⟩, []⟩)
    (plain_wraps .fortran adjust adjustPlan [.int 4] rfl) hlength adjust_typed hnull (by decide)
    fun c callee host _ hr => by
      obtain ⟨rfl, rfl⟩ := Prod.mk.inj (Option.some.inj hr)
      exact ⟨_, _, rfl⟩
  refine ⟨habsent, hcall, ?_⟩
  rcases hrun : (plainInterpreter .fortran adjust adjustPlan [.int 4]).execBlock
      (entry (plainWrapper .fortran adjust adjustPlan) adjustInputs) (plainWrapper .fortran adjust adjustPlan).body
      ⟨⟨[.buffer [.int 5]]⟩, []⟩ with ⟨e | f, m'⟩
  · rw [hrun] at hdone
    cases hdone
  · exact ⟨f, m', rfl, fun n hn => hbound f m' hrun n (by rwa [hnames])⟩

/-- Changes its argument, if it is given. -/
def bump : Semantic.Function where
  name := "bump"
  arguments := [{ name := "x", type := .scalar .int32, optional := true }]
  results := [{ name := "x", type := .scalar .int32, isArgument := true }]

def bumpPlan : CrossingPlan := ⟨List.zip bump.arguments [.handle], List.zip bump.results [.direct]⟩

/-- An absent scalar that is returned in place is read, though it was never bound. -/
theorem bump_absent :
    (plainInterpreter .fortran bump bumpPlan []).Wraps (functionJob bump) (plainWrapper .fortran bump bumpPlan) ∧
      (∀ r ∈ bump.results, r.isArgument = true ↔ ∃ a ∈ bump.arguments, a.name = r.name ∧ a.type = r.type) ∧
      ((plainInterpreter .fortran bump bumpPlan []).call (plainWrapper .fortran bump bumpPlan).name
        [.ptr none] {}).1 = .error (.undefinedVariable "x") := by
  refine ⟨plain_wraps .fortran bump bumpPlan [] rfl, by simp [bump], ?_⟩
  have hundefined : (match ((plainInterpreter .fortran bump bumpPlan []).call
      (plainWrapper .fortran bump bumpPlan).name [.ptr none] {}).1 with
    | .error e => e.undefined?
    | .ok _ => none) = some "x" := by decide +kernel
  split at hundefined
  · rename_i e he
    rw [he, Trap.eq_of_undefined? hundefined]
  · cases hundefined

end Interpreter

end AbiBridge
