import Mathlib
import AbiBridge.Proofs.ClosedBodies
import AbiBridge.Proofs.HeapHistory

/-!
# Receivers after destruction

Every method, getter and setter first looks at its receiver, so that a call on a freed cell traps before it does
anything (`MemberMade.call_freed`). A destructor that succeeds has freed what the name of its receiver stood for at the
end. That is the receiver, unless the wrapper gives its name to something else in between (`KeepsReceiver`,
`Lowering.freed_of_call`). As a freed cell stays freed, every call on the receiver of a destructor traps from then on
(`Session.call_traps_of_destroyed`).
-/

namespace AbiBridge

open Wrapper Run

/-! ### The value of a parameter -/

theorem Bindings.get?_foldl_of_count {α : Type} {names : List String} {values : List α} {n : String} {v : α}
    (hv : (names.zip values).lookup n = some v) (hcount : names.count n ≤ 1) (b : Bindings α) :
    ((names.zip values).foldl (fun b p => set p.1 p.2 b) b).get? n = some v := by
  induction names generalizing values b with
  | nil => cases hv
  | cons name names ih =>
    obtain _ | ⟨value, values⟩ := values
    · cases hv
    rw [List.zip_cons_cons, List.foldl_cons]
    rw [List.zip_cons_cons, List.lookup_cons] at hv
    by_cases hn : n = name
    · subst hn
      rw [beq_self_eq_true] at hv
      cases hv
      rw [get?_foldl_set, get?_set, if_pos rfl]
      intro hmem
      obtain ⟨p, hp, hpn⟩ := List.mem_map.1 hmem
      have hpos : 0 < names.count n := List.count_pos_iff.2 (hpn ▸ (List.of_mem_zip hp).1)
      rw [List.count_cons_self] at hcount
      omega
    · rw [beq_false_of_ne hn] at hv
      exact ih hv (List.count_le_count_cons.trans hcount) _

theorem MarshalledArgument.mem_receiver {arguments : List MarshalledArgument} {x : MarshalledArgument}
    (hx : arguments.filter (·.argument.isBound) = [x]) : x ∈ arguments ∧ x.argument.isBound = true :=
  List.mem_filter.1 (hx ▸ List.mem_cons_self : x ∈ arguments.filter (·.argument.isBound))

namespace Assembly

variable {target : Target} {t t' : ScopeTree} {w : Wrapper.Function} {arguments : List MarshalledArgument}
  {made : List (MarshalledResult × ResultNames)}

theorem count_pointer (h : Assembly target t t' w arguments made) {a : MarshalledArgument} (ha : a ∈ arguments)
    {ptr : String} (hptr : a.argument.pointer? = some ptr) : (w.signature.inputs.map (·.name)).count ptr ≤ 1 := by
  have hcompanion : ptr ∈ arguments.flatMap (·.companions) := by
    refine List.mem_flatMap.2 ⟨a, ha, ?_⟩
    obtain ⟨d, p, hm⟩ := h.marshalled a ha
    cases hm with
    | direct native => cases hptr
    | _ =>
      cases hptr
      exact List.mem_cons_self
  have hle : ∀ x ∈ arguments, x.argument.paramNames.count ptr ≤ x.companions.count ptr := by
    intro x hx
    obtain ⟨d, p, hm⟩ := h.marshalled x hx
    rcases hm.names_eq with ⟨hnone, -, -⟩ | ⟨-, hnames⟩
    · -- its one parameter is called by its native name
      cases hm with
      | direct native =>
        have hne := h.companion_ne_native (h.argument_native _ hx) (List.mem_append_left _ hcompanion)
        rw [List.count_eq_zero_of_not_mem]
        · exact Nat.zero_le _
        · exact fun hmem => hne (List.mem_singleton.1 hmem).symm
      | _ => cases hnone
    · rw [(List.cons.inj hnames).2]
      exact (List.sublist_append_left _ _).count_le _
  calc (w.signature.inputs.map (·.name)).count ptr
      = (arguments.map fun x => x.argument.paramNames.count ptr).sum := by rw [h.inputs_eq, List.count_flatMap]; rfl
    _ ≤ (arguments.map fun x => x.companions.count ptr).sum := List.sum_le_sum hle
    _ = (arguments.flatMap (·.companions)).count ptr := by rw [List.count_flatMap]; rfl
    _ ≤ 1 := List.nodup_iff_count_le_one.1 (List.nodup_append.1 h.roster.nodup).1 ptr

end Assembly

/-- The cell that the value given for the receiver denotes. -/
def Wrapper.Function.receiver? (w : Wrapper.Function) (inputs : List Value) : Option Handle := do
  let a ← w.arguments.find? (·.isBound)
  let ptr ← a.pointer?
  let v ← ((w.signature.inputs.map (·.name)).zip inputs).lookup ptr
  v.handle?

namespace Assembly

variable {target : Target} {t t' : ScopeTree} {w : Wrapper.Function} {arguments : List MarshalledArgument}
  {made : List (MarshalledResult × ResultNames)}

theorem entry_receiver (h : Assembly target t t' w arguments made) {x : MarshalledArgument}
    (hx : arguments.filter (·.argument.isBound) = [x]) {inputs : List Value} {o : Handle}
    (hreceives : w.receiver? inputs = some o) : ∃ ptr v, x.argument.pointer? = some ptr ∧
      (Interpreter.entry w inputs).locals.get? ptr = some v ∧ v.handle? = some o := by
  have hfind : w.arguments.find? (·.isBound) = some x.argument := by
    rw [h.arguments_eq, List.find?_map, ← List.head?_filter]
    change Option.map _ (arguments.filter (·.argument.isBound)).head? = _
    rw [hx]
    rfl
  obtain ⟨a, ha, hreceives⟩ := Option.bind_eq_some_iff.1 hreceives
  obtain ⟨ptr, hptr, hreceives⟩ := Option.bind_eq_some_iff.1 hreceives
  obtain ⟨v, hv, ho⟩ := Option.bind_eq_some_iff.1 hreceives
  cases hfind.symm.trans ha
  obtain ⟨hmem, -⟩ := MarshalledArgument.mem_receiver hx
  exact ⟨ptr, v, hptr, Bindings.get?_foldl_of_count hv (h.count_pointer hmem hptr) _, ho⟩

end Assembly

theorem Marshalled.handle_eq {target : Target} {a : Semantic.Argument} {x : MarshalledArgument}
    (h : Marshalled target a .handle x) : ∃ ptr, x.argument.pointer? = some ptr ∧
      x.rebuild = some (.reinterpret ptr x.argument.native.name []) ∧ x.argument.native.valueType? = some a.type := by
  cases h with
  | handle native ptr => exact ⟨ptr, rfl, rfl, rfl⟩

/-- The function has one receiver, which is an instance of the class. -/
def Semantic.Function.HasReceiver (f : Semantic.Function) (c : Semantic.Class) : Prop :=
  ∃ a, f.arguments.filter (·.bound) = [a] ∧ a.optional = false ∧ a.type = c.type

theorem Lowering.receiver {target : Target} {job : Job} {t t' : ScopeTree} {w : Wrapper.Function}
    {arguments : List MarshalledArgument} {made : List (MarshalledResult × ResultNames)}
    (h : Lowering target job t t' w arguments made) {c : Semantic.Class} (hc : job.function.HasReceiver c) :
    ∃ a x, arguments.filter (·.argument.isBound) = [x] ∧ a.optional = false ∧ a.type = c.type ∧
      Marshalled target a .handle x := by
  obtain ⟨a, ha, hopt, htype⟩ := hc
  rw [← h.declared_eq, List.filter_map] at ha
  obtain ⟨x, hx, hxa⟩ : ∃ x, arguments.filter (·.argument.isBound) = [x] ∧ x.argument.declared = a := by
    obtain ⟨x, xs, hx, hxa, hxs⟩ := List.map_eq_cons_iff.1 ha
    rw [List.map_eq_nil_iff.1 hxs] at hx
    exact ⟨x, hx, hxa⟩
  obtain ⟨hmem, -⟩ := MarshalledArgument.mem_receiver hx
  obtain ⟨d, -, p, hp, hm⟩ := exists_of_forall₂_right h.marshalled hmem
  obtain rfl : d = a := hm.declared_eq.symm.trans hxa
  rw [htype] at hp
  cases hp
  exact ⟨d, x, hx, hopt, htype, hm⟩

/-! ### Receivers that are freed -/

namespace CallSite

/-- The receiver is rebuilt first. -/
theorem preparation_cons {live : List MarshalledArgument} {x : MarshalledArgument} {s : Stmt}
    (hx : live.filter (·.argument.isBound) = [x]) (hs : x.rebuild = some s) :
    preparation live = s :: ((live.filter (!·.argument.isBound)).filterMap (·.rebuild) ++
      (receiverFirst live).filterMap bindView) := by
  rw [preparation, receiverFirst, hx, List.singleton_append, List.filterMap_cons_some hs, List.cons_append]

theorem filter_liveAt {w : Wrapper.Function} {inputs : List Value} {arguments : List MarshalledArgument}
    {x : MarshalledArgument} (hx : arguments.filter (·.argument.isBound) = [x])
    (hopt : x.argument.isOptional = false) :
    (Lowered.liveAt w inputs arguments).filter (·.argument.isBound) = [x] := by
  rw [Lowered.liveAt, List.filter_comm, hx, List.filter_cons_of_pos]
  · rfl
  · simp [MarshalledArgument.isLive, hopt]

end CallSite

namespace Interpreter

variable (it : Interpreter) {f : Frame} {m : Machine}

theorem exec_reinterpret_handle {ptr name : String} {v : Value} {h : Handle} (hptr : f.locals.get? ptr = some v)
    (hv : v.handle? = some h) :
    it.exec f (.reinterpret ptr name []) m = ((it.reinterpret m.heap f name h []).map (f.set name), m) := by
  simp only [exec]
  rw [it.lookup_of_get? hptr, bind_ok (ofExcept_apply _), hv]
  simp only [evalExtents, bind_apply, read_apply, pure_apply]
  cases it.reinterpret m.heap f name h [] <;> rfl

theorem execBlock_freed {ptr name : String} {v : Value} {h : Handle} (hptr : f.locals.get? ptr = some v)
    (hv : v.handle? = some h) (hfreed : m.heap.cell? h = some .freed) (rest : List Stmt) :
    it.execBlock f (.reinterpret ptr name [] :: rest) m = (.error (.danglingHandle h), m) := by
  have hreinterpret : it.reinterpret m.heap f name h [] = .error (.danglingHandle h) := by
    simp [reinterpret, Heap.isObject, Heap.buffer, hfreed]
  simp only [execBlock]
  rw [bind_error]
  rw [it.exec_reinterpret_handle hptr hv, hreinterpret]
  rfl

end Interpreter

section Freed

open Interpreter

variable {it : Interpreter} {t t' : ScopeTree} {w : Wrapper.Function} {inputs : List Value} {m : Machine} {h : Handle}

theorem Assembly.call_freed {arguments : List MarshalledArgument} {made : List (MarshalledResult × ResultNames)}
    (ha : Assembly it.target t t' w arguments made) {a : Semantic.Argument} {x : MarshalledArgument}
    (hx : arguments.filter (·.argument.isBound) = [x]) (hm : Marshalled it.target a .handle x) {rest : List Stmt}
    (hbody : w.body = x.rebuild.toList ++ rest) (hw : it.module.function? w.name = some w)
    (hl : (w.signature.inputs.map (·.name)).length = inputs.length) (hreceives : w.receiver? inputs = some h)
    (hfreed : m.heap.cell? h = some .freed) : it.call w.name inputs m = (.error (.danglingHandle h), m) := by
  obtain ⟨ptr, v, hptr, hv, ho⟩ := ha.entry_receiver hx hreceives
  obtain ⟨ptr', hptr', hrebuild, -⟩ := hm.handle_eq
  cases hptr.symm.trans hptr'
  rw [it.call_eq_outcome hw hl, hbody, hrebuild]
  exact bind_error (it.execBlock_freed hv ho hfreed rest)

theorem Lowering.preparation_eq {job : Job} {arguments : List MarshalledArgument}
    {made : List (MarshalledResult × ResultNames)} (hlow : Lowering it.target job t t' w arguments made)
    {a : Semantic.Argument} {x : MarshalledArgument} (hx : arguments.filter (·.argument.isBound) = [x])
    (hopt : a.optional = false) (hm : Marshalled it.target a .handle x) (hreceives : w.receiver? inputs = some h) :
    ∃ ptr v, (entry w inputs).locals.get? ptr = some v ∧ v.handle? = some h ∧
      CallSite.preparation (Lowered.liveAt w inputs arguments) = .reinterpret ptr x.argument.native.name [] ::
        (((Lowered.liveAt w inputs arguments).filter (!·.argument.isBound)).filterMap (·.rebuild) ++
          (CallSite.receiverFirst (Lowered.liveAt w inputs arguments)).filterMap CallSite.bindView) := by
  obtain ⟨ptr, v, hptr, hv, ho⟩ := hlow.assembly.entry_receiver hx hreceives
  obtain ⟨ptr', hptr', hrebuild, -⟩ := hm.handle_eq
  cases hptr.symm.trans hptr'
  refine ⟨ptr, v, hv, ho, CallSite.preparation_cons (CallSite.filter_liveAt hx ?_) hrebuild⟩
  rw [Argument.isOptional, hm.declared_eq]
  exact hopt

/-- Before it does anything, a wrapper of a method looks at its receiver. -/
theorem Lowering.call_freed {job : Job} {arguments : List MarshalledArgument}
    {made : List (MarshalledResult × ResultNames)} (hlow : Lowering it.target job t t' w arguments made)
    {c : Semantic.Class} (hc : job.function.HasReceiver c) (hw : it.module.function? w.name = some w)
    (hl : (w.signature.inputs.map (·.name)).length = inputs.length) (hreceives : w.receiver? inputs = some h)
    (hfreed : m.heap.cell? h = some .freed) : it.call w.name inputs m = (.error (.danglingHandle h), m) := by
  obtain ⟨a, x, hx, hopt, -, hm⟩ := hlow.receiver hc
  obtain ⟨ptr, v, hv, ho, hprep⟩ := hlow.preparation_eq hx hopt hm hreceives
  rw [hlow.lowered.call_eq hw hl, hprep]
  exact bind_error (it.execBlock_freed hv ho hfreed _)

theorem MemberMade.call_freed {c : Semantic.Class} (hmade : MemberMade it.target c t t' w)
    (hc : ∀ f ∈ c.methods, f.HasReceiver c) (hw : it.module.function? w.name = some w)
    (hl : (w.signature.inputs.map (·.name)).length = inputs.length) (hreceives : w.receiver? inputs = some h)
    (hfreed : m.heap.cell? h = some .freed) : it.call w.name inputs m = (.error (.danglingHandle h), m) := by
  cases hmade with
  | method f hf hrun =>
    obtain ⟨arguments, made, hlow⟩ := Job.run_lowering hrun
    exact hlow.call_freed (hc f (List.mem_filter.1 hf).1) hw hl hreceives hfreed
  | getter a ha delivery hd hrun =>
    obtain ⟨receiver, value, ha, hm, -, hbody⟩ := wrapGetter_assembly hrun
    refine ha.call_freed ?_ hm hbody hw hl hreceives hfreed
    rw [List.filter_singleton, Argument.isBound, hm.declared_eq]
    rfl
  | setter a ha passing hp hrun =>
    obtain ⟨receiver, value, ha, hm, hm', hbody⟩ := wrapSetter_assembly hrun
    rw [List.append_assoc] at hbody
    refine ha.call_freed ?_ hm hbody hw hl hreceives hfreed
    rw [List.filter_cons_of_pos, List.filter_cons_of_neg, List.filter_nil]
    · rw [Argument.isBound, hm'.declared_eq]
      simp [attributeArgument]
    · rw [Argument.isBound, hm.declared_eq]
      rfl

end Freed

/-! ### Names that the receiver may lose -/

/-- The results that a function returns from its call; the others are arguments that it changes in place. -/
def Semantic.Function.callResults (f : Semantic.Function) : List Semantic.Result :=
  f.results.filter fun r => !(r.isArgument && f.arguments.any (·.name == r.name))

/-- Between the start of a destructor and its end, its receiver's name is given to nothing else: no other argument of
that name is a pointer, and the one result of the call is no alias of that name. Where the receiver is no instance,
at most one result of the call has its name. -/
structure Semantic.Function.KeepsReceiver (f : Semantic.Function) (heap : Heap) (h : Handle) : Prop where
  argument : ∀ a ∈ f.arguments, a.bound = true → ∀ b ∈ f.arguments, b.bound = false → b.name = a.name →
    Passing.of? b.type b.optional = some .direct
  aliased : ∀ a ∈ f.arguments, a.bound = true → ∀ r, f.callResults = [r] → r.isAlias = true → r.name ≠ a.name
  result : heap.isObject h = true ∨
    ∀ a ∈ f.arguments, a.bound = true → (f.callResults.map (·.name)).count a.name ≤ 1

section Results

variable {target : Target} {r : Semantic.Result} {source : ResultSource} {delivery : Delivery} {d : MarshalledResult}
  {ns : ResultNames} {n : String}

theorem writes_zipWith {β : Type} {g : β → Expr} {xs : List String} {ys : List β}
    (h : n ∈ writesAll (List.zipWith (fun out y => Stmt.assign (.var out) (g y)) xs ys)) : n ∈ xs := by
  obtain ⟨s, hs, hn⟩ := mem_writesAll.1 h
  rw [← List.map_uncurry_zip_eq_zipWith] at hs
  obtain ⟨⟨out, y⟩, hmem, rfl⟩ := List.mem_map.1 hs
  rw [List.mem_singleton.1 hn]
  exact (List.of_mem_zip hmem).1

theorem writes_fillStmts {source array counter element : String} {isSet : Bool}
    (h : n ∈ writesAll (fillStmts target source array counter element isSet)) : n = counter ∨ n = element := by
  have hbody : n ∈ writesAll (fillBody target array counter element isSet) → n = counter := by
    intro hbody
    obtain ⟨s, hs, hn⟩ := mem_writesAll.1 hbody
    cases isSet with
    | false =>
      rw [List.mem_singleton.1 hs] at hn
      cases hn
    | true =>
      rcases List.mem_pair.1 hs with rfl | rfl
      · cases hn
      · exact List.mem_singleton.1 hn
  obtain ⟨s, hs, h⟩ := mem_writesAll.1 h
  rcases List.mem_pair.1 hs with rfl | rfl
  · exact .inl (List.mem_singleton.1 h)
  · rcases List.mem_cons.1 h with h | h
    · exact .inr h
    rcases List.mem_append.1 h with h | h
    · cases isSet with
      | false => exact .inl (List.mem_singleton.1 h)
      | true => cases h
    · exact .inl (hbody h)

theorem Delivered.writes_deferred (h : Delivered target r source delivery d ns) (hn : n ∈ writesAll d.deferred) :
    n ∈ ns.companions ∨ n ∈ ns.inner := by
  have howned : ∀ {o : OwnedResult} {copy : List Stmt}, n ∈ writesAll (o.marshalled target r copy).deferred →
      n ∈ o.companions ∨ n ∈ writesAll copy := by
    intro o copy hn
    simp only [mem_writesAll, OwnedResult.marshalled, List.mem_append, List.mem_cons, or_and_right, exists_or,
      exists_eq_left, List.not_mem_nil, or_false] at hn
    rcases hn with (hn | hn | hn) | hn
    · exact .inl (List.mem_cons_of_mem _ (List.mem_append_left _ (writes_zipWith (mem_writesAll.2 hn))))
    · rw [List.mem_singleton.1 hn]
      exact .inl (List.mem_cons_of_mem _ (List.mem_append_right _ List.mem_cons_self))
    · exact .inr (mem_writesAll.2 hn)
    · rw [List.mem_singleton.1 hn]
      exact .inl List.mem_cons_self
  cases h with
  | direct value => cases hn
  | kept value ptr shape =>
    refine .inl ?_
    simp only [mem_writesAll, List.mem_append, List.mem_singleton, or_and_right, exists_or, exists_eq_left] at hn
    rcases hn with hn | hn
    · refine List.mem_cons_of_mem _ ?_
      unfold ResultSource.measure at hn
      split at hn
      · split at hn
        · exact writes_zipWith (mem_writesAll.2 hn)
        · exact writes_zipWith (mem_writesAll.2 hn)
      · exact writes_zipWith (mem_writesAll.2 hn)
    · rw [List.mem_singleton.1 hn]
      exact List.mem_cons_self
  | whole o =>
    rcases howned hn with hn | hn
    · exact .inl hn
    · rw [List.mem_singleton.1 (show n ∈ [o.held] from hn)]
      exact .inl (List.mem_cons_of_mem _ (List.mem_append_right _ List.mem_cons_self))
  | filled o isSet counter element =>
    rcases howned hn with hn | hn
    · exact .inl (List.mem_append_left _ hn)
    · rcases writes_fillStmts hn with rfl | rfl
      · exact .inl (List.mem_append_right _ List.mem_cons_self)
      · exact .inr List.mem_cons_self

theorem Delivered.target_call (h : Delivered target r .call delivery d ns) :
    ∃ ct, d.target = some ct ∧ (ct.aliased = true → r.isAlias = true) := by
  cases h with
  | direct value => exact ⟨_, rfl, id⟩
  | kept value ptr shape => exact ⟨_, rfl, id⟩
  | whole o => exact ⟨_, rfl, nofun⟩
  | filled o isSet counter element => exact ⟨_, rfl, nofun⟩

theorem Delivered.target_inPlace {a : MarshalledArgument} (h : Delivered target r (.inPlace a) delivery d ns) :
    d.target = none := by
  cases h with
  | direct value => rfl
  | kept value ptr shape => rfl
  | whole o hcopies => cases hcopies
  | filled o isSet counter element hcopies => cases hcopies

end Results

namespace Lowering

variable {target : Target} {job : Job} {t t' : ScopeTree} {w : Wrapper.Function} {arguments : List MarshalledArgument}
  {made : List (MarshalledResult × ResultNames)}

theorem forall₂_targets (h : Lowering target job t t' w arguments made) :
    List.Forall₂ (fun r ct => t'.nameFor? w.scope r.name = some ct.name ∧ (ct.aliased = true → r.isAlias = true))
      job.function.callResults (made.filterMap (·.1.target)) := by
  have hany : ∀ r : Semantic.Result, job.function.arguments.any (·.name == r.name) =
      arguments.any (·.name == r.name) := by
    intro r
    rw [← h.declared_eq, List.any_map]
    rfl
  have hnative := h.result_native
  have hdelivered := h.delivered
  rw [Semantic.Function.callResults]
  clear h
  generalize job.function.results = results at hdelivered ⊢
  induction hdelivered with
  | nil => exact .nil
  | @cons r m rs ms hrm _ ih =>
    have ih := ih fun m hm => hnative m (List.mem_cons_of_mem _ hm)
    obtain ⟨p, -, hd⟩ := hrm
    rcases Job.sourceOf_eq arguments r with ⟨hplace, a, hsource⟩ | ⟨hplace, hsource⟩ <;>
      rw [hsource] at hd
    · rw [List.filter_cons_of_neg (by rw [hany, hplace]; simp), List.filterMap_cons, hd.target_inPlace]
      exact ih
    · obtain ⟨ct, htarget, halias⟩ := hd.target_call
      rw [List.filter_cons_of_pos (by rw [hany, hplace]; rfl), List.filterMap_cons, htarget]
      refine .cons ⟨?_, halias⟩ ih
      have hm := hnative m List.mem_cons_self
      rw [hd.declared_eq] at hm
      rw [hd.target_name htarget]
      exact hm

end Lowering

/-! ### What the name of the receiver stands for -/

/-- Freeing the value frees the cell `h`, or traps. -/
inductive Value.StandsFor (h : Handle) : Value → Prop
  | object : StandsFor h (.object h)
  | array (view : View) (hview : view.buffer = h) : StandsFor h (.array view)
  | pointer (q : Option Handle) : StandsFor h (.ptr q)

theorem Value.StandsFor.freed {h : Handle} {v : Value} (hv : v.StandsFor h) {heap heap' : Heap}
    (hfree : Interpreter.deallocate v heap = (.ok (), heap')) : heap'.cell? h = some .freed := by
  cases hv with
  | object => exact HeapM.cell?_of_free hfree
  | array view hview => exact hview ▸ HeapM.cell?_of_free hfree
  | pointer q => cases hfree

namespace Interpreter

open AbiBridge.Frame

variable (it : Interpreter) {f : Frame}

/-- A local of a class type is rebuilt as the instance, or else as an array on the cell. -/
theorem standsFor_of_reinterpret {heap : Heap} {name className : String} {h : Handle} {v : Value}
    (htype : f.declaredType? name = some (.object className)) (hv : it.reinterpret heap f name h [] = .ok v) :
    v.StandsFor h ∧ (∀ q, v ≠ .ptr q) ∧ (heap.isObject h = true → v = .object h) := by
  unfold reinterpret at hv
  split at hv
  · cases hv
    exact ⟨.object, nofun, fun _ => rfl⟩
  · rename_i hno
    split at hv
    · cases hv
    dsimp only at hv
    split at hv
    · cases hv
    · rw [htype] at hv
      cases hv
      exact ⟨.array _ rfl, nofun, fun h => absurd h hno⟩

/-- A copying assignment writes into the instance or the array that a variable holds, unless an array is replaced by a
pointer. -/
theorem assignVar_standsFor {n : String} {h : Handle} {held : Value} (hget : f.locals.get? n = some held)
    (hheld : held.StandsFor h) (hptr : ∀ q, held ≠ .ptr q) (v : Value) :
    Gives (fun f' => ∃ held', f'.locals.get? n = some held' ∧ held'.StandsFor h ∧
      (held = .object h → held' = .object h)) (assignVar true f n v) := by
  unfold assignVar
  rw [hget]
  cases hheld with
  | object => exact .bind_any fun _ => .pure ⟨_, hget, .object, id⟩
  | array view hview =>
    dsimp only
    split
    · exact .pure ⟨_, f.get?_set_self _ _, .pointer _, nofun⟩
    · exact .bind_any fun _ => .pure ⟨_, hget, .array view hview, id⟩
  | pointer q => exact absurd rfl (hptr q)

/-- A variable may be assigned to any number of times while it holds an instance, once while it holds an array and
never once it holds a pointer. -/
theorem assignAll_standsFor {n : String} {h : Handle} {held : Value} (targets : List CallTarget) (vs : List Value)
    (hget : f.locals.get? n = some held) (hheld : held.StandsFor h) (hcount : held = .object h ∨
      (∀ q, held ≠ .ptr q) ∧ (targets.map (·.name)).count n ≤ 1 ∨ (targets.map (·.name)).count n = 0) :
    Gives (fun f' => ∃ held', f'.locals.get? n = some held' ∧ held'.StandsFor h)
      (it.assignAll true f (targets.map fun t => .var t.name) vs) := by
  induction targets generalizing vs f held with
  | nil =>
    simp only [List.map_nil, assignAll]
    exact .pure ⟨held, hget, hheld⟩
  | cons t targets ih =>
    cases vs with
    | nil =>
      simp only [List.map_cons, assignAll]
      exact .pure ⟨held, hget, hheld⟩
    | cons v vs =>
      simp only [List.map_cons, assignAll, assign]
      by_cases hn : t.name = n
      · subst hn
        rw [List.map_cons, List.count_cons_self] at hcount
        have hptr : ∀ q, held ≠ .ptr q := by
          rcases hcount with rfl | ⟨hptr, -⟩ | hzero
          · exact nofun
          · exact hptr
          · exact absurd hzero (Nat.succ_ne_zero _)
        refine .bind (assignVar_standsFor hget hheld hptr v) ?_
        rintro f' ⟨held', hget', hheld', hobject⟩
        refine ih vs hget' hheld' ?_
        -- an instance stays what it is; an array has had its one assignment
        rcases hcount with hcount | ⟨-, hcount⟩ | hcount
        · exact .inl (hobject hcount)
        · exact .inr (.inr (by omega))
        · omega
      · rw [List.map_cons, List.count_cons_of_ne hn] at hcount
        refine .bind (assignVar_outside true f t.name v) fun f' hf' => ih vs ?_ hheld hcount
        rw [hf'.get? n fun hmem => hn (List.mem_singleton.1 hmem).symm, hget]

/-- Binding the values of a call leaves the receiver's variable standing for it, unless an alias takes its place. -/
theorem bindTargets_standsFor {n : String} {h : Handle} {held : Value} (hget : f.locals.get? n = some held)
    (hheld : held.StandsFor h) (hptr : ∀ q, held ≠ .ptr q) {targets : List CallTarget}
    (halias : ∀ t, targets = [t] → t.aliased = true → t.name ≠ n)
    (hcount : held = .object h ∨ (targets.map (·.name)).count n ≤ 1) (v : Value) :
    Gives (fun f' => ∃ held', f'.locals.get? n = some held' ∧ held'.StandsFor h) (it.bindTargets targets f v) := by
  unfold bindTargets
  split
  · exact .pure ⟨held, hget, hheld⟩
  · rename_i t
    simp only [assign]
    by_cases hn : t.name = n
    · subst hn
      have hcopying : t.aliased = false := by
        cases ht : t.aliased with
        | false => rfl
        | true => exact absurd rfl (halias t rfl ht)
      rw [hcopying]
      refine (assignVar_standsFor hget hheld hptr v).mono ?_
      rintro f' ⟨held', hget', hheld', -⟩
      exact ⟨held', hget', hheld'⟩
    · refine (assignVar_outside _ f t.name v).mono fun f' hf' => ⟨held, ?_, hheld⟩
      rw [hf'.get? n fun hmem => hn (List.mem_singleton.1 hmem).symm, hget]
  · simp only [assign]
    split
    · split
      · exact it.assignAll_standsFor targets _ hget hheld (hcount.imp_right fun hcount => .inl ⟨hptr, hcount⟩)
      · exact .trap _
    · exact .trap _

end Interpreter

/-! ### Destructors -/

theorem count_le_of_forall₂ {α β : Type} {R : α → β → Prop} {f : α → String} {g : β → String} {as : List α}
    {bs : List β} (h : List.Forall₂ R as bs) {x y : String} (hxy : ∀ a b, R a b → g b = y → f a = x) :
    (bs.map g).count y ≤ (as.map f).count x := by
  induction h with
  | nil => rfl
  | @cons a b as bs hab _ ih =>
    rw [List.map_cons, List.map_cons, List.count_cons, List.count_cons]
    by_cases hb : g b = y
    · rw [if_pos (beq_iff_eq.2 hb), if_pos (beq_iff_eq.2 (hxy a b hab hb))]
      omega
    · rw [if_neg (by simpa using hb)]
      omega

namespace Lowering

open Interpreter AbiBridge.Frame

variable {it : Interpreter} {job : Job} {t t' : ScopeTree} {w : Wrapper.Function} {arguments : List MarshalledArgument}
  {made : List (MarshalledResult × ResultNames)} {x : MarshalledArgument} {inputs : List Value} {heap : Heap}
  {h : Handle}

theorem mem_declared (hlow : Lowering it.target job t t' w arguments made) (hx : x ∈ arguments) :
    x.argument.declared ∈ job.function.arguments := by
  rw [← hlow.declared_eq]
  exact List.mem_map_of_mem hx

/-- Another argument that has the name of the receiver in the scope is passed by value. -/
theorem direct_of_native_eq (hlow : Lowering it.target job t t' w arguments made)
    (hkeeps : job.function.KeepsReceiver heap h) (hx : arguments.filter (·.argument.isBound) = [x])
    {y : MarshalledArgument} (hy : y ∈ arguments) (hbound : y.argument.isBound = false)
    (heq : y.argument.native.name = x.argument.native.name) : y.rebuild = none ∧ y.declares = [] := by
  obtain ⟨hmem, hxbound⟩ := MarshalledArgument.mem_receiver hx
  have hname : y.name = x.name :=
    hlow.roster.injective _ _ _ (hlow.argument_native y hy) (heq ▸ hlow.argument_native x hmem)
  obtain ⟨d, -, p, hp, hm⟩ := exists_of_forall₂_right hlow.marshalled hy
  have hdirect := hkeeps.argument _ (hlow.mem_declared hmem) hxbound _ (hlow.mem_declared hy) hbound hname
  rw [hm.declared_eq, hp] at hdirect
  cases hdirect
  cases hm
  exact ⟨rfl, rfl⟩

theorem local?_receiver (hlow : Lowering it.target job t t' w arguments made)
    (hkeeps : job.function.KeepsReceiver heap h) (hx : arguments.filter (·.argument.isBound) = [x])
    {a : Semantic.Argument} (hm : Marshalled it.target a .handle x) :
    w.local? x.argument.native.name = some x.argument.native := by
  obtain ⟨hmem, -⟩ := MarshalledArgument.mem_receiver hx
  have hdeclares : x.declares = [x.argument.native] := by
    cases hm
    rfl
  obtain ⟨inner, hlocals⟩ := hlow.locals
  obtain ⟨l, hl⟩ : ∃ l, (arguments.flatMap (·.declares)).find? (·.name == x.argument.native.name) = some l := by
    refine Option.isSome_iff_exists.1 (List.find?_isSome.2 ⟨x.argument.native, ?_, beq_self_eq_true _⟩)
    exact List.mem_flatMap.2 ⟨x, hmem, hdeclares ▸ List.mem_cons_self⟩
  have hfirst : l = x.argument.native := by
    obtain ⟨y, hy, hly⟩ := List.mem_flatMap.1 (List.mem_of_find?_eq_some hl)
    have hlname : l.name = x.argument.native.name := by simpa using List.find?_some hl
    have hnative := hlow.argument_native x hmem
    -- a view has a name of its own, so this is the local of an argument of the same name
    have hyname : l = y.argument.native := by
      obtain ⟨d, -, p, -, hd⟩ := exists_of_forall₂_right hlow.marshalled hy
      cases hd with
      | direct native => cases hly
      | array native ptr shape strides viewAlias =>
        rcases List.mem_cons.1 hly with rfl | hly
        · rfl
        · obtain ⟨view, hview, rfl⟩ := List.mem_map.1 hly
          refine absurd hlname.symm (hlow.assembly.companion_ne_native hnative ?_)
          refine List.mem_append_left _ (List.mem_flatMap.2 ⟨_, hy, ?_⟩)
          exact List.mem_cons_of_mem _ (List.mem_append_right _ hview)
      | _ => exact List.mem_singleton.1 hly
    cases hbound : y.argument.isBound with
    | true =>
      obtain rfl : y = x := List.mem_singleton.1 (hx ▸ List.mem_filter.2 ⟨hy, hbound⟩)
      exact hyname
    | false =>
      rw [(hlow.direct_of_native_eq hkeeps hx hy hbound (hyname ▸ hlname)).2] at hly
      cases hly
  rw [Function.local?, hlocals, List.append_assoc, List.find?_append, hl, hfirst]
  rfl

theorem native_notMem_preparation (hlow : Lowering it.target job t t' w arguments made)
    (hkeeps : job.function.KeepsReceiver heap h) (hx : arguments.filter (·.argument.isBound) = [x])
    {live : List MarshalledArgument} (hlive : ∀ y ∈ live, y ∈ arguments) :
    x.argument.native.name ∉ writesAll ((live.filter (!·.argument.isBound)).filterMap (·.rebuild) ++
      (CallSite.receiverFirst live).filterMap CallSite.bindView) := by
  intro hn
  obtain ⟨hmem, -⟩ := MarshalledArgument.mem_receiver hx
  obtain ⟨s, hs, hn⟩ := mem_writesAll.1 hn
  rcases List.mem_append.1 hs with hs | hs
  · obtain ⟨y, hy, hs⟩ := List.mem_filterMap.1 hs
    obtain ⟨hy, hbound⟩ := List.mem_filter.1 hy
    obtain ⟨d, -, p, -, hm⟩ := exists_of_forall₂_right hlow.marshalled (hlive y hy)
    obtain ⟨ptr, sizes, rfl, -⟩ := hm.rebuild_eq hs
    have hnone := (hlow.direct_of_native_eq hkeeps hx (hlive y hy) (by simpa using hbound)
      (List.mem_singleton.1 hn).symm).1
    rw [hnone] at hs
    cases hs
  · obtain ⟨y, hy, hs⟩ := List.mem_filterMap.1 hs
    have hy := hlive y (CallSite.mem_receiverFirst.1 hy)
    obtain ⟨view, hview, rfl⟩ := CallSite.bindView_eq hs
    obtain ⟨d, -, p, -, hm⟩ := exists_of_forall₂_right hlow.marshalled hy
    refine hlow.assembly.companion_ne_native (hlow.argument_native x hmem) ?_ (List.mem_singleton.1 hn)
    refine List.mem_append_left _ (List.mem_flatMap.2 ⟨y, hy, ?_⟩)
    cases hm with
    | array native ptr shape strides viewAlias =>
      cases hview
      exact List.mem_cons_of_mem _ (List.mem_append_right _ List.mem_cons_self)
    | _ => cases hview

theorem native_notMem_deferred (hlow : Lowering it.target job t t' w arguments made) (hx : x ∈ arguments) :
    x.argument.native.name ∉ writesAll (made.flatMap (·.1.deferred)) := by
  intro hn
  obtain ⟨s, hs, hn⟩ := mem_writesAll.1 hn
  obtain ⟨m, hm, hs⟩ := List.mem_flatMap.1 hs
  obtain ⟨r, -, p, -, hd⟩ := exists_of_forall₂_right hlow.delivered hm
  have hnative := hlow.argument_native x hx
  rcases hd.writes_deferred (mem_writesAll.2 ⟨s, hs, hn⟩) with hn | hn
  · exact hlow.roster.apart _ _ hnative (List.mem_append_right _ (List.mem_flatMap.2 ⟨m, hm, hn⟩))
  · exact hlow.inner m hm _ hn (hlow.roster.sound.owned _ _ hnative)

theorem bindTargets_receiver (hlow : Lowering it.target job t t' w arguments made)
    (hkeeps : job.function.KeepsReceiver heap h) (hx : arguments.filter (·.argument.isBound) = [x]) {f : Frame}
    {held : Value} (hget : f.locals.get? x.argument.native.name = some held) (hheld : held.StandsFor h)
    (hptr : ∀ q, held ≠ .ptr q) (hobject : heap.isObject h = true → held = .object h) (v : Value) :
    Gives (fun f' => ∃ held', f'.locals.get? x.argument.native.name = some held' ∧ held'.StandsFor h)
      (it.bindTargets (made.filterMap (·.1.target)) f v) := by
  obtain ⟨hmem, hbound⟩ := MarshalledArgument.mem_receiver hx
  have hnative := hlow.argument_native x hmem
  have htargets := hlow.forall₂_targets
  have hname : ∀ {r ct}, t'.nameFor? w.scope r = some ct → ct = x.argument.native.name → r = x.name :=
    fun hr heq => hlow.roster.injective _ _ _ hr (heq ▸ hnative)
  refine it.bindTargets_standsFor hget hheld hptr (fun ct hct haliased heq => ?_) ?_ v
  · rw [hct] at htargets
    obtain ⟨r, rs, ⟨hr, halias⟩, hnil, hcall⟩ := List.forall₂_cons_right_iff.1 htargets
    rw [List.forall₂_nil_right_iff.1 hnil] at hcall
    exact hkeeps.aliased _ (hlow.mem_declared hmem) hbound r hcall (halias haliased) (hname hr heq)
  · refine hkeeps.result.imp hobject fun hcount => le_trans ?_ (hcount _ (hlow.mem_declared hmem) hbound)
    refine count_le_of_forall₂ htargets fun r ct hr heq => hname hr.1 heq

theorem receiver_prepared (hlow : Lowering it.target job t t' w arguments made) {c : Semantic.Class}
    {a : Semantic.Argument} (hopt : a.optional = false) (htype : a.type = c.type)
    (hm : Marshalled it.target a .handle x) (hx : arguments.filter (·.argument.isBound) = [x]) {m m' : Machine}
    (hkeeps : job.function.KeepsReceiver m.heap h) (hreceives : w.receiver? inputs = some h) {f : Frame}
    (hprep : it.execBlock (entry w inputs) (CallSite.preparation (Lowered.liveAt w inputs arguments)) m = (.ok f, m')) :
    ∃ held : Value, held.StandsFor h ∧ (∀ q, held ≠ .ptr q) ∧ (m.heap.isObject h = true → held = .object h) ∧
      f.locals.get? x.argument.native.name = some held := by
  obtain ⟨ptr, v, hv, ho, hstart⟩ := hlow.preparation_eq hx hopt hm hreceives
  obtain ⟨-, -, -, hnative⟩ := hm.handle_eq
  have hdeclared : (entry w inputs).declaredType? x.argument.native.name = some (.object c.name) := by
    change (w.local? x.argument.native.name).bind Local.valueType? = _
    rw [hlow.local?_receiver hkeeps hx hm, Option.bind_some, hnative, htype]
    rfl
  have hsub : ∀ y ∈ Lowered.liveAt w inputs arguments, y ∈ arguments := fun y hy => (List.mem_filter.1 hy).1
  have hnotin := hlow.native_notMem_preparation hkeeps hx hsub
  rw [hstart] at hprep
  simp only [execBlock] at hprep
  obtain ⟨f₀, m₀, hfirst, hrest⟩ := exists_of_bind_ok hprep
  rw [it.exec_reinterpret_handle hv ho] at hfirst
  cases hr : it.reinterpret m.heap (entry w inputs) x.argument.native.name h [] with
  | error e =>
    rw [hr] at hfirst
    cases hfirst
  | ok held =>
    rw [hr] at hfirst
    cases hfirst
    obtain ⟨hstands, hptr, hobject⟩ := it.standsFor_of_reinterpret hdeclared hr
    refine ⟨held, hstands, hptr, hobject, ?_⟩
    rw [(it.execBlock_outside _ _ _ _ _ hrest).get? _ hnotin, Frame.get?_set_self]

theorem freed_of_release (hrole : job.function.role = .destructor)
    (hx : arguments.filter (·.argument.isBound) = [x]) {f f' : Frame} {m m' : Machine} {held : Value}
    (hheld : f.locals.get? x.argument.native.name = some held) (hstands : held.StandsFor h)
    (hrelease : it.execBlock f (Job.release job.function arguments) m = (.ok f', m')) :
    m'.heap.cell? h = some .freed := by
  have hfind : arguments.find? (·.argument.isBound) = some x := by
    rw [← List.head?_filter, hx]
    rfl
  rw [Job.release, if_pos hrole, hfind] at hrelease
  simp only [execBlock_singleton, exec] at hrelease
  rw [it.lookup_of_get? hheld, bind_ok (ofExcept_apply _)] at hrelease
  obtain ⟨_, m₁, hfree, hrelease⟩ := exists_of_bind_ok hrelease
  cases hrelease
  rcases hf : deallocate held m.heap with ⟨r, heap'⟩
  rw [Exec.onHeap_apply, hf] at hfree
  cases hfree
  exact hstands.freed hf

/-- A call of a destructor that succeeds has freed its receiver. -/
theorem freed_of_call (hlow : Lowering it.target job t t' w arguments made) {c : Semantic.Class}
    (hc : job.function.HasReceiver c) (hrole : job.function.role = .destructor)
    (hw : it.module.function? w.name = some w) {m m' : Machine} (hkeeps : job.function.KeepsReceiver m.heap h)
    (hreceives : w.receiver? inputs = some h) {out : CallOutcome} (hcall : it.call w.name inputs m = (.ok out, m')) :
    m'.heap.cell? h = some .freed := by
  obtain ⟨a, x, hx, hopt, htype, hm⟩ := hlow.receiver hc
  have hl : (w.signature.inputs.map (·.name)).length = inputs.length := by
    by_contra hne
    simp only [call, hw, callFunction, if_neg hne] at hcall
    cases hcall
  rw [hlow.lowered.call_eq hw hl] at hcall
  obtain ⟨f₁, m₁, hprep, hcall⟩ := exists_of_bind_ok hcall
  obtain ⟨args, m₂, -, hcall⟩ := exists_of_bind_ok hcall
  obtain ⟨result, m₃, -, hcall⟩ := exists_of_bind_ok hcall
  unfold Lowered.finish at hcall
  rw [List.filterMap_map, List.flatMap_map] at hcall
  obtain ⟨f₂, m₄, hbind, hcall⟩ := exists_of_bind_ok hcall
  obtain ⟨f₃, m₅, hdeferred, hcall⟩ := exists_of_bind_ok hcall
  obtain ⟨f₄, m₆, hrelease, hcall⟩ := exists_of_bind_ok hcall
  obtain ⟨hmem, -⟩ := MarshalledArgument.mem_receiver hx
  -- the name of the receiver stands for it before the call, after its values are bound, and at the release
  obtain ⟨held, hstands, hptr, hobject, hheld₁⟩ := hlow.receiver_prepared hopt htype hm hx hkeeps hreceives hprep
  obtain ⟨held', hheld₂, hstands'⟩ :=
    hlow.bindTargets_receiver hkeeps hx hheld₁ hstands hptr hobject result _ _ _ hbind
  have hheld₃ := (it.execBlock_outside _ _ _ _ _ hdeferred).get? _ (hlow.native_notMem_deferred hmem)
  have hfreed := freed_of_release hrole hx (hheld₃.trans hheld₂) hstands' hrelease
  -- what is delivered is looked up only
  have houtcome : Keeps (fun m => m) (it.outcome w f₄) :=
    .bind (.ofExcept _) fun _ => .bind (.ofExcept _) fun _ => .pure _
  have hstate : m' = m₆ := by rw [← houtcome.state m₆, hcall]
  rwa [hstate]

end Lowering

theorem MemberMade.exists_method {target : Target} {c : Semantic.Class} {t t' : ScopeTree} {w : Wrapper.Function}
    (h : MemberMade target c t t' w) {key : MemberKey} (horigin : w.origin = .method key) :
    ∃ f ∈ c.methods, Origin.method key = (methodJob c f).origin ∧ (methodJob c f).run target t = (.ok w, t') := by
  cases h with
  | method f hf h =>
    obtain ⟨_, _, hlow⟩ := Job.run_lowering h
    exact ⟨f, (List.mem_filter.1 hf).1, horigin.symm.trans hlow.origin, h⟩
  | getter a _ delivery _ h => exact absurd ((congrArg (·.1.origin) h).trans horigin) nofun
  | setter a _ passing _ h => exact absurd ((congrArg (·.1.origin) h).trans horigin) nofun

namespace Session

variable {s : Session} {c : Semantic.Class} {h : Handle}

theorem freed_of_destroyed {f : Semantic.Function} (hc : f.HasReceiver c) (hrole : f.role = .destructor)
    {d : Wrapper.Function} (hd : s.interpreter.Wraps (methodJob c f) d) {inputs : List Value}
    (hreceives : d.receiver? inputs = some h) (hkeeps : f.KeepsReceiver s.heap h) {answer : ActionAnswer}
    (hcall : (s.step (.call d.name inputs)).1.result = .ok answer) :
    (s.step (.call d.name inputs)).2.heap.cell? h = some .freed := by
  obtain ⟨t, t', hrun⟩ := hd.made
  obtain ⟨arguments, made, hlow⟩ := Job.run_lowering hrun
  rcases ho : s.interpreter.call d.name inputs ⟨s.heap, []⟩ with ⟨e | out, m'⟩ <;> simp only [step, ho] at hcall ⊢
  · cases hcall
  · have hkeeps : (methodJob c f).function.KeepsReceiver (Machine.mk s.heap []).heap h := hkeeps
    exact hlow.freed_of_call hc hrole hd.found hkeeps hreceives ho

/-- On a cell that is freed, every call of a member traps and changes nothing. -/
theorem call_traps_of_freed {t t' : ScopeTree} {w : Wrapper.Function}
    (hmade : MemberMade s.interpreter.target c t t' w) (hreceivers : ∀ f ∈ c.methods, f.HasReceiver c)
    (hfound : s.interpreter.module.function? w.name = some w) {inputs : List Value}
    (hl : w.signature.inputs.length = inputs.length) (hreceives : w.receiver? inputs = some h)
    (hfreed : s.heap.cell? h = some .freed) :
    s.step (.call w.name inputs) = (⟨.error (.danglingHandle h), []⟩, s) := by
  have htraps : s.interpreter.call w.name inputs ⟨s.heap, []⟩ = (.error (.danglingHandle h), ⟨s.heap, []⟩) :=
    hmade.call_freed hreceivers hfound (by rwa [List.length_map]) hreceives hfreed
  simp only [step, htraps]
  rfl

/-- Once a call of a destructor on `h` has succeeded, every call of a member of its class on `h` traps, without a call
of a host and with nothing changed, whatever was done in between. -/
theorem call_traps_of_destroyed {m : Semantic.Module} {r : Reported WrappedModule}
    (hm : wrapModule .fortran m = .ok r) {wc : Wrapper.Class} (hc : (c, wc) ∈ m.classes.zip r.value.module.classes)
    (hreceivers : ∀ f ∈ c.methods, f.HasReceiver c) (hmodule : s.interpreter.module = r.value.module)
    (htarget : s.interpreter.target = .fortran) (hhosts : s.interpreter.hosts.Confined) {f : Semantic.Function}
    (hf : f ∈ c.methods) (hrole : f.role = .destructor) {d : Wrapper.Function}
    (hd : s.interpreter.Wraps (methodJob c f) d) {inputs : List Value} (hreceives : d.receiver? inputs = some h)
    (hkeeps : f.KeepsReceiver s.heap h) {answer : ActionAnswer}
    (hcall : (s.step (.call d.name inputs)).1.result = .ok answer) (actions : List Action) {w : Wrapper.Function}
    (hw : w ∈ wc.members) {inputs' : List Value} (hl : w.signature.inputs.length = inputs'.length)
    (hreceives' : w.receiver? inputs' = some h) :
    ((s.step (.call d.name inputs)).2.after actions).step (.call w.name inputs') =
      (⟨.error (.danglingHandle h), []⟩, (s.step (.call d.name inputs)).2.after actions) := by
  have hfreed := freed_of_destroyed (hreceivers f hf) hrole hd hreceives hkeeps hcall
  have hstep := step_ages hhosts (.call d.name inputs)
  have hafter : Ages _ ((s.step (.call d.name inputs)).2.after actions) := after_ages (hstep.hosts ▸ hhosts) actions
  obtain ⟨⟨t, t', hmade⟩, hfound⟩ := wrapModule_member rfl hm hc hw
  rw [← (hafter.target.trans hstep.target).trans htarget] at hmade
  rw [← hmodule, ← hstep.module, ← hafter.module] at hfound
  exact call_traps_of_freed hmade hreceivers hfound hl hreceives' (hafter.heap.freed hfreed)

def valveClose : Semantic.Function where
  name := "close"
  arguments := [{ name := "self", type := .object "Valve", bound := true }]
  role := .destructor

/-- A valve that is turned and closed, and its angle. -/
def valve : Semantic.Class where
  name := "Valve"
  methods := [valveClose,
    { name := "turn"
      arguments := [
        { name := "by", type := .scalar .int32 },
        { name := "self", type := .object "Valve", bound := true }]
      results := [{ name := "angle", type := .scalar .int32 }] }]
  attributes := [{ name := "angle", type := .scalar .int32 }]

/-- Two valves, with hosts that close one and turn one. -/
def valveSession (m : Wrapper.Module) : Session where
  interpreter := {
    module := m
    target := .fortran
    hosts := [
      (⟨some "Valve", "close"⟩, Script.host .columnMajor [.setField "self" "angle" (.value (.int 0))] []),
      (⟨some "Valve", "turn"⟩, Script.host .columnMajor [] [.field "self" "angle"])] }
  heap := ⟨[.object ⟨"Valve", [("angle", .int 4)]⟩, .object ⟨"Valve", [("angle", .int 5)]⟩]⟩

theorem valveSession_confined (m : Wrapper.Module) : (valveSession m).interpreter.hosts.Confined := by
  intro p hp args
  simp only [valveSession, List.mem_cons, List.not_mem_nil, or_false] at hp
  obtain rfl | rfl := hp
  · exact Script.host_confined ..
  · exact Script.host_confined ..

theorem valve_hasReceiver : ∀ f ∈ valve.methods, f.HasReceiver valve := by
  intro f hf
  simp only [valve, List.mem_cons, List.not_mem_nil, or_false] at hf
  obtain rfl | rfl := hf
  · exact ⟨_, rfl, rfl, rfl⟩
  · exact ⟨_, rfl, rfl, rfl⟩

theorem valveClose_keepsReceiver (heap : Heap) (h : Handle) : valveClose.KeepsReceiver heap h where
  argument := by simp [valveClose]
  aliased := by simp [valveClose, Semantic.Function.callResults]
  result := by simp [valveClose, Semantic.Function.callResults]

theorem call_traps_of_destroyed_valve : ∃ r, wrapModule .fortran { name := "plant", classes := [valve] } = .ok r ∧
    ∃ wc d w answer, (valve, wc) ∈ [valve].zip r.value.module.classes ∧ (∀ f ∈ valve.methods, f.HasReceiver valve) ∧
      (valveSession r.value.module).interpreter.Wraps (methodJob valve valveClose) d ∧
      d.receiver? [.ptr (some 1)] = some 1 ∧ valveClose.KeepsReceiver (valveSession r.value.module).heap 1 ∧
      ((valveSession r.value.module).step (.call d.name [.ptr (some 1)])).1.result = .ok answer ∧
      w ∈ wc.members ∧ w.signature.inputs.length = 2 ∧ w.receiver? [.int 3, .ptr (some 1)] = some 1 ∧
      ∀ actions : List Action,
        (((valveSession r.value.module).step (.call d.name [.ptr (some 1)])).2.after actions).step
            (.call w.name [.int 3, .ptr (some 1)]) =
          (⟨.error (.danglingHandle 1), []⟩,
            ((valveSession r.value.module).step (.call d.name [.ptr (some 1)])).2.after actions) := by
  obtain ⟨r, hr⟩ := wrapModule_ok .fortran (m := { name := "plant", classes := [valve] }) (by decide +kernel)
  have hrun : ∀ r ∈ (wrapModule .fortran { name := "plant", classes := [valve] }).toOption,
      ∃ p ∈ [valve].zip r.value.module.classes,
        (∃ d ∈ p.2.members, d.origin = .method ⟨"Valve", "close"⟩ ∧ d.receiver? [.ptr (some 1)] = some 1 ∧
          ((valveSession r.value.module).step (.call d.name [.ptr (some 1)])).1.result.toOption.isSome = true) ∧
        ∃ w ∈ p.2.members, w.signature.inputs.length = 2 ∧ w.receiver? [.int 3, .ptr (some 1)] = some 1 := by
    decide +kernel
  obtain ⟨⟨c, wc⟩, hwc, ⟨d, hd, horigin, hreceives, hcall⟩, w, hw, hl, hreceives'⟩ := hrun r (by rw [hr]; rfl)
  cases List.mem_singleton.1 (List.of_mem_zip hwc).1
  obtain ⟨⟨t, t', hmade⟩, hfound⟩ := wrapModule_member rfl hr hwc hd
  obtain ⟨f, hf, hkey, hmade⟩ := hmade.exists_method horigin
  have hclose : f = valveClose := by
    simp only [valve, List.mem_cons, List.not_mem_nil, or_false] at hf
    obtain rfl | rfl := hf
    · rfl
    · exact absurd hkey (by decide)
  subst hclose
  have hwraps : (valveSession r.value.module).interpreter.Wraps (methodJob valve valveClose) d :=
    ⟨⟨t, t', hmade⟩, hfound⟩
  cases hanswer : ((valveSession r.value.module).step (.call d.name [.ptr (some 1)])).1.result with
  | error e =>
    rw [hanswer] at hcall
    cases hcall
  | ok answer =>
    have hkeeps := valveClose_keepsReceiver (valveSession r.value.module).heap 1
    exact ⟨r, hr, wc, d, w, answer, hwc, valve_hasReceiver, hwraps, hreceives, hkeeps, hanswer, hw, hl, hreceives',
      fun actions => call_traps_of_destroyed hr hwc valve_hasReceiver rfl rfl (valveSession_confined _) hf rfl hwraps
        hreceives hkeeps hanswer actions hw hl hreceives'⟩

/-- A kiln whose destructor gives it again, as an alias that bears the name of the receiver. -/
def kiln : Semantic.Class where
  name := "Kiln"
  methods := [
    { name := "close"
      arguments := [{ name := "self", type := .object "Kiln", bound := true }]
      results := [{ name := "self", type := .object "Kiln", isAlias := true }]
      role := .destructor },
    { name := "heat"
      arguments := [{ name := "self", type := .object "Kiln", bound := true }]
      results := [{ name := "degrees", type := .scalar .int32 }] }]

/-- One kiln, with a host that gives another when it is closed. -/
def kilnSession (m : Wrapper.Module) : Session where
  interpreter := {
    module := m
    target := .fortran
    hosts := [
      (⟨some "Kiln", "close"⟩, Script.host .columnMajor [] [.new "Kiln" []]),
      (⟨some "Kiln", "heat"⟩, Script.host .columnMajor [] [.value (.int 7)])] }
  heap := ⟨[.object ⟨"Kiln", []⟩]⟩

theorem kilnSession_confined (m : Wrapper.Module) : (kilnSession m).interpreter.hosts.Confined := by
  intro p hp args
  simp only [kilnSession, List.mem_cons, List.not_mem_nil, or_false] at hp
  obtain rfl | rfl := hp
  · exact Script.host_confined ..
  · exact Script.host_confined ..

theorem kiln_hasReceiver : ∀ f ∈ kiln.methods, f.HasReceiver kiln := by
  intro f hf
  simp only [kiln, List.mem_cons, List.not_mem_nil, or_false] at hf
  obtain rfl | rfl := hf
  · exact ⟨_, rfl, rfl, rfl⟩
  · exact ⟨_, rfl, rfl, rfl⟩

/-- The destructor frees what its host gave and not its receiver, on which calls go on to succeed. -/
theorem kiln_heats_when_closed : (∀ f ∈ kiln.methods, f.HasReceiver kiln) ∧
    (∀ m, (kilnSession m).interpreter.hosts.Confined) ∧
    ∃ r ∈ (wrapModule .fortran { name := "plant", classes := [kiln] }).toOption, ∃ wc ∈ r.value.module.classes,
      ∃ d ∈ wc.members, ∃ w ∈ wc.members, d.origin = .method ⟨"Kiln", "close"⟩ ∧ w.origin = .method ⟨"Kiln", "heat"⟩ ∧
        d.receiver? [.ptr (some 0)] = some 0 ∧ w.receiver? [.ptr (some 0)] = some 0 ∧
        ((kilnSession r.value.module).step (.call d.name [.ptr (some 0)])).1.result.toOption.isSome = true ∧
        (((kilnSession r.value.module).step (.call d.name [.ptr (some 0)])).2.step
          (.call w.name [.ptr (some 0)])).1.result.toOption.isSome = true := by
  refine ⟨kiln_hasReceiver, kilnSession_confined, ?_⟩
  decide +kernel

end Session

end AbiBridge
