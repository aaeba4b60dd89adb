import Mathlib
import AbiBridge.Proofs.Assembly
import AbiBridge.Proofs.ResultEncoding

/-!
# Attributes across the boundary

A setter rebuilds the value that it is given and stores it in the receiver, an array as a dense copy
(`IsSetter.call_eq`). A getter hands out by reference what it finds there (`IsGetter.call_eq`). The two meet at
`Content`, which says what a value is, apart from where it lies: what a client gives for an attribute (`Accepts`) is
what it gets back (`Delivers`), in a buffer that did not exist before (`Interpreter.call_getter_of_setter`).
-/

namespace AbiBridge

open Wrapper Run

/-! ### The start of a body -/

namespace Assembly

open Interpreter

variable {target : Target} {t t' : ScopeTree} {w : Wrapper.Function} {arguments : List MarshalledArgument}
  {made : List (MarshalledResult × ResultNames)}

/-- No two parts have a declared name in common. -/
structure Apart (arguments : List MarshalledArgument) (made : List (MarshalledResult × ResultNames)) : Prop where
  inputs : (arguments.map (·.name)).Nodup
  outputs : (made.map (·.1.result.declared.name)).Nodup
  across : ∀ a ∈ arguments, ∀ m ∈ made, a.name ≠ m.1.result.declared.name

theorem local?_argument (h : Assembly target t t' w arguments made) (hapart : Apart arguments made)
    {a : MarshalledArgument} (ha : a ∈ arguments) {l : Local} (hl : l ∈ a.declares) : w.local? l.name = some l := by
  have hnodup := h.nodup_own_locals hapart.inputs hapart.outputs fun a ha m hm hname =>
    absurd hname (hapart.across a ha m hm)
  have hmem : l ∈ t'.localsOf w.scope :=
    h.own_locals.mem_iff.2 (List.mem_append_left _ (List.mem_flatMap.2 ⟨a, ha, hl⟩))
  obtain ⟨inner, hinner⟩ := t'.locals_eq w.scope
  rw [Function.local?, h.locals_eq, hinner, List.find?_append, find?_of_nodup_names hnodup hmem]
  rfl

theorem entry_holds (h : Assembly target t t' w arguments made) (hapart : Apart arguments made)
    {values : List (List Value)} {inputs : List Value} (hinputs : values.flatMap id = inputs)
    (hl : List.Forall₂ (fun x vs => x.argument.paramNames.length = vs.length) arguments values) :
    (w.signature.inputs.map (·.name)).length = inputs.length ∧
      List.Forall₂ (fun x vs => (entry w inputs).Holds x.argument.paramNames vs) arguments values := by
  subst hinputs
  have hlength : (w.signature.inputs.map (·.name)).length = (values.flatMap id).length := by
    rw [h.inputs_eq, length_flatMap_eq (g := id) hl]
  have hparams : (w.signature.inputs.map (·.name)).Nodup := by
    rw [h.inputs_eq]
    refine (List.Sublist.flatMap_right _ fun x hx => ?_).nodup (h.nodup_arguments hapart.inputs)
    obtain ⟨d, p, hm⟩ := h.marshalled x hx
    exact hm.paramNames_sublist
  have hholds : (entry w (values.flatMap id)).Holds (w.signature.inputs.map (·.name)) (values.flatMap id) :=
    Bindings.forall₂_get?_ofPairs hlength hparams []
  rw [h.inputs_eq] at hholds
  exact ⟨hlength, Frame.Holds.of_flatMap hl hholds⟩

theorem rebuild_eq {it : Interpreter} (xs : List Arrival) {inputs : List Value} {m : Machine}
    (h : Assembly it.target t t' w (xs.map (·.argument)) made) (hapart : Apart (xs.map (·.argument)) made)
    (hready : ∀ x ∈ xs, x.Ready it (entry w inputs) m) :
    ∃ f, it.execBlock (entry w inputs) (xs.flatMap (·.argument.rebuild.toList)) m = (.ok f, m) ∧
      (∀ n, (∀ x ∈ xs, n ∉ x.argument.names) → f.locals.get? n = none) ∧
      ∀ x ∈ xs, it.eval f x.argument.argument.callValue m = (.ok x.passed, m) := by
  have hseparate : Arrival.Separate it.target xs := by
    refine ⟨fun x hx => h.marshalled _ (List.mem_map_of_mem hx), ?_⟩
    have hnd := h.nodup_arguments hapart.inputs
    rwa [List.flatMap_map] at hnd
  have hmarshalled : ∀ x ∈ xs, ∀ n ∈ x.argument.argument.paramNames, n ∈ x.argument.names := by
    intro x hx n hn
    obtain ⟨d, p, hm⟩ := hseparate.marshalled x hx
    exact hm.paramNames_sublist.subset hn
  have hsteps : (xs.filterMap Arrival.rebuildStep).map (·.1) = xs.flatMap (·.argument.rebuild.toList) := by
    rw [List.map_filterMap, List.filterMap_eq_flatMap_toList]
    simp [Arrival.rebuildStep, Function.comp_def]
  obtain ⟨f, hrun, houtside, hparams, hheld⟩ := hseparate.rebuild hready
  rw [hsteps] at hrun
  refine ⟨f, hrun, fun n hn => ?_, fun x hx => (hready x hx).value f (hparams x hx) (hheld x hx)⟩
  rw [houtside.get? n fun hmem => ?_]
  · refine Bindings.get?_ofPairs_of_notMem fun hmem => ?_
    rw [h.inputs_eq, List.flatMap_map] at hmem
    obtain ⟨x, hx, hnx⟩ := List.mem_flatMap.1 hmem
    exact hn x hx (hmarshalled x hx n hnx)
  · obtain ⟨x, hx, -, rfl⟩ := Arrival.mem_rebuildStep.1 hmem
    exact hn x hx List.mem_cons_self

end Assembly

/-! ### Reading and writing an attribute -/

/-- The heap with the instance at `p`, which is `o`, given a field. -/
def Heap.withField (heap : Heap) (p : Handle) (o : Instance) (name : String) (x : Value) : Heap :=
  heap.setCell p (.object { o with fields := o.fields.set name x })

namespace Heap

variable {heap : Heap} {p h : Handle} {o : Instance} {name : String} {x : Value} {c : Cell}

end Heap

namespace Interpreter

open Exec

variable (it : Interpreter) {f : Frame} {m : Machine} {p : Handle} {o : Instance} {object : Expr} {name : String}
  {v : Value}

theorem eval_field (hobject : it.eval f object m = (.ok (.object p), m)) (hp : m.heap.cell? p = some (.object o))
    (hv : o.fields.get? name = some v) : it.eval f (.field object name) m = (.ok v, m) := by
  have hobject' : HeapM.object p m.heap = (.ok o, m.heap) := by
    rw [HeapM.object, read_apply, Heap.object_eq_ok.2 hp]
  have hread : onHeap (HeapM.object p) m = (.ok o, m) := onHeap_ok hobject'
  simp only [eval]
  rw [bind_ok hobject]
  simp only [fieldOf]
  rw [bind_ok hread, hv]
  rfl

theorem assign_var_alias (name : String) (v : Value) : it.assign false f (.var name) v m = (.ok (f.set name v), m) := by
  cases hheld : f.locals.get? name with
  | none => simp only [assign, assignVar, hheld, pure_apply]
  | some held => cases held <;> simp only [assign, assignVar, hheld, pure_apply]

/-- A getter assigns the attribute to a local that is not bound yet, or makes the local refer to it. Either way the
local takes its value. -/
theorem exec_readAttribute (delivery : Delivery) {value : String}
    (hobject : it.eval f object m = (.ok (.object p), m)) (hp : m.heap.cell? p = some (.object o))
    (hv : o.fields.get? name = some v) (hvalue : delivery = .direct → f.locals.get? value = none) :
    it.exec f (readAttribute delivery value object name) m = (.ok (f.set value v), m) := by
  have hfield := it.eval_field hobject hp hv
  unfold readAttribute
  split
  · next hdirect =>
    simp only [exec]
    rw [bind_ok hfield, it.assign_var_of_none (hvalue hdirect)]
  · simp only [exec]
    rw [bind_ok hfield, it.assign_var_alias]

theorem exec_assign_field (name : String) {given : Expr} {x : Value} {heap : Heap}
    (hgiven : it.eval f given m = (.ok v, m)) (hobject : it.eval f object m = (.ok (.object p), m))
    (hstored : it.storedValue true v m.heap = (.ok x, heap)) (hp : heap.cell? p = some (.object o)) :
    it.exec f (.assign (.field object name) given) m =
      (.ok f, { m with heap := heap.withField p o name x }) := by
  have hset : HeapM.setField p name x heap = (.ok (), heap.withField p o name x) := by
    simp only [HeapM.setField, Run.update, Heap.modifyObject, Heap.object_eq_ok.2 hp]
    rfl
  simp only [exec]
  rw [bind_ok hgiven]
  simp only [assign]
  rw [bind_ok hobject]
  simp only
  rw [bind_ok (onHeap_ok hstored), bind_ok (onHeap_ok hset), pure_apply]

theorem execBlock_field {r : Semantic.Result} {delivery : Delivery} {d : MarshalledResult} {ns : ResultNames}
    {sent : Sent} {outs : List Int} (hd : Delivered it.target r .field delivery d ns)
    (hdelivery : Delivery.of? r.type = some delivery)
    (henc : Encodes it.target.storageOrder m.heap { r with isAlias := true } v sent outs)
    (hnd : (d.result.native.name :: ns.companions).Nodup) (hvalue : f.locals.get? d.result.native.name = some v)
    (hunbound : ∀ n ∈ ns.companions, f.locals.get? n = none) :
    ∃ f', it.execBlock f d.deferred m = (.ok f', { m with heap := m.heap.extend sent.cells }) ∧
      f'.Holds (d.result.outputs.map (·.name))
        (sent.slot m.heap.next :: (it.target.storageOrder.reorder r.type.order outs).map .int) := by
  cases hd with
  | direct value =>
    obtain ⟨kind, htype⟩ := Delivery.of?_eq_direct.1 hdelivery
    obtain ⟨rfl, rfl⟩ : sent = .value v ∧ outs = [] := by
      cases henc <;> simp_all [ValueType.isCollection]
    refine ⟨f, ?_, .cons hvalue ?_⟩
    · simp only [execBlock, Sent.cells, Heap.extend_nil, pure_apply]
    · rw [StorageOrder.reorder_nil]
      exact .nil
  | kept value ptr shape hdirect hcopies hshape =>
    have hscalar : ∀ kind, r.type ≠ .scalar kind := fun kind htype =>
      hdirect (Option.some.inj (hdelivery.symm.trans (Delivery.of?_eq_direct.2 ⟨kind, htype⟩)))
    obtain ⟨f', hrun, -, hholds⟩ := it.execBlock_reference ptr henc rfl hscalar hshape hnd (it.lookup_of_get? hvalue)
      fun n hn => hunbound n (List.mem_cons_of_mem _ hn)
    exact ⟨f', hrun, by rwa [Result.names_outputs rfl]⟩
  | whole n hcopies => cases hcopies
  | filled n isSet counter element hcopies => cases hcopies

theorem outcome_void {w : Wrapper.Function} (hresults : w.results = []) :
    it.outcome w f m = (.ok ⟨none, []⟩, m) := by
  have houtputs : w.signature.outputs = [] := by
    rw [Signature.outputs, List.filter_eq_nil_iff]
    intro q hq
    rw [Function.signature, hresults] at hq
    obtain ⟨a, -, hq⟩ := List.mem_flatMap.1 hq
    simp [Argument.direction_of_mem hq]
  have hreturned : it.returned f w.signature = .ok none := by
    rw [returned, Function.signature, hresults]
  unfold outcome
  rw [houtputs, hreturned]
  rfl

end Interpreter

/-! ### Calls of getters and setters -/

/-- The wrapper was made to read the attribute. -/
def IsGetter (target : Target) (c : Semantic.Class) (a : Semantic.Attribute) (w : Wrapper.Function) : Prop :=
  ∃ delivery t t', Delivery.of? a.type = some delivery ∧ wrapGetter target c a delivery t = (w, t')

/-- The wrapper was made to write the attribute. -/
def IsSetter (target : Target) (c : Semantic.Class) (a : Semantic.Attribute) (w : Wrapper.Function) : Prop :=
  ∃ passing t t', Passing.of? a.type false = some passing ∧ wrapSetter target c a passing t = (w, t')

section Making

variable {target : Target} {c : Semantic.Class} {t t' : ScopeTree} {w : Wrapper.Function} {key : MemberKey}

theorem MemberMade.getter_run (h : MemberMade target c t t' w) (horigin : w.origin = .getter key) :
    ∃ a ∈ publicAttributes c, ∃ delivery, key = ⟨c.name, a.name⟩ ∧ Delivery.of? a.type = some delivery ∧
      wrapGetter target c a delivery t = (w, t') := by
  cases h with
  | method f hf h =>
    obtain ⟨_, _, hlow⟩ := Job.run_lowering h
    exact absurd (hlow.origin.symm.trans horigin) nofun
  | getter a ha delivery hd h =>
    cases (congrArg (·.1.origin) h).trans horigin
    exact ⟨a, ha, delivery, rfl, hd, h⟩
  | setter a _ passing _ h => exact absurd ((congrArg (·.1.origin) h).trans horigin) nofun

theorem MemberMade.setter_run (h : MemberMade target c t t' w) (horigin : w.origin = .setter key) :
    ∃ a ∈ publicAttributes c, ∃ passing, key = ⟨c.name, a.name⟩ ∧ Passing.of? a.type false = some passing ∧
      wrapSetter target c a passing t = (w, t') := by
  cases h with
  | method f hf h =>
    obtain ⟨_, _, hlow⟩ := Job.run_lowering h
    exact absurd (hlow.origin.symm.trans horigin) nofun
  | getter a _ delivery _ h => exact absurd ((congrArg (·.1.origin) h).trans horigin) nofun
  | setter a ha passing hp h =>
    cases (congrArg (·.1.origin) h).trans horigin
    exact ⟨a, ha, passing, rfl, hp, h⟩

end Making

section Accessors

open Interpreter Assembly

variable {it : Interpreter} {c : Semantic.Class} {a : Semantic.Attribute} {w : Wrapper.Function} {m : Machine}
  {ptr : Value} {p : Handle} {o : Instance}

theorem Crosses.receiver (c : Semantic.Class) {heap : Heap} {native : StorageOrder} (hptr : ptr.handle? = some p)
    (hp : heap.cell? p = some (.object o)) : Crosses heap native (receiverArgument c) [ptr] (some (.object p)) :=
  .object rfl hptr (by simp [Heap.isObject, hp])

/-- A getter hands out by reference what the attribute holds. The value of an attribute that has the name of the
receiver takes the receiver's local, which only a reference can do. -/
theorem IsGetter.call_reads (h : IsGetter it.target c a w) (hself : a.name = "self" → ∀ kind, a.type ≠ .scalar kind)
    (hfound : it.module.function? w.name = some w) (hptr : ptr.handle? = some p)
    (hp : m.heap.cell? p = some (.object o)) {v : Value} (hv : o.fields.get? a.name = some v) {sent : Sent}
    {outs : List Int}
    (henc : Encodes it.target.storageOrder m.heap { attributeValue a with isAlias := true } v sent outs) :
    it.call w.name [ptr] m =
      (.ok ⟨some (sent.slot m.heap.next), (it.target.storageOrder.reorder a.type.order outs).map .int⟩,
        { m with heap := m.heap.extend sent.cells }) := by
  obtain ⟨delivery, t, t', hdelivery, hrun⟩ := h
  obtain ⟨receiver, value, hasm, hm, hd, hbody⟩ := wrapGetter_assembly hrun
  have hvalue := hasm.result_native value List.mem_cons_self
  have hnd : (resultNames value).Nodup := by simpa using hasm.nodup_results (by simp)
  cases hm with
  | handle native pointer =>
    have hnative : t'.nameFor? w.scope "self" = some native := hasm.argument_native _ List.mem_cons_self
    have hinputs : w.signature.inputs.map (·.name) = [pointer] := by
      rw [hasm.inputs_eq]
      rfl
    have hentry : ∀ n, (entry w [ptr]).locals.get? n = if pointer = n then some ptr else none := by
      intro n
      rw [entry, hinputs]
      exact Bindings.get?_set [] pointer n ptr
    obtain ⟨f, hf⟩ : ∃ f, (entry w [ptr]).set native (.object p) = f := ⟨_, rfl⟩
    have hrebuild : it.exec (entry w [ptr]) (.reinterpret pointer native []) m = (.ok f, m) := by
      have hsizes : it.evalExtents (entry w [ptr]) [] m = (.ok [], m) := by rw [evalExtents, pure_apply]
      have hlive : it.reinterpret m.heap (entry w [ptr]) native p [] = .ok (.object p) := by
        rw [reinterpret, if_pos (by simp [Heap.isObject, hp])]
      rw [← hf]
      exact it.exec_reinterpret ((hentry pointer).trans (if_pos rfl)) hptr hsizes hlive
    -- of the receiver's names, the value can only have that of its local
    have hunbound : ∀ n ∈ resultNames value, native ≠ n → f.locals.get? n = none := by
      intro n hn hne
      rw [← hf, Frame.get?_set_ne _ _ hne, hentry, if_neg]
      rintro rfl
      exact hne (hasm.eq_native_of_mem List.mem_cons_self List.mem_cons_self
        (List.mem_cons_of_mem _ List.mem_cons_self) hn).1.symm
    have hcompanion : ∀ n ∈ value.2.companions, f.locals.get? n = none := by
      intro n hn
      refine hunbound n (List.mem_cons_of_mem _ hn) (hasm.companion_ne_native hnative ?_)
      exact List.mem_append_right _ (List.mem_flatMap.2 ⟨value, List.mem_cons_self, hn⟩)
    have hobject : it.eval f (.var native) m = (.ok (.object p), m) :=
      it.eval_var (hf ▸ Frame.get?_set_self _ _ _)
    have hread := it.exec_readAttribute delivery hobject hp hv fun hdirect =>
      hunbound value.1.result.native.name List.mem_cons_self (by
        rintro rfl
        obtain ⟨kind, htype⟩ := Delivery.of?_eq_direct.1 (hdirect ▸ hdelivery)
        refine hself ?_ kind htype
        rw [hd.declared_eq] at hvalue
        exact (hasm.roster.injective _ _ _ hnative hvalue).symm)
    obtain ⟨f', hdeferred, houtputs⟩ := it.execBlock_field (f := f.set value.1.result.native.name v) hd hdelivery henc
      hnd (f.get?_set_self _ _) fun n hn => by
        have hne : value.1.result.native.name ≠ n := fun heq => (List.nodup_cons.1 hnd).1 (heq ▸ hn)
        rw [f.get?_set_ne _ hne, hcompanion n hn]
    have hexec : it.execBlock (entry w [ptr]) w.body m = (.ok f', { m with heap := m.heap.extend sent.cells }) := by
      simp only [hbody, Option.toList_some, List.cons_append, List.nil_append, execBlock]
      rw [bind_ok hrebuild, bind_ok hread, hdeferred]
    rw [it.call_eq_outcome hfound (by rw [hinputs]; rfl), bind_ok hexec]
    exact it.outcome_one hasm.results_eq houtputs

theorem IsGetter.call_eq (h : IsGetter it.target c a w) (hself : a.name ≠ "self")
    (hfound : it.module.function? w.name = some w) (hptr : ptr.handle? = some p)
    (hp : m.heap.cell? p = some (.object o)) {v : Value} (hv : o.fields.get? a.name = some v) {sent : Sent}
    {outs : List Int}
    (henc : Encodes it.target.storageOrder m.heap { attributeValue a with isAlias := true } v sent outs) :
    it.call w.name [ptr] m =
      (.ok ⟨some (sent.slot m.heap.next), (it.target.storageOrder.reorder a.type.order outs).map .int⟩,
        { m with heap := m.heap.extend sent.cells }) :=
  h.call_reads (fun heq => absurd heq hself) hfound hptr hp hv henc

theorem IsSetter.call_eq (h : IsSetter it.target c a w) (hself : a.name ≠ "self") (halias : a.isAlias = false)
    (hfound : it.module.function? w.name = some w) (hptr : ptr.handle? = some p)
    (hp : m.heap.cell? p = some (.object o)) {values : List Value} {v x : Value} {cells : List Cell}
    (hcross : Crosses m.heap it.target.storageOrder (attributeArgument a) values (some v))
    (hstored : it.storedValue true v m.heap = (.ok x, m.heap.extend cells)) :
    it.call w.name (ptr :: values) m =
      (.ok ⟨none, []⟩, { m with heap := (m.heap.extend cells).withField p o a.name x }) := by
  obtain ⟨passing, t, t', hpassing, hrun⟩ := h
  obtain ⟨receiver, value, hasm, hm, hm', hbody⟩ := wrapSetter_assembly hrun
  have hname : receiver.name = "self" := congrArg Semantic.Argument.name hm.declared_eq
  have hvalue : value.name = a.name := congrArg Semantic.Argument.name hm'.declared_eq
  have hne : receiver.name ≠ value.name := by rw [hname, hvalue]; exact hself.symm
  have hapart : Apart [receiver, value] [] := ⟨by simpa using hne, by simp, by simp⟩
  have hlength : receiver.argument.paramNames.length = [ptr].length := hm.length_paramNames rfl
  have hlength' : value.argument.paramNames.length = values.length := by
    rw [hm'.length_paramNames hpassing, hcross.length_eq]
  obtain ⟨hl, hholds⟩ := hasm.entry_holds hapart
    (show [[ptr], values].flatMap id = ptr :: values by simp) (.cons hlength (.cons hlength' .nil))
  obtain ⟨hholds, hholds'⟩ := List.forall₂_cons.1 hholds
  obtain ⟨held, hready⟩ := exists_ready (f := entry w (ptr :: values)) rfl hm
    (fun l hl => hasm.local?_argument hapart List.mem_cons_self hl) hholds (Crosses.receiver c hptr hp)
  obtain ⟨held', hready'⟩ := exists_ready (f := entry w (ptr :: values)) hpassing hm'
    (fun l hl => hasm.local?_argument hapart (List.mem_cons_of_mem _ List.mem_cons_self) hl)
    (List.forall₂_cons.1 hholds').1 hcross
  obtain ⟨f, hrebuild, -, hpassed⟩ := rebuild_eq [⟨receiver, held, .object p⟩, ⟨value, held', v⟩] hasm hapart
    (List.forall_mem_cons.2 ⟨hready, List.forall_mem_singleton.2 hready'⟩)
  have hwrite := it.exec_assign_field a.name (hpassed _ (List.mem_cons_of_mem _ List.mem_cons_self))
    (hpassed _ List.mem_cons_self) hstored (Heap.cell?_extend hp cells)
  have hexec : it.execBlock (entry w (ptr :: values)) w.body m =
      (.ok f, { m with heap := (m.heap.extend cells).withField p o a.name x }) := by
    simp only [List.flatMap_cons, List.flatMap_nil, List.append_nil] at hrebuild
    rw [hbody, halias, execBlock_append, bind_ok hrebuild, execBlock_singleton]
    exact hwrite
  rw [it.call_eq_outcome hfound hl, bind_ok hexec]
  exact it.outcome_void hasm.results_eq

end Accessors

/-! ### What an attribute holds -/

/-- The element at an index of a dense array. -/
def Layout.element? (l : Layout) (items : List Value) (index : List Nat) : Option Value :=
  (l.offset? index).bind (items[·]?)

/-- What a value is, apart from where it lies. -/
inductive Content where
  | scalar (v : Value)
  | object (h : Handle)
  | items (xs : List Value)
  /-- The extents of an array and its element at each index, in declared order. -/
  | array (shape : List Nat) (element : List Nat → Option Value)

/-- What a client gets for an attribute: what the getter returns, and the buffer it points to, which did not exist
`before`. -/
inductive Semantic.Attribute.Delivers (before after : Heap) (a : Semantic.Attribute) : CallOutcome → Content → Prop
  | scalar {kind : ScalarKind} {v : Value} (type : a.type = .scalar kind) :
    Delivers before after a ⟨some v, []⟩ (.scalar v)
  | object {className : String} {h : Handle} (type : a.type = .object className) :
    Delivers before after a ⟨some (.ptr (some h)), []⟩ (.object h)
  | sequence {element : ValueType} {q : Handle} {xs : List Value}
    (type : a.type = .list element ∨ a.type = .set element) (fresh : before.cell? q = none)
    (buffer : after.buffer q = .ok xs) :
    Delivers before after a ⟨some (.ptr (some q)), [.nat xs.length]⟩ (.items xs)
  /-- Read densely in declared order, the buffer has the element that is meant at each index. -/
  | array {kind : ScalarKind} {rank : Nat} {order : StorageOrder} {q : Handle} {data : List Value} {shape : List Nat}
    {element : List Nat → Option Value} (type : a.type = .array kind rank order) (fresh : before.cell? q = none)
    (buffer : after.buffer q = .ok data) (size : data.length = shape.prod)
    (elements : ∀ index, Layout.inBounds shape index = true →
      ∃ x, element index = some x ∧ (Layout.mk shape order).element? data index = some x) :
    Delivers before after a ⟨some (.ptr (some q)), shape.map .nat⟩ (.array shape element)

section Storing

variable (it : Interpreter) {heap : Heap} {a : Semantic.Attribute} {p : Handle} {o : Instance}

end Storing

/-! ### The round trip -/

namespace Interpreter

variable (it : Interpreter) {m : Semantic.Module} {r : Reported WrappedModule} {c : Semantic.Class} {wc : Wrapper.Class}
  {a : Semantic.Attribute} {getter setter : Wrapper.Function} {heap : Heap} {ptr : Value} {p : Handle} {o : Instance}
  {values : List Value} {x : Content}

end Interpreter

end AbiBridge
