import Mathlib
import AbiBridge.Proofs.ArgumentCrossing
import AbiBridge.Proofs.ResultDelivery

/-!
# Calls whose host returns

`Returns` says that a call reaches its host and that the host returns. What is left to do then is to finish
(`Returns.exists_finish`): to bind the values, to hand them out, and to release the receiver of a destructor. What is
released can be read off the declaration and off what the host was passed (`Releases`): the body releases what the
native local of the receiver refers to, and the host was passed that or a view of it (`lookup_receiver`).
-/

namespace AbiBridge

open Wrapper Run

/-! ### What a call releases -/

/-- The cell that holds what a value refers to. -/
def Value.storage? : Value → Option Handle
  | .object h => some h
  | .array v => some v.buffer
  | _ => Option.none

/-- The values of the type refer to a cell. An array without dimensions is passed by its element. -/
def ValueType.isStored : ValueType → Bool
  | .object _ => true
  | .array _ rank _ => 0 < rank
  | _ => false

/-- What a call of a function releases at its end: a destructor with a receiver the object or the buffer of the array
that is its receiver, any other function nothing. -/
inductive Semantic.Function.Releases (f : Semantic.Function) (args : CallArgs) : Option Handle → Prop
  | nothing (keeps : f.role ≠ .destructor ∨ ∀ a ∈ f.arguments, a.bound = false) : Releases f args none
  | receiver {a : Semantic.Argument} {v : Value} {h : Handle} (role : f.role = .destructor)
    (bound : f.arguments.find? (·.bound) = some a)
    (stored : ∀ b ∈ f.arguments, b.name = a.name → b.type.isStored = true)
    (passed : args.get? a.name = some v) (storage : v.storage? = some h) : Releases f args (some h)

/-- Frees a cell, if there is one to free. -/
def HeapM.release : Option Handle → HeapM Unit
  | none => pure ()
  | some h => HeapM.free h

theorem HeapM.release_freed {heap : Heap} {o : Handle} (h : heap.cell? o = some .freed) (cells : List Cell) :
    HeapM.release (some o) (heap.extend cells) = (.error (.danglingHandle o), heap.extend cells) := by
  have hdead : (heap.extend cells).isLive o = false := by
    rw [Heap.isLive, Heap.cell?_extend h]
  simp [release, HeapM.free, Run.update, Heap.free, hdead]

theorem find?_forall₂ {α β : Type} {R : α → β → Prop} {p : α → Bool} {q : β → Bool} {as : List α} {bs : List β}
    (h : List.Forall₂ R as bs) (hpq : ∀ a b, R a b → q b = p a) : Option.Rel R (as.find? p) (bs.find? q) := by
  induction h with
  | nil => exact .none
  | cons hab _ ih =>
    rw [List.find?_cons, List.find?_cons, hpq _ _ hab]
    split
    · exact .some hab
    · exact ih

theorem Bindings.mem_of_get? {α : Type} {b : Bindings α} {name : String} {x : α} (h : b.get? name = some x) :
    (name, x) ∈ b := by
  induction b with
  | nil => cases h
  | cons p b ih =>
    rw [get?] at h
    split at h
    · next heq => exact List.mem_cons.2 (.inl (Prod.ext heq.symm (Option.some.inj h).symm))
    · exact List.mem_cons_of_mem _ (ih h)

theorem Marshalled.viewAlias_mem {target : Target} {a : Semantic.Argument} {p : Passing} {x : MarshalledArgument}
    (h : Marshalled target a p x) {view : String} (hview : x.viewAlias = some view) : view ∈ x.companions := by
  cases h with
  | array => simp_all [MarshalledArgument.companions]
  | _ => cases hview

theorem CallSite.exists_of_mem_writes {xs : List MarshalledArgument} {n : String}
    (hn : n ∈ writesAll (xs.filterMap bindView)) : ∃ x ∈ xs, x.viewAlias = some n := by
  obtain ⟨s, hs, hn⟩ := mem_writesAll.1 hn
  obtain ⟨x, hx, hs⟩ := List.mem_filterMap.1 hs
  obtain ⟨view, hview, rfl⟩ := Option.map_eq_some_iff.1 hs
  exact ⟨x, hx, List.mem_singleton.1 hn ▸ hview⟩

namespace Interpreter

open CallSite

variable {it : Interpreter} {f : Frame} {m m' : Machine}

theorem deallocate_eq {v : Value} {h : Handle} (hv : v.storage? = some h) : deallocate v = HeapM.free h := by
  cases v <;> cases hv <;> rfl

theorem buffer_evalSlices {start : Expr} {strides : List String} {dim : Nat} {v v' : View}
    (h : it.evalSlices f dim v (strides.map fun st => .slice start none (.var st)) m = (.ok v', m')) :
    v'.buffer = v.buffer := by
  induction strides generalizing dim v m with
  | nil =>
    simp only [List.map_nil, evalSlices, pure_apply] at h
    obtain rfl := Except.ok.inj (congrArg Prod.fst h)
    rfl
  | cons st strides ih =>
    simp only [List.map_cons, evalSlices, pure_bind] at h
    obtain ⟨first, m₁, -, h⟩ := exists_of_bind_ok h
    obtain ⟨first, m₂, -, h⟩ := exists_of_bind_ok h
    obtain ⟨step, m₃, -, h⟩ := exists_of_bind_ok h
    obtain ⟨step, m₄, -, h⟩ := exists_of_bind_ok h
    obtain ⟨low, m₅, -, h⟩ := exists_of_bind_ok h
    exact (ih h).trans rfl

theorem exists_of_stridedView {target : Target} {array : String} {strides : List String} {v : Value}
    (hne : strides ≠ []) (h : it.eval f (stridedView target array strides) m = (.ok v, m')) :
    ∃ whole, it.lookup f array = .ok (.array whole) ∧ v.storage? = some whole.buffer := by
  simp only [stridedView, eval] at h
  obtain ⟨whole, m₁, hwhole, h⟩ := exists_of_bind_ok h
  have hlookup : it.lookup f array = .ok (.array whole) := by
    unfold lookupArray at hwhole
    obtain ⟨u, m₂, hu, hwhole⟩ := exists_of_bind_ok hwhole
    have hu : it.lookup f array = .ok u := congrArg Prod.fst hu
    split at hwhole
    · rw [hu, Except.ok.inj (congrArg Prod.fst hwhole)]
    · cases hwhole
  refine ⟨whole, hlookup, ?_⟩
  have hslices : (strides.map fun st => Subscript.slice (.int target.indexBase) none (.var st)).all (!·.isSlice)
      = false := by
    obtain ⟨st, rest, rfl⟩ := List.exists_cons_of_ne_nil hne
    rfl
  rw [hslices, if_neg Bool.false_ne_true] at h
  split at h
  · obtain ⟨view, m₂, hview, h⟩ := exists_of_bind_ok h
    obtain rfl := Except.ok.inj (congrArg Prod.fst h)
    exact congrArg some (buffer_evalSlices hview)
  · cases h

theorem mem_evalActuals {live : List MarshalledArgument} (hlive : ∀ x ∈ live, ∃ a p, Marshalled it.target a p x)
    {k : Nat} {args : List (String × Value)} (h : it.evalActuals f k (actuals live) m = (.ok args, m))
    {name : String} {v : Value} (hmem : (name, v) ∈ args) :
    ∃ x ∈ live, x.name = name ∧ it.eval f x.passedValue m = (.ok v, m) := by
  induction live generalizing k args with
  | nil =>
    simp only [actuals, List.map_nil, evalActuals, pure_apply] at h
    obtain rfl := Except.ok.inj (congrArg Prod.fst h)
    cases hmem
  | cons x live ih =>
    obtain ⟨a, p, hm⟩ := hlive x List.mem_cons_self
    simp only [actuals, List.map_cons, evalActuals] at h
    obtain ⟨v₀, m₁, hx, h⟩ := exists_of_bind_ok h
    obtain rfl : m₁ = m := (congrArg Prod.snd hx).symm.trans
      ((it.eval_keeps f _ hm.callCount_passedValue).state m)
    obtain ⟨rest, m₂, hrest, h⟩ := exists_of_bind_ok h
    obtain ⟨hargs, rfl⟩ := Prod.mk.inj ((pure_apply ..).symm.trans h)
    obtain rfl := Except.ok.inj hargs
    rcases List.mem_cons.1 hmem with heq | hmem
    · obtain ⟨rfl, rfl⟩ := Prod.mk.inj heq
      exact ⟨x, List.mem_cons_self, rfl, hx⟩
    · obtain ⟨y, hy, hname, heval⟩ := ih (fun y hy => hlive y (List.mem_cons_of_mem _ hy)) hrest hmem
      exact ⟨y, List.mem_cons_of_mem _ hy, hname, heval⟩

theorem lookupAll_of_holds {names : List String} {values : List Value} (h : f.Holds names values) :
    it.lookupAll f names = .ok values := by
  unfold lookupAll
  induction h with
  | nil => rfl
  | cons hn _ ih =>
    rw [List.mapM_cons, it.lookup_of_get? hn, ih]
    rfl

variable (it) in
theorem outcome_one {w : Wrapper.Function} {r : Wrapper.Result} (hresults : w.results = [r]) {slot : Value}
    {shapes : List Value} (hholds : f.Holds (r.outputs.map (·.name)) (slot :: shapes)) :
    it.outcome w f m = (.ok ⟨some slot, shapes⟩, m) := by
  obtain ⟨hslot, hshapes⟩ := List.forall₂_cons.1 hholds
  have houtputs : it.lookupAll f (w.signature.outputs.map (·.name)) = .ok shapes := by
    rw [Function.signature_outputs hresults]
    exact lookupAll_of_holds hshapes
  have hreturned : it.returned f w.signature = .ok (some slot) := by
    rw [returned, Function.signature, hresults]
    exact congrArg (Except.map some) (it.lookup_of_get? hslot)
  unfold outcome
  rw [houtputs, bind_ok (ofExcept_apply _), hreturned, bind_ok (ofExcept_apply _), pure_apply]

end Interpreter

namespace Lowered

open Interpreter Exec CallSite

variable {it : Interpreter} {job : Job} {w : Wrapper.Function} {arguments : List MarshalledArgument}
  {results : List MarshalledResult} {inputs : List Value} {m : Machine} {f : Frame} {args : List (String × Value)}

theorem exists_receiver (h : Lowered it.target job w arguments results) {a : Semantic.Argument}
    (hbound : job.function.arguments.find? (·.bound) = some a) :
    ∃ x, arguments.find? (·.argument.isBound) = some x ∧ x.name = a.name := by
  have hrel := find?_forall₂ (p := (·.bound)) (q := (·.argument.isBound)) h.marshalled (by
    rintro a x ⟨p, -, hm⟩
    rw [Argument.isBound, hm.declared_eq])
  rw [hbound] at hrel
  generalize arguments.find? (·.argument.isBound) = found at hrel
  obtain ⟨p, -, hm⟩ | _ := hrel
  exact ⟨_, rfl, congrArg (·.name) hm.declared_eq⟩

theorem viewAlias_mem_companions (h : Lowered it.target job w arguments results) {x : MarshalledArgument}
    (hx : x ∈ liveAt w inputs arguments) {view : String} (hview : x.viewAlias = some view) : view ∈ x.companions := by
  obtain ⟨a, p, hm⟩ := h.live_marshalled x hx
  exact hm.viewAlias_mem hview

theorem viewAlias_ne_native (h : Lowered it.target job w arguments results) {x y : MarshalledArgument}
    (hx : x ∈ liveAt w inputs arguments) (hy : y ∈ liveAt w inputs arguments) :
    y.viewAlias ≠ some x.argument.native.name := by
  intro hview
  have hmem : x.argument.native.name ∈ arguments.flatMap (·.companions) :=
    List.mem_flatMap.2 ⟨y, (List.mem_filter.1 hy).1, h.viewAlias_mem_companions hy hview⟩
  exact h.native_apart x (List.mem_filter.1 hx).1 hmem

/-- The preparation at the statement that binds a view. What follows binds other views. -/
theorem exists_preparation_eq (h : Lowered it.target job w arguments results) {x : MarshalledArgument}
    (hx : x ∈ liveAt w inputs arguments) {view : String} (hview : x.viewAlias = some view) :
    ∃ (before : List Stmt) (later : List MarshalledArgument), preparation (liveAt w inputs arguments) =
        before ++ .aliasAssign (.var view) x.argument.callValue :: later.filterMap bindView ∧
      ∀ y ∈ later, y ∈ liveAt w inputs arguments ∧ y.viewAlias ≠ some view := by
  obtain ⟨earlier, later, hsplit⟩ := List.append_of_mem (mem_receiverFirst.2 hx)
  have hlive : ∀ y ∈ later, y ∈ liveAt w inputs arguments := fun y hy =>
    mem_receiverFirst.1 (hsplit ▸ List.mem_append_right _ (List.mem_cons_of_mem _ hy))
  refine ⟨(receiverFirst (liveAt w inputs arguments)).filterMap (·.rebuild) ++ earlier.filterMap bindView, later, ?_,
    fun y hy => ⟨hlive y hy, fun hn => ?_⟩⟩
  · rw [preparation, hsplit, List.filterMap_append (l := earlier) (f := bindView),
      List.filterMap_cons_some (by rw [bindView, hview]; rfl), List.append_assoc]
  · have hnodup : ((receiverFirst (liveAt w inputs arguments)).flatMap (·.companions)).Nodup := by
      have hperm : (receiverFirst (liveAt w inputs arguments)).Perm (liveAt w inputs arguments) :=
        List.filter_append_perm _ _
      rw [(hperm.flatMap_right _).nodup_iff]
      exact (List.filter_sublist.flatMap _).nodup h.companions
    rw [hsplit, List.flatMap_append, List.flatMap_cons] at hnodup
    have hapart := (List.nodup_append.1 (List.nodup_append.1 hnodup).2.1).2.2
    exact hapart view (h.viewAlias_mem_companions hx hview) view
      (List.mem_flatMap.2 ⟨y, hy, h.viewAlias_mem_companions (hlive y hy) hn⟩) rfl

/-- The temporary of a view holds what the view was when the native locals had been rebuilt, and those have not changed
since. -/
theorem exists_view (h : Lowered it.target job w arguments results) (hp : Prepared it w arguments inputs m f args)
    {x : MarshalledArgument} (hx : x ∈ liveAt w inputs arguments) {view : String} (hview : x.viewAlias = some view) :
    ∃ f₁ v, f.locals.get? view = some v ∧ it.eval f₁ x.argument.callValue m = (.ok v, m) ∧
      it.lookup f x.argument.native.name = it.lookup f₁ x.argument.native.name := by
  obtain ⟨before, later, hpreparation, hlater⟩ := h.exists_preparation_eq hx hview
  have hframe := hp.frame
  rw [hpreparation, execBlock_append] at hframe
  obtain ⟨f₁, m₁, hbefore, hframe⟩ := exists_of_bind_ok hframe
  obtain rfl : m₁ = m := (congrArg Prod.snd hbefore).symm.trans <| Keeps.state
    (it.execBlock_keeps (fun s hs f => it.preparation_step_keeps h.live_marshalled
      (hpreparation ▸ List.mem_append_left _ hs) f) _) m
  simp only [execBlock] at hframe
  rw [exec_aliasAssign_var, bind_assoc] at hframe
  obtain ⟨v, m₂, heval, hframe⟩ := exists_of_bind_ok hframe
  obtain ⟨a, p, hm⟩ := h.live_marshalled x hx
  obtain rfl : m₂ = m₁ := (congrArg Prod.snd heval).symm.trans
    ((it.eval_keeps f₁ _ hm.callCount_callValue).state m₁)
  rw [pure_bind] at hframe
  have houtside := it.execBlock_outside _ _ _ _ _ hframe
  have hset : Frame.Outside [view] f₁ (f₁.set view v) := .set f₁ v (List.mem_singleton_self view)
  refine ⟨f₁, v, ?_, heval, ?_⟩
  · rw [houtside.get? view fun hn => ?_, f₁.get?_set_self]
    obtain ⟨y, hy, hn⟩ := exists_of_mem_writes hn
    exact (hlater y hy).2 hn
  · rw [it.lookup_outside houtside fun hn => ?_, it.lookup_outside hset fun hn => ?_]
    · exact h.viewAlias_ne_native hx hx (List.mem_singleton.1 hn ▸ hview)
    · obtain ⟨y, hy, hn⟩ := exists_of_mem_writes hn
      exact h.viewAlias_ne_native hx (hlater y hy).1 hn

/-- What an argument was passed by refers to the same cell as its native local. -/
theorem lookup_of_passedValue (h : Lowered it.target job w arguments results)
    (hp : Prepared it w arguments inputs m f args) {x : MarshalledArgument} (hx : x ∈ liveAt w inputs arguments)
    {a : Semantic.Argument} {p : Passing} (hpassing : Passing.of? a.type a.optional = some p)
    (hm : Marshalled it.target a p x) (hstored : a.type.isStored = true) {v : Value} {o : Handle}
    (hv : it.eval f x.passedValue m = (.ok v, m)) (hstorage : v.storage? = some o) :
    ∃ held, it.lookup f x.argument.native.name = .ok held ∧ held.storage? = some o := by
  have hlookup : ∀ {n : String}, it.eval f (.var n) m = (.ok v, m) → it.lookup f n = .ok v := fun h => by
    simpa only [eval, ofExcept_apply, Prod.mk.injEq, and_true] using h
  have hvar : x.passedValue = .var x.argument.native.name →
      ∃ held, it.lookup f x.argument.native.name = .ok held ∧ held.storage? = some o := fun heq =>
    ⟨v, hlookup (heq ▸ hv), hstorage⟩
  cases hm with
  | direct native => exact hvar rfl
  | handle native ptr => exact hvar rfl
  | sequence native ptr length => exact hvar rfl
  | array native ptr shape strides viewAlias hshape hstrides =>
    have hne : a.type.order.reorder it.target.storageOrder strides ≠ [] := by
      rw [← List.length_pos_iff, StorageOrder.length_reorder, hstrides]
      cases ht : a.type <;> simp_all [ValueType.isStored, ValueType.rank, Passing.of?]
    cases viewAlias with
    | none =>
      obtain ⟨whole, hwhole, hbuffer⟩ := exists_of_stridedView hne hv
      exact ⟨_, hwhole, hbuffer.symm.trans hstorage⟩
    | some view =>
      obtain ⟨f₁, u, hget, heval, hsame⟩ := h.exists_view hp hx rfl
      obtain rfl : u = v := Except.ok.inj ((it.lookup_of_get? hget).symm.trans (hlookup hv))
      obtain ⟨whole, hwhole, hbuffer⟩ := exists_of_stridedView hne heval
      exact ⟨_, hsame.trans hwhole, hbuffer.symm.trans hstorage⟩

theorem lookup_receiver (h : Lowered it.target job w arguments results) (hp : Prepared it w arguments inputs m f args)
    {a : Semantic.Argument} {v : Value} {o : Handle} (hbound : job.function.arguments.find? (·.bound) = some a)
    (hstored : ∀ b ∈ job.function.arguments, b.name = a.name → b.type.isStored = true)
    (hpassed : Bindings.get? args a.name = some v) (hstorage : v.storage? = some o) :
    ∃ x ∈ arguments, arguments.find? (·.argument.isBound) = some x ∧
      ∃ held, it.lookup f x.argument.native.name = .ok held ∧ held.storage? = some o := by
  obtain ⟨x, hfind, hxname⟩ := h.exists_receiver hbound
  -- the value was passed by an argument of the receiver's name, and the two share their native local
  obtain ⟨y, hy, hyname, heval⟩ := mem_evalActuals h.live_marshalled hp.actuals (Bindings.mem_of_get? hpassed)
  have hx := List.mem_of_find?_eq_some hfind
  obtain ⟨b, hb, p, hpassing, hm⟩ := h.exists_marshalled (List.mem_filter.1 hy).1
  have hb := hstored b hb ((congrArg (·.name) hm.declared_eq).symm.trans hyname)
  refine ⟨x, hx, hfind, ?_⟩
  rw [h.native_eq x hx y (List.mem_filter.1 hy).1 (hxname.trans hyname.symm)]
  exact h.lookup_of_passedValue hp hy hpassing hm hb heval hstorage

theorem execBlock_deallocate {x : MarshalledArgument} {v : Value} (hrole : job.function.role = .destructor)
    (hfind : arguments.find? (·.argument.isBound) = some x) (hlookup : it.lookup f x.argument.native.name = .ok v)
    (m' : Machine) : it.execBlock f (Job.release job.function arguments) m' =
      (do onHeap (deallocate v); return f : Exec Frame) m' := by
  have hrelease : Job.release job.function arguments = [.deallocate x.argument.native.name] := by
    unfold Job.release
    rw [if_pos hrole, hfind]
  rw [hrelease, execBlock_singleton]
  simp only [exec]
  rw [hlookup, bind_ok (ofExcept_apply _)]

/-- The end of the body releases the receiver of a destructor, whatever was delivered before. -/
theorem execBlock_release (h : Lowered it.target job w arguments results) (hp : Prepared it w arguments inputs m f args)
    {freed : Option Handle} (hreleases : job.function.Releases ⟨args⟩ freed) {f' : Frame} {names : List String}
    (hf' : Frame.Outside names f f') (hnames : ∀ x ∈ names, ∀ a ∈ arguments, x ∉ a.names) (m' : Machine) :
    it.execBlock f' (Job.release job.function arguments) m' =
      (do onHeap (HeapM.release freed); return f' : Exec Frame) m' := by
  cases hreleases with
  | nothing keeps =>
    have hnil : Job.release job.function arguments = [] := by
      unfold Job.release
      split
      · next hrole =>
        have hunbound : arguments.find? (·.argument.isBound) = none := by
          rw [List.find?_eq_none]
          intro x hx
          obtain ⟨a, ha, p, -, hm⟩ := h.exists_marshalled hx
          rw [Argument.isBound, hm.declared_eq, keeps.resolve_left (not_not_intro hrole) a ha]
          exact Bool.false_ne_true
        rw [hunbound]
      · rfl
    rw [hnil]
    simp only [execBlock]
    rfl
  | @receiver a v o role bound stored passed storage =>
    obtain ⟨x, hx, hfind, held, hlookup, hheld⟩ := h.lookup_receiver hp bound stored passed storage
    have hlookup' : it.lookup f' x.argument.native.name = .ok held := by
      have hnative : x.argument.native.name ∉ names := fun hmem => hnames _ hmem x hx List.mem_cons_self
      rw [it.lookup_outside hf' hnative, hlookup]
    rw [execBlock_deallocate role hfind hlookup' m', deallocate_eq hheld]
    rfl

/-- What is not named for an argument is not bound when the host returns. -/
theorem Prepared.get?_eq_none (h : Lowered it.target job w arguments results)
    (hp : Prepared it w arguments inputs m f args) {n : String} (hn : ∀ a ∈ arguments, n ∉ a.names) :
    f.locals.get? n = none := by
  rw [(hp.outside h).get? n fun hmem => ?_]
  · refine Bindings.get?_ofPairs_of_notMem fun hmem => ?_
    rw [h.inputs_eq] at hmem
    obtain ⟨y, hy, hxy⟩ := List.mem_flatMap.1 hmem
    obtain ⟨a, -, p, -, hm⟩ := h.exists_marshalled hy
    exact hn y hy (hm.paramNames_sublist.subset hxy)
  · obtain ⟨y, hy, hxy⟩ := List.mem_flatMap.1 hmem
    exact hn y hy hxy

end Lowered

/-! ### Calls whose host returns -/

namespace Interpreter

open Exec

/-- A call of the wrapper of a job reaches the host, by the call `c`, and the host returns the values `vs`, which are
in memory. -/
structure Returns (it : Interpreter) (job : Job) (w : Wrapper.Function) (inputs : List Value) (m : Machine)
    (c : HostCall) (vs : List Value) (heap : Heap) : Prop where
  wraps : it.Wraps job w
  reached : (it.call w.name inputs m).2.calls = m.calls ++ [c]
  host : ∃ callee host, it.hosts.resolve? job.origin.owner? job.callName = some (callee, host) ∧
    host c.args c.heap = (.ok vs, heap)
  held : ∀ v ∈ vs, ∀ items ∈ v.items?, InMemory items

variable {it : Interpreter} {job : Job} {w : Wrapper.Function} {inputs : List Value} {m : Machine} {c : HostCall}
  {vs : List Value} {heap : Heap}

theorem Returns.of_crosses (hw : it.Wraps job w) (hnames : (job.function.arguments.map (·.name)).Nodup)
    {callee : Callee} {host : Host}
    (hhost : it.hosts.resolve? job.origin.owner? job.callName = some (callee, host))
    {crossings : List (List Value × Option Value)} (hcross : List.Forall₂
      (fun a c => Crosses m.heap it.target.storageOrder a c.1 c.2) job.function.arguments crossings)
    (hreturn : host ⟨passedArguments job.function.arguments crossings⟩ m.heap = (.ok vs, heap))
    (hheld : ∀ v ∈ vs, ∀ items ∈ v.items?, InMemory items) :
    it.Returns job w (crossings.flatMap (·.1)) m
      ⟨callee, ⟨passedArguments job.function.arguments crossings⟩, m.heap⟩ vs heap := by
  obtain ⟨t, t', hrun⟩ := hw.made
  obtain ⟨arguments, results, hl⟩ := Job.run_lowered hrun
  obtain ⟨f, hf⟩ := hl.prepared_of_crosses hnames hcross
  exact ⟨hw, hl.calls_eq hw.found hhost hf, ⟨callee, host, hhost, hreturn⟩, hheld⟩

/-- When the host returns, what is left to do is to finish. -/
theorem Returns.exists_finish (h : it.Returns job w inputs m c vs heap) :
    ∃ t t' arguments made f args, Lowering it.target job t t' w arguments made ∧
      Lowered.Prepared it w arguments inputs m f args ∧ c.args = ⟨args⟩ ∧
      it.call w.name inputs m =
        Lowered.finish it job w arguments (made.map (·.1)) f (resultValue vs) ⟨heap, m.calls ++ [c]⟩ := by
  obtain ⟨t, t', hrun⟩ := h.wraps.made
  obtain ⟨callee, host, hhost, hreturn⟩ := h.host
  obtain ⟨arguments, made, hlow⟩ := Job.run_lowering hrun
  have hl := hlow.lowered
  obtain ⟨f, args, hp, rfl⟩ := hl.exists_prepared h.wraps.found hhost h.reached
  rw [← hp.owner? hl] at hhost
  refine ⟨t, t', arguments, made, f, args, hlow, hp, rfl, ?_⟩
  rw [hl.call_eq_finish h.wraps.found hp, bind_ok (it.callHost_ok hhost hreturn)]

end Interpreter

/-! ### The heap afterwards -/

theorem Heap.isLive_of_isObject {heap : Heap} {h : Handle} (hobject : heap.isObject h = true) :
    heap.isLive h = true := by
  unfold isObject at hobject
  unfold isLive
  split at hobject
  · next heq => rw [heq]
  · cases hobject

theorem Heap.exists_cell?_of_isLive {heap : Heap} {h : Handle} (hlive : heap.isLive h = true) :
    ∃ c, heap.cell? h = some c := by
  unfold isLive at hlive
  cases hc : heap.cell? h with
  | none => simp [hc] at hlive
  | some c => exact ⟨c, rfl⟩

theorem HeapM.release_extend {heap : Heap} (cells : List Cell) {freed : Option Handle}
    (hlive : ∀ h, freed = some h → heap.isLive h = true) :
    ∃ after, HeapM.release freed (heap.extend cells) = (.ok (), after) ∧
      (∀ k, after.cell? (heap.next + k) = cells[k]?) ∧
      ∀ h c, heap.cell? h = some c → after.cell? h = some (if freed = some h then .freed else c) := by
  cases freed with
  | none =>
    refine ⟨heap.extend cells, rfl, heap.cell?_extend_next cells, fun h c hc => ?_⟩
    rw [Heap.cell?_extend hc, if_neg (by simp)]
  | some o =>
    obtain ⟨d, hd⟩ := Heap.exists_cell?_of_isLive (hlive o rfl)
    have hd' := Heap.cell?_extend hd cells
    have hlive' : (heap.extend cells).isLive o = true := by
      rw [← hlive o rfl, Heap.isLive, Heap.isLive, hd, hd']
    refine ⟨(heap.extend cells).setCell o .freed, ?_, fun k => ?_, fun h c hc => ?_⟩
    · simp only [HeapM.release, HeapM.free, Run.update, Heap.free, hlive', if_true]
    · have hlt : o < heap.next := Heap.lt_next_of_cell? hd
      have hne : o ≠ heap.next + k := Nat.ne_of_lt (Nat.lt_of_lt_of_le hlt (Nat.le_add_right _ _))
      rw [Heap.cell?_setCell_ne hne, Heap.cell?_extend_next]
    · by_cases ho : o = h
      · rw [if_pos (congrArg some ho), ← ho, Heap.cell?_setCell _ hd']
      · rw [if_neg fun heq => ho (Option.some.inj heq), Heap.cell?_setCell_ne ho, Heap.cell?_extend hc]

end AbiBridge
