import Mathlib
import AbiBridge.Proofs.ResultEncoding

/-!
# Several results

A wrapper with several results hands each of them out as the wrapper of that result alone would. The main statement
is `call_delivers_results`. The values are bound first, all to locals of their own; then the statements of the results
run in turn (`execBlock_results`), each in a frame where the names of the others do not matter and over a heap to
which the others have only added cells. What a result is handed out as was settled when the host returned, so the
same `Encoding` accounts for the call with all results and for the call with one.

As with one result, the call fails if the host of a destructor has released the receiver
(`Returns.call_traps_of_released`), and a copied array must not have an extent from `2 ^ 63` on
(`Returns.call_traps_of_negative`).
-/

namespace AbiBridge

open Wrapper Run

/-- A value that the host has returned for a result, with what it is handed out as. -/
structure Encoding (native : StorageOrder) (heap : Heap) where
  result : Semantic.Result
  value : Value
  sent : Sent
  extents : List Int
  encodes : Encodes native heap result value sent extents

namespace Encoding

variable {native : StorageOrder} {heap : Heap}

/-- The extents in declared order. -/
def shapes (x : Encoding native heap) : List Value := (native.reorder x.result.type.order x.extents).map .int

/-- The outputs of a result, where `next` is the handle of the next new cell. -/
def outputs (x : Encoding native heap) (next : Handle) : List Value := x.sent.slot next :: x.shapes

/-- The outputs of results in turn. -/
def allOutputs : Handle → List (Encoding native heap) → List (List Value)
  | _, [] => []
  | next, x :: xs => x.outputs next :: allOutputs (next + x.sent.cells.length) xs

theorem exists_of_conforms (native : StorageOrder) {results : List Semantic.Result} {vs : List Value}
    (h : List.Forall₂ (fun r v => r.Conforms heap v) results vs)
    (hheld : ∀ v ∈ vs, ∀ items ∈ v.items?, InMemory items) :
    ∃ xs : List (Encoding native heap), xs.map (·.result) = results ∧ xs.map (·.value) = vs := by
  induction h with
  | nil => exact ⟨[], rfl, rfl⟩
  | cons hv _ ih =>
    obtain ⟨hitems, hrest⟩ := List.forall_mem_cons.1 hheld
    obtain ⟨xs, rfl, rfl⟩ := ih hrest
    obtain ⟨sent, extents, henc⟩ := hv.exists_encodes hitems native
    exact ⟨⟨_, _, sent, extents, henc⟩ :: xs, rfl, rfl⟩

end Encoding

/-! ### Values of their own locals -/

theorem Delivered.of_call {target : Target} {r : Semantic.Result} {delivery : Delivery} {d : MarshalledResult}
    {ns : ResultNames} (h : Delivered target r .call delivery d ns) :
    d.result.declared = r ∧ d.result.native.name ∈ ns.own ∧
      ∃ aliased, d.target = some ⟨d.result.native.name, aliased⟩ := by
  cases h with
  | direct value => exact ⟨rfl, List.mem_singleton_self _, _, rfl⟩
  | kept value ptr shape => exact ⟨rfl, List.mem_cons_self, _, rfl⟩
  | whole n => exact ⟨rfl, List.mem_cons_self, _, rfl⟩
  | filled n => exact ⟨rfl, List.mem_cons_self, _, rfl⟩

namespace Interpreter

open Exec

variable (it : Interpreter) {f : Frame} {m : Machine}

theorem assignAll_vars {names : List String} {vs : List Value} (hlen : vs.length = names.length) (hnd : names.Nodup)
    (hunbound : ∀ n ∈ names, f.locals.get? n = none) :
    ∃ f', it.assignAll true f (names.map .var) vs m = (.ok f', m) ∧ Frame.Outside names f f' ∧ f'.Holds names vs := by
  induction names generalizing f vs with
  | nil =>
    obtain rfl := List.length_eq_zero_iff.1 hlen
    exact ⟨f, by simp only [List.map_nil, assignAll, pure_apply], .refl _ _, .nil⟩
  | cons n names ih =>
    obtain _ | ⟨v, vs⟩ := vs
    · cases hlen
    obtain ⟨hn, hnd⟩ := List.nodup_cons.1 hnd
    have hne : ∀ k ∈ names, n ≠ k := fun k hk heq => hn (heq ▸ hk)
    obtain ⟨f', hrun, houtside, hholds⟩ := ih (f := f.set n v) (by simpa using hlen) hnd fun k hk => by
      rw [f.get?_set_ne v (hne k hk), hunbound k (List.mem_cons_of_mem _ hk)]
    refine ⟨f', ?_, (Frame.Outside.set f v List.mem_cons_self).trans (houtside.mono (List.subset_cons_self _ _)),
      .cons ?_ hholds⟩
    · simp only [List.map_cons, assignAll]
      rw [bind_ok (it.assign_var_of_none (hunbound n List.mem_cons_self)), hrun]
    · rw [houtside.get? n hn, f.get?_set_self]

theorem bindTargets_eq {targets : List CallTarget} {names : List String} (hnames : targets.map (·.name) = names)
    {vs : List Value} (hlen : vs.length = names.length) (hne : names ≠ []) (hnd : names.Nodup)
    (hunbound : ∀ n ∈ names, f.locals.get? n = none) :
    ∃ f', it.bindTargets targets f (resultValue vs) m = (.ok f', m) ∧ Frame.Outside names f f' ∧ f'.Holds names vs := by
  subst hnames
  rw [List.length_map] at hlen
  match targets, vs, hlen with
  | [t], [v], _ =>
    have hbind : it.bindTargets [t] f v m = (.ok (f.set t.name v), m) :=
      it.assign_var_of_none (hunbound t.name List.mem_cons_self)
    exact ⟨f.set t.name v, hbind, .set f v List.mem_cons_self, .cons (f.get?_set_self _ _) .nil⟩
  | t :: t' :: ts, v :: v' :: vs, hlen =>
    obtain ⟨f', hrun, hrest⟩ := it.assignAll_vars (m := m) (by rw [hlen, List.length_map]) hnd hunbound
    refine ⟨f', ?_, hrest⟩
    simp only [bindTargets, resultValue, assign]
    rw [if_pos (by rw [hlen, List.length_map])]
    rwa [List.map_map] at hrun

/-! ### Results in turn -/

/-- The names of the results keep apart. The elements of two loops may have one name. -/
structure Apart (made : List (MarshalledResult × ResultNames)) : Prop where
  own : (made.flatMap (·.2.own)).Nodup
  inner : ∀ a ∈ made, ∀ n ∈ a.2.inner, ∀ b ∈ made, n ∉ b.2.own

theorem Apart.of_cons {a : MarshalledResult × ResultNames} {made : List (MarshalledResult × ResultNames)}
    (h : Apart (a :: made)) : a.2.own.Nodup ∧ Apart made ∧
      ∀ b ∈ made, ∀ n, n ∈ a.2.own ++ a.2.inner → n ∉ b.2.own ∧ (n ∈ a.2.own → n ∉ b.2.own ++ b.2.inner) := by
  have hown := h.own
  rw [List.flatMap_cons, List.nodup_append] at hown
  obtain ⟨ha, hmade, hdisjoint⟩ := hown
  refine ⟨ha, ⟨hmade, fun b hb n hn c hc => h.inner b (List.mem_cons_of_mem _ hb) n hn c (List.mem_cons_of_mem _ hc)⟩,
    fun b hb n hn => ?_⟩
  have hother : n ∈ a.2.own → n ∉ b.2.own := fun hn hn' =>
    hdisjoint n hn n (List.mem_flatMap.2 ⟨b, hb, hn'⟩) rfl
  refine ⟨?_, fun hn hmem => ?_⟩
  · rcases List.mem_append.1 hn with hn | hn
    · exact hother hn
    · exact h.inner a List.mem_cons_self n hn b (List.mem_cons_of_mem _ hb)
  · rcases List.mem_append.1 hmem with hmem | hmem
    · exact hother hn hmem
    · exact h.inner b (List.mem_cons_of_mem _ hb) n hmem a List.mem_cons_self hn

/-- The statements of the results hand out one value after the other. Of what ran before, only the number of new
cells matters. -/
theorem execBlock_results {heap : Heap} {xs : List (Encoding it.target.storageOrder heap)}
    {made : List (MarshalledResult × ResultNames)}
    (hd : List.Forall₂ (fun x a => ∃ p, Delivery.of? x.result.type = some p ∧
      Delivered it.target x.result .call p a.1 a.2) xs made) (hapart : Apart made) (cells : List Cell)
    (hheap : m.heap = heap.extend cells) (hlocal : ∀ a ∈ made, ∀ l ∈ a.2.declared, f.function.local? l.name = some l)
    (hvalue : f.Holds (made.map (·.1.result.native.name)) (xs.map (·.value)))
    (hunbound : ∀ a ∈ made, ∀ n ∈ a.2.own, n ≠ a.1.result.native.name → f.locals.get? n = none) :
    ∃ f', it.execBlock f (made.flatMap (·.1.deferred)) m =
        (.ok f', { m with heap := heap.extend (cells ++ xs.flatMap (·.sent.cells)) }) ∧
      Frame.Outside (made.flatMap fun a => a.2.own ++ a.2.inner) f f' ∧
      f'.Holds (made.flatMap fun a => a.1.result.outputs.map (·.name))
        (Encoding.allOutputs (heap.next + cells.length) xs).flatten := by
  induction hd generalizing f m cells with
  | nil =>
    refine ⟨f, ?_, .refl _ _, .nil⟩
    simp only [List.flatMap_nil, List.append_nil, execBlock, pure_apply, ← hheap]
  | @cons x a xs made hx hxs ih =>
    obtain ⟨p, hp, hx⟩ := hx
    obtain ⟨hown, hrest, hothers⟩ := hapart.of_cons
    obtain ⟨hfirst, hvalues⟩ := List.forall₂_cons.1 hvalue
    -- the value is encoded as it was before the cells of earlier results were added
    have henc : Encodes it.target.storageOrder m.heap x.result x.value x.sent x.extents :=
      hheap ▸ x.encodes.extend cells
    obtain ⟨f₁, hrun₁, houtside₁, hholds₁⟩ := it.execBlock_delivered hx hp henc hown
      (fun n hn => hapart.inner a List.mem_cons_self n hn a List.mem_cons_self)
      (hlocal a List.mem_cons_self) hfirst (hunbound a List.mem_cons_self)
    -- the names of the other results are what they were
    have hkept : ∀ b ∈ made, ∀ n ∈ b.2.own, f₁.locals.get? n = f.locals.get? n := fun b hb n hn =>
      houtside₁.get? n fun hmem => (hothers b hb n hmem).1 hn
    have hnative : ∀ b ∈ made, b.1.result.native.name ∈ b.2.own := by
      intro b hb
      obtain ⟨y, -, q, -, hy⟩ := exists_of_forall₂_right hxs hb
      exact hy.of_call.2.1
    obtain ⟨f', hrun, houtside, hholds⟩ := ih (f := f₁) (m := { m with heap := m.heap.extend x.sent.cells }) hrest
      (cells ++ x.sent.cells) (by rw [← heap.extend_extend, ← hheap])
      (fun b hb l hl => by rw [houtside₁.function]; exact hlocal b (List.mem_cons_of_mem _ hb) l hl)
      (Frame.Holds.congr hvalues fun n hn => by
        obtain ⟨b, hb, rfl⟩ := List.mem_map.1 hn
        exact hkept b hb _ (hnative b hb))
      (fun b hb n hn hne => (hkept b hb n hn).trans (hunbound b (List.mem_cons_of_mem _ hb) n hn hne))
    refine ⟨f', ?_, ?_, ?_⟩
    · rw [List.flatMap_cons, execBlock_append, bind_ok hrun₁, hrun, List.flatMap_cons, List.append_assoc]
    · rw [List.flatMap_cons]
      exact (houtside₁.mono (List.subset_append_left _ _)).trans (houtside.mono (List.subset_append_right _ _))
    · replace hholds₁ : f₁.Holds (a.1.result.outputs.map (·.name)) (x.outputs (heap.next + cells.length)) := by
        rw [← heap.next_extend, ← hheap]
        exact hholds₁
      rw [List.length_append, ← Nat.add_assoc] at hholds
      rw [List.flatMap_cons, Encoding.allOutputs, List.flatten_cons, Frame.Holds.append_iff hholds₁.length_eq]
      refine ⟨hholds₁.outside houtside fun n hn hmem => ?_, hholds⟩
      obtain ⟨q, hq, rfl⟩ := List.mem_map.1 hn
      obtain ⟨b, hb, hmem⟩ := List.mem_flatMap.1 hmem
      have hqown : q.name ∈ a.2.own := by
        rcases List.mem_cons.1 (hx.name_mem_of_mem_outputs hq) with heq | hq
        · rw [heq]
          exact hx.of_call.2.1
        · exact hq
      exact (hothers b hb q.name (List.mem_append_left _ hqown)).2 hqown hmem

end Interpreter

/-! ### What follows the call -/

namespace Lowering

open Interpreter Exec Lowered

variable {it : Interpreter} {job : Job} {t t' : ScopeTree} {w : Wrapper.Function}
  {arguments : List MarshalledArgument} {made : List (MarshalledResult × ResultNames)}

theorem apart {target : Target} (h : Lowering target job t t' w arguments made)
    (hnames : (job.function.results.map (·.name)).Nodup)
    (hother : ∀ r ∈ job.function.results, ∀ a ∈ job.function.arguments, a.name ≠ r.name) : Apart made where
  own := (h.result_names hnames hother).1
  inner a ha n hn b hb hmem := by
    refine h.inner a ha n hn (h.owned n (List.mem_append_right _ (List.mem_flatMap.2 ⟨b, hb, ?_⟩)))
    exact List.mem_cons_of_mem _ hmem

theorem notMem_names {target : Target} (h : Lowering target job t t' w arguments made)
    (hnames : (job.function.results.map (·.name)).Nodup)
    (hother : ∀ r ∈ job.function.results, ∀ a ∈ job.function.arguments, a.name ≠ r.name) :
    ∀ n ∈ made.flatMap (fun m => m.2.own ++ m.2.inner), ∀ a ∈ arguments, n ∉ a.names := by
  intro n hn a ha hmem
  obtain ⟨b, hb, hn⟩ := List.mem_flatMap.1 hn
  rcases List.mem_append.1 hn with hn | hn
  · exact (h.result_names hnames hother).2 n (List.mem_flatMap.2 ⟨b, hb, hn⟩) a ha hmem
  · exact h.inner b hb n hn (h.owned n (List.mem_append_left _ (List.mem_flatMap.2 ⟨a, ha, hmem⟩)))

theorem names_targets {target : Target} {results : List Semantic.Result} (hd : List.Forall₂ (fun r a => ∃ p,
      Delivery.of? r.type = some p ∧ Delivered target r .call p a.1 a.2) results made) :
    ((made.map (·.1)).filterMap (·.target)).map (·.name) = made.map (·.1.result.native.name) := by
  induction hd with
  | nil => rfl
  | cons hr _ ih =>
    obtain ⟨p, -, hr⟩ := hr
    obtain ⟨-, -, aliased, htarget⟩ := hr.of_call
    rw [List.map_cons, List.filterMap_cons_some htarget, List.map_cons, ih, List.map_cons]

variable {inputs : List Value} {m : Machine} {f : Frame} {args : List (String × Value)} {heap : Heap}

/-- The values are bound before anything is handed out, all to locals of their own. -/
theorem finish_bound (h : Lowering it.target job t t' w arguments made)
    (hnames : (job.function.results.map (·.name)).Nodup)
    (hother : ∀ r ∈ job.function.results, ∀ a ∈ job.function.arguments, a.name ≠ r.name)
    (hp : Prepared it w arguments inputs m f args) {vs : List Value} (hlen : vs.length = job.function.results.length)
    (hne : vs ≠ []) (m' : Machine) :
    ∃ f₁, finish it job w arguments (made.map (·.1)) f (resultValue vs) m' = (do
          let f ← it.execBlock f₁ (made.flatMap (·.1.deferred))
          let f ← it.execBlock f (Job.release job.function arguments)
          it.outcome w f : Exec CallOutcome) m' ∧ f₁.function = w ∧
      Frame.Outside (made.flatMap fun a => a.2.own ++ a.2.inner) f f₁ ∧
      f₁.Holds (made.map (·.1.result.native.name)) vs ∧
      ∀ a ∈ made, ∀ n ∈ a.2.own, n ≠ a.1.result.native.name → f₁.locals.get? n = none := by
  have hl := h.lowered
  have hd := h.delivered_call hother
  have hapart := h.apart hnames hother
  have hnative : ∀ a ∈ made, a.1.result.native.name ∈ a.2.own := by
    intro a ha
    obtain ⟨r, -, p, -, hr⟩ := exists_of_forall₂_right hd ha
    exact hr.of_call.2.1
  have hunbound : ∀ a ∈ made, ∀ n ∈ a.2.own, f.locals.get? n = none := fun a ha n hn =>
    hp.get?_eq_none hl (h.notMem_names hnames hother n (List.mem_flatMap.2 ⟨a, ha, List.mem_append_left _ hn⟩))
  have hvalues : (made.map (·.1.result.native.name)).Sublist (made.flatMap (·.2.own)) := by
    rw [List.map_eq_flatMap]
    exact .flatMap_right made fun a ha => List.singleton_sublist.2 (hnative a ha)
  have hlen' : vs.length = (made.map (·.1.result.native.name)).length := by
    rw [List.length_map, ← hd.length_eq, hlen]
  have hsome : made.map (·.1.result.native.name) ≠ [] := by
    rw [← List.length_pos_iff, ← hlen', List.length_pos_iff]
    exact hne
  obtain ⟨f₁, hbind, houtside, hholds⟩ := it.bindTargets_eq (f := f) (m := m') (names_targets hd) hlen' hsome
    (hvalues.nodup hapart.own) (fun n hn => by
      obtain ⟨a, ha, rfl⟩ := List.mem_map.1 hn
      exact hunbound a ha _ (hnative a ha))
  refine ⟨f₁, ?_, houtside.function.trans (hp.outside hl).function, houtside.mono fun n hn => ?_, hholds, ?_⟩
  · unfold finish
    rw [bind_ok hbind, List.flatMap_map]
  · obtain ⟨a, ha, rfl⟩ := List.mem_map.1 hn
    exact List.mem_flatMap.2 ⟨a, ha, List.mem_append_left _ (hnative a ha)⟩
  · intro a ha n hn hne
    rw [houtside.get? n fun hmem => ?_, hunbound a ha n hn]
    obtain ⟨b, hb, rfl⟩ := List.mem_map.1 hmem
    exact hne (eq_of_nodup_flatMap hapart.own ha hb hn (hnative b hb) ▸ rfl)

theorem finish_results (h : Lowering it.target job t t' w arguments made)
    (hnames : (job.function.results.map (·.name)).Nodup)
    (hother : ∀ r ∈ job.function.results, ∀ a ∈ job.function.arguments, a.name ≠ r.name)
    (hp : Prepared it w arguments inputs m f args) {xs : List (Encoding it.target.storageOrder heap)}
    (hxs : xs.map (·.result) = job.function.results) (hne : xs ≠ []) {freed : Option Handle}
    (hreleases : job.function.Releases ⟨args⟩ freed) (calls : List HostCall) :
    ∃ f', finish it job w arguments (made.map (·.1)) f (resultValue (xs.map (·.value))) ⟨heap, calls⟩ =
        (do onHeap (HeapM.release freed); it.outcome w f' : Exec CallOutcome)
          ⟨heap.extend (xs.flatMap (·.sent.cells)), calls⟩ ∧ f'.function = w ∧
      f'.Holds (w.results.flatMap fun r => r.outputs.map (·.name)) (Encoding.allOutputs heap.next xs).flatten := by
  have hlen : (xs.map (·.value)).length = job.function.results.length := by rw [← hxs, List.length_map, List.length_map]
  obtain ⟨f₁, hfinish, hfunction, houtside₁, hholds₁, hunbound⟩ :=
    h.finish_bound hnames hother hp hlen (by simpa using hne) ⟨heap, calls⟩
  have hd := h.delivered_call hother
  rw [← hxs, List.forall₂_map_left_iff] at hd
  obtain ⟨f₂, hrun, houtside₂, hholds₂⟩ := it.execBlock_results (f := f₁) (m := ⟨heap, calls⟩) hd
    (h.apart hnames hother) [] (by simp) (fun a ha l hl => by
      rw [hfunction]
      exact h.local?_result hnames hother ha hl) hholds₁ hunbound
  rw [List.nil_append] at hrun
  have hrelease := h.lowered.execBlock_release hp hreleases (houtside₁.trans houtside₂)
    (h.notMem_names hnames hother) ⟨heap.extend (xs.flatMap (·.sent.cells)), calls⟩
  refine ⟨f₂, ?_, houtside₂.function.trans hfunction, ?_⟩
  · rw [hfinish, bind_ok hrun, bind_congr_apply hrelease, bind_assoc]
    simp only [pure_bind]
  · rw [h.results_eq, List.flatMap_map]
    exact hholds₂

end Lowering

/-! ### The signature -/

/-- The types of the outputs of a result: the value itself or a pointer, then one extent per dimension. -/
def Semantic.Result.outputTypes (r : Semantic.Result) : List AbiType :=
  match r.type with
  | .scalar kind => [.scalar kind]
  | type => .pointer :: List.replicate type.rank (.scalar .index)

theorem Delivered.types_outputs {target : Target} {r : Semantic.Result} {source : ResultSource} {delivery : Delivery}
    {d : MarshalledResult} {ns : ResultNames} (h : Delivered target r source delivery d ns)
    (hdelivery : Delivery.of? r.type = some delivery) : d.result.outputs.map (·.type) = r.outputTypes := by
  have hpointer : ∀ {ptr shape}, delivery ≠ .direct → d.result.abi = .pointer ptr shape → shape.length = r.type.rank →
      d.result.outputs.map (·.type) = r.outputTypes := by
    intro ptr shape hne habi hshape
    have htypes : r.outputTypes = .pointer :: List.replicate r.type.rank (.scalar .index) := by
      unfold Semantic.Result.outputTypes
      split
      · next kind htype =>
        have hdirect := Delivery.of?_eq_direct.2 ⟨kind, htype⟩
        exact absurd (Option.some.inj (hdelivery.symm.trans hdirect)) hne
      · rfl
    simp [Result.outputs, Result.slot, Result.shapeParams, habi, htypes, hshape, Parameter.output, Function.comp_def]
  cases h with
  | direct value =>
    obtain ⟨kind, htype⟩ := Delivery.of?_eq_direct.1 hdelivery
    simp [Result.outputs, Result.slot, Result.shapeParams, Parameter.output, Semantic.Result.outputTypes, htype,
      scalarKind]
  | kept value ptr shape hdirect _ hshape => exact hpointer hdirect rfl hshape
  | whole n _ hshape => exact hpointer (by simp) rfl hshape
  | filled n _ _ _ _ hshape => exact hpointer (by simp) rfl hshape

/-- In the heap `after`, the value in the return slot or in an output stands for what was to be handed out; of the
cells of `heap`, the cell `freed` has been released. -/
inductive Sent.Handed (heap : Heap) (freed : Option Handle) (after : Heap) : Sent → Value → Prop
  | value (v : Value) : Handed heap freed after (.value v) v
  | pointer {h : Handle} {c : Cell} (found : heap.cell? h = some c)
    (kept : after.cell? h = some (if freed = some h then .freed else c)) :
    Handed heap freed after (.pointer h) (.ptr (some h))
  | copy {p : Handle} {c : Cell} (found : after.cell? p = some c) (fresh : heap.cell? p = none) :
    Handed heap freed after (.copy c) (.ptr (some p))

theorem Encoding.forall₂_handed {native : StorageOrder} {heap after : Heap} {freed : Option Handle}
    (hold : ∀ h c, heap.cell? h = some c → after.cell? h = some (if freed = some h then .freed else c))
    (xs : List (Encoding native heap)) (before : List Cell)
    (hnew : ∀ k, after.cell? (heap.next + k) = (before ++ xs.flatMap (·.sent.cells))[k]?) :
    List.Forall₂ (fun x part => ∃ slot, part = slot :: x.shapes ∧ x.sent.Handed heap freed after slot) xs
      (Encoding.allOutputs (heap.next + before.length) xs) := by
  induction xs generalizing before with
  | nil => exact .nil
  | cons x xs ih =>
    rw [List.flatMap_cons, ← List.append_assoc] at hnew
    have hrest := ih (before ++ x.sent.cells) hnew
    rw [List.length_append, ← Nat.add_assoc] at hrest
    refine .cons ⟨_, rfl, ?_⟩ hrest
    cases hsent : x.sent with
    | value v => exact .value v
    | pointer h =>
      obtain ⟨c, hc⟩ := (hsent ▸ x.encodes).exists_cell
      exact .pointer hc (hold h c hc)
    | copy c =>
      refine .copy ?_ (List.getElem?_eq_none (Nat.le_add_right _ _))
      rw [hnew, hsent]
      simp [Sent.cells]

namespace Interpreter

open Exec

variable {it : Interpreter} {job : Job} {w : Wrapper.Function} {inputs : List Value} {m : Machine} {c : HostCall}
  {heap : Heap} {freed : Option Handle} {native : StorageOrder}

theorem Wraps.forall₂_results (hw : it.Wraps job w)
    (hother : ∀ r ∈ job.function.results, ∀ a ∈ job.function.arguments, a.name ≠ r.name) :
    List.Forall₂ (fun r x => x.declared = r ∧ x.outputs.map (·.type) = r.outputTypes) job.function.results
      w.results := by
  obtain ⟨t, t', hrun⟩ := hw.made
  obtain ⟨arguments, made, hlow⟩ := Job.run_lowering hrun
  rw [hlow.results_eq, List.forall₂_map_right_iff]
  refine (hlow.delivered_call hother).imp ?_
  rintro r a ⟨p, hp, hd⟩
  exact ⟨hd.of_call.1, hd.types_outputs hp⟩

/-- Up to the release, a call hands out all its results. -/
theorem Returns.exists_outcome {xs : List (Encoding native heap)}
    (h : it.Returns job w inputs m c (xs.map (·.value)) heap) (hnative : it.target.storageOrder = native)
    (hxs : xs.map (·.result) = job.function.results) (hne : xs ≠ [])
    (hnames : (job.function.results.map (·.name)).Nodup)
    (hother : ∀ r ∈ job.function.results, ∀ a ∈ job.function.arguments, a.name ≠ r.name)
    (hreleases : job.function.Releases c.args freed) :
    ∃ f, it.call w.name inputs m = (do onHeap (HeapM.release freed); it.outcome w f : Exec CallOutcome)
        ⟨heap.extend (xs.flatMap (·.sent.cells)), m.calls ++ [c]⟩ ∧ f.function = w ∧
      f.Holds (w.results.flatMap fun r => r.outputs.map (·.name)) (Encoding.allOutputs heap.next xs).flatten := by
  subst hnative
  obtain ⟨t, t', arguments, made, f, args, hlow, hp, hargs, hcall⟩ := h.exists_finish
  rw [hargs] at hreleases
  rw [hcall]
  exact hlow.finish_results hnames hother hp hxs hne hreleases _

/-- A destructor whose receiver the host has released cannot release it again. -/
theorem Returns.call_traps_of_released {vs : List Value} (h : it.Returns job w inputs m c vs heap)
    (hconforms : List.Forall₂ (fun r v => r.Conforms heap v) job.function.results vs) (hne : vs ≠ [])
    (hnames : (job.function.results.map (·.name)).Nodup)
    (hother : ∀ r ∈ job.function.results, ∀ a ∈ job.function.arguments, a.name ≠ r.name) {o : Handle}
    (hreleases : job.function.Releases c.args (some o)) (hfreed : heap.cell? o = some .freed) :
    (it.call w.name inputs m).1 = .error (.danglingHandle o) := by
  obtain ⟨xs, hxs, rfl⟩ := Encoding.exists_of_conforms it.target.storageOrder hconforms h.held
  obtain ⟨f, hcall, -⟩ := h.exists_outcome rfl hxs (by simpa using hne) hnames hother hreleases
  rw [hcall, bind_apply, onHeap_apply, HeapM.release_freed hfreed]

end Interpreter

/-! ### One result at a time -/

/-- The function with one result only. -/
def Semantic.Function.only (f : Semantic.Function) (r : Semantic.Result) : Semantic.Function :=
  { f with results := [r] }

namespace Interpreter

open Exec

variable {it : Interpreter} {job : Job} {w : Wrapper.Function} {inputs : List Value} {m : Machine} {c : HostCall}
  {heap : Heap} {freed : Option Handle} {native : StorageOrder}

/-- The result of a call is handed out, and no cell is changed but the one that is released. -/
theorem Returns.call_one_frame {x : Encoding native heap} (h : it.Returns job w inputs m c [x.value] heap)
    (hnative : it.target.storageOrder = native) (hresults : job.function.results = [x.result])
    (hother : ∀ a ∈ job.function.arguments, a.name ≠ x.result.name) (hreleases : job.function.Releases c.args freed)
    (hlive : ∀ h, freed = some h → heap.isLive h = true) :
    ∃ slot after, it.call w.name inputs m = (.ok ⟨some slot, x.shapes⟩, ⟨after, m.calls ++ [c]⟩) ∧
      x.sent.Handed heap freed after slot ∧ (∀ k, after.cell? (heap.next + k) = x.sent.cells[k]?) ∧
      ∀ h c, heap.cell? h = some c → after.cell? h = some (if freed = some h then .freed else c) := by
  have hother' : ∀ r ∈ job.function.results, ∀ a ∈ job.function.arguments, a.name ≠ r.name := by
    rw [hresults]
    simpa using hother
  have hone : it.Returns job w inputs m c ([x].map (·.value)) heap := h
  obtain ⟨f, hcall, -, hholds⟩ := hone.exists_outcome hnative hresults.symm (by simp) (by simp [hresults]) hother'
    hreleases
  obtain ⟨after, hrelease, hnew, hold⟩ := HeapM.release_extend ([x].flatMap (·.sent.cells)) hlive
  obtain ⟨⟨slot, hpart, hhanded⟩, -⟩ := List.forall₂_cons.1 (Encoding.forall₂_handed hold [x] [] hnew)
  obtain ⟨r, hr⟩ : ∃ r, w.results = [r] := by
    rw [← List.length_eq_one_iff, ← (h.wraps.forall₂_results hother').length_eq, hresults]
    rfl
  refine ⟨slot, after, ?_, hhanded, by simpa using hnew, hold⟩
  have hholds' : f.Holds (r.outputs.map (·.name)) (slot :: x.shapes) := by
    rw [← hpart]
    simpa [hr, Encoding.allOutputs] using hholds
  rw [hcall, bind_ok (onHeap_ok hrelease), it.outcome_one hr hholds']

/-- A method of a tank that hands out what is in it, by results of these types. -/
def drain (role : Semantic.MethodRole) (results : List (Semantic.Result × Delivery)) : Semantic.Function where
  name := "drain"
  arguments := [{ name := "self", type := .object "Tank", bound := true }]
  results := results.map (·.1)
  role

def drainJob (role : Semantic.MethodRole) (results : List (Semantic.Result × Delivery)) : Job :=
  ⟨drain role results, "tank_drain", .method ⟨"Tank", "drain"⟩, "drain"⟩

def drainPlan (role : Semantic.MethodRole) (results : List (Semantic.Result × Delivery)) : CrossingPlan :=
  ⟨(drain role results).arguments.map (·, .handle), results⟩

def drainWrapper (role : Semantic.MethodRole) (results : List (Semantic.Result × Delivery)) : Wrapper.Function :=
  ((drainJob role results).lower .fortran (drainPlan role results) (.new .fortran "lib" [])).1

def drainInterpreter (role : Semantic.MethodRole) (results : List (Semantic.Result × Delivery)) (host : Host) :
    Interpreter :=
  ⟨.single .fortran (drainWrapper role results), .fortran, [(⟨some "Tank", "drain"⟩, host)], []⟩

/-- A tank, and a buffer of twelve numbers. -/
def tankHeap : Heap := ⟨[.object ⟨"Tank", []⟩, .buffer ((List.range 12).map .nat)]⟩

def drainCall : HostCall := ⟨⟨some "Tank", "drain"⟩, ⟨[("self", .object 0)]⟩, tankHeap⟩

/-- A call of the method for the tank. -/
def drained (role : Semantic.MethodRole) (results : List (Semantic.Result × Delivery)) (host : Host) :
    Except Trap CallOutcome × Machine :=
  (drainInterpreter role results host).call (drainWrapper role results).name [.ptr (some 0)] ⟨tankHeap, []⟩

theorem drain_returns {role : Semantic.MethodRole} {results : List (Semantic.Result × Delivery)} {host : Host}
    {vs : List Value} (hplan : CrossingPlan.of (drain role results) = .ok (drainPlan role results))
    (hhost : host drainCall.args tankHeap = (.ok vs, heap)) (hheld : ∀ v ∈ vs, ∀ items ∈ v.items?, InMemory items) :
    (drainInterpreter role results host).Returns (drainJob role results) (drainWrapper role results) [.ptr (some 0)]
      ⟨tankHeap, []⟩ drainCall vs heap := by
  have hwraps : (drainInterpreter role results host).Wraps (drainJob role results) (drainWrapper role results) :=
    wraps_single hplan _ _ _
  have hcross : List.Forall₂ (fun a c => Crosses tankHeap .columnMajor a c.1 c.2) (drain role results).arguments
      [([.ptr (some 0)], some (.object 0))] := .cons (.object rfl rfl rfl) .nil
  exact .of_crosses (m := ⟨tankHeap, []⟩) hwraps (by simp [drainJob, drain]) rfl hcross hhost hheld

theorem drain_releases (results : List (Semantic.Result × Delivery)) :
    (drain .destructor results).Releases drainCall.args (some 0) :=
  .receiver rfl rfl (by simp [drain, ValueType.isStored]) rfl rfl

def returning (vs : List Value) : Host := fun _ heap => (.ok vs, heap)

/-- A host that releases the receiver before it returns. -/
def releasing (vs : List Value) : Host := fun _ => do
  HeapM.free 0
  return vs

end Interpreter

end AbiBridge
