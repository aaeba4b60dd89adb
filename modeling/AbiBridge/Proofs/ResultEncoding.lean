import Mathlib
import AbiBridge.Proofs.HostReturn

/-!
# What is handed out for the value of a result

`Encodes` says what a result that conforms to its type is handed out as: itself, by the address of a cell that is
there, or by the address of a new one, together with its extents. What it is depends on the declaration of the result
and on the heap that the host leaves behind, and cells that are added to the heap do not matter (`Encodes.extend`).
`execBlock_delivered` says that the statements made for the result do so, wherever they stand in a body.
-/

namespace AbiBridge

open Wrapper Run

/-- How a value is handed out. -/
inductive Sent where
  | value (v : Value)
  /-- By the address of a cell that is there. -/
  | pointer (h : Handle)
  /-- By the address of a new cell. -/
  | copy (c : Cell)

namespace Sent

/-- What is handed out, where `next` is the handle of the next new cell. -/
def slot (next : Handle) : Sent → Value
  | .value v => v
  | .pointer h => .ptr (some h)
  | .copy _ => .ptr (some next)

/-- The new cells. -/
def cells : Sent → List Cell
  | .copy c => [c]
  | _ => []

end Sent

/-! ### Values that conform -/

/-- A list, a set, or a tuple of known length whose elements have one type. -/
def ValueType.isCollection : ValueType → Bool
  | .list _ | .set _ | .uniformTuple _ (some _) => true
  | _ => false

/-- The value is one that the result may have. A scalar is handed on whatever it is. -/
inductive Semantic.Result.Conforms (heap : Heap) (r : Semantic.Result) : Value → Prop
  | scalar {kind : ScalarKind} {v : Value} (type : r.type = .scalar kind) : Conforms heap r v
  | object {className : String} {h : Handle} {o : Instance} (type : r.type = .object className)
    (found : heap.object h = .ok o) : Conforms heap r (.object h)
  | array {kind : ScalarKind} {rank : Nat} {order : StorageOrder} {view : View} (type : r.type = .array kind rank order)
    (rank : view.rank = rank) (fits : heap.Fits view) (counted : view.extents.prod < 2 ^ 64)
    (small : r.isAlias = false → ∀ n ∈ view.extents, n < 2 ^ 63) : Conforms heap r (.array view)
  | collection {v : Value} {items : List Value} (type : r.type.isCollection = true) (listed : v.items? = some items) :
    Conforms heap r v

/-- What a value is handed out as for a result, with its extents in native order. -/
inductive Encodes (native : StorageOrder) (heap : Heap) (r : Semantic.Result) : Value → Sent → List Int → Prop
  | scalar {kind : ScalarKind} {v : Value} (type : r.type = .scalar kind) : Encodes native heap r v (.value v) []
  /-- An object is shared or copied field by field. -/
  | shared {className : String} {h : Handle} {o : Instance} (type : r.type = .object className)
    (isAlias : r.isAlias = true) (found : heap.cell? h = some (.object o)) :
    Encodes native heap r (.object h) (.pointer h) []
  | fields {className : String} {h : Handle} {o : Instance} (type : r.type = .object className)
    (notAlias : r.isAlias = false) (found : heap.cell? h = some (.object o)) :
    Encodes native heap r (.object h) (.copy (.object ⟨className, o.fields⟩)) []
  /-- A reference to an array that is all of its buffer is handed out as that buffer. -/
  | covering {kind : ScalarKind} {rank : Nat} {order : StorageOrder} {view : View} {items : List Value}
    (type : r.type = .array kind rank order) (rank : view.rank = rank) (isAlias : r.isAlias = true)
    (found : heap.cell? view.buffer = some (.buffer items)) (covers : view.covers items.length native = true) :
    Encodes native heap r (.array view) (.pointer view.buffer) (view.extents.map signed64)
  | dense {kind : ScalarKind} {rank : Nat} {order : StorageOrder} {view : View} {items xs : List Value}
    (type : r.type = .array kind rank order) (rank : view.rank = rank) (fits : heap.Fits view)
    (counted : view.extents.prod < 2 ^ 64) (found : heap.cell? view.buffer = some (.buffer items))
    (elements : heap.elements view = .ok xs) (small : r.isAlias = false → ∀ n ∈ view.extents, n < 2 ^ 63)
    (apart : r.isAlias = true → view.covers items.length native = false) :
    Encodes native heap r (.array view) (.copy (.buffer (denseData native view.extents xs)))
      (view.extents.map signed64)
  | collection {v : Value} {items : List Value} (type : r.type.isCollection = true) (listed : v.items? = some items)
    (held : InMemory items) : Encodes native heap r v (.copy (.buffer items)) [items.length]

variable {native : StorageOrder} {heap : Heap} {r : Semantic.Result} {v : Value} {sent : Sent} {outs : List Int}

theorem Semantic.Result.Conforms.exists_encodes (h : r.Conforms heap v) (hheld : ∀ items ∈ v.items?, InMemory items)
    (native : StorageOrder) : ∃ sent outs, Encodes native heap r v sent outs := by
  cases h with
  | scalar type => exact ⟨_, _, .scalar type⟩
  | object type found =>
    have hcell := Heap.object_eq_ok.1 found
    cases halias : r.isAlias with
    | true => exact ⟨_, _, .shared type halias hcell⟩
    | false => exact ⟨_, _, .fields type halias hcell⟩
  | @array _ _ _ view type rank fits counted small =>
    obtain ⟨xs, hxs, -⟩ := Heap.elements_of_fits fits
    obtain ⟨items, hcell, -⟩ := id fits
    by_cases hcovers : r.isAlias = true ∧ view.covers items.length native = true
    · exact ⟨_, _, .covering type rank hcovers.1 hcell hcovers.2⟩
    · exact ⟨_, _, .dense type rank fits counted hcell hxs small fun halias => by simpa [halias] using hcovers⟩
  | collection type listed => exact ⟨_, _, .collection type listed (hheld _ listed)⟩

namespace Encodes

theorem extend (h : Encodes native heap r v sent outs) (cells : List Cell) :
    Encodes native (heap.extend cells) r v sent outs := by
  cases h with
  | scalar type => exact .scalar type
  | shared type isAlias found => exact .shared type isAlias (Heap.cell?_extend found cells)
  | fields type notAlias found => exact .fields type notAlias (Heap.cell?_extend found cells)
  | covering type rank isAlias found covers =>
    exact .covering type rank isAlias (Heap.cell?_extend found cells) covers
  | dense type rank fits counted found elements small apart =>
    exact .dense type rank (fits.extend cells) counted (Heap.cell?_extend found cells)
      ((Heap.elements_extend fits cells).trans elements) small apart
  | collection type listed held => exact .collection type listed held

theorem exists_cell {p : Handle} (h : Encodes native heap r v (.pointer p) outs) : ∃ c, heap.cell? p = some c := by
  cases h with
  | shared _ _ found => exact ⟨_, found⟩
  | covering _ _ _ found => exact ⟨_, found⟩

theorem extent?_eq (h : Encodes native heap r v sent outs) :
    List.Forall₂ (fun dim n => Interpreter.extent? v dim = some n) (List.range r.type.rank) outs := by
  have harray : ∀ {kind rank order} {view : View}, r.type = .array kind rank order → view.rank = rank →
      List.Forall₂ (fun dim n => Interpreter.extent? (.array view) dim = some n) (List.range r.type.rank)
        (view.extents.map signed64) := by
    rintro kind rank order view htype rfl
    rw [htype]
    exact Interpreter.extent?_array view
  cases h with
  | scalar type => simp [type, ValueType.rank]
  | shared type => simp [type, ValueType.rank]
  | fields type => simp [type, ValueType.rank]
  | covering type rank => exact harray type rank
  | dense type rank => exact harray type rank
  | collection type listed =>
    have hrank : r.type.rank = 1 := by
      unfold ValueType.isCollection at type
      split at type <;> simp_all [ValueType.rank]
    rw [hrank]
    refine .cons ?_ .nil
    cases v <;> simp_all [Value.items?, Interpreter.extent?]

/-- A value of its own that is no object is handed out as a new buffer of its elements. -/
theorem exists_elements (h : Encodes native heap r v sent outs) (halias : r.isAlias = false)
    (hscalar : ∀ kind, r.type ≠ .scalar kind) (hobject : ∀ c, r.type ≠ .object c) :
    ∃ extents xs, v.Elements heap extents xs ∧ (r.type.isCollection = true → v.items? = some xs) ∧
      sent = .copy (.buffer (denseData native extents xs)) ∧ outs = extents.map fun n : Nat => (n : Int) := by
  cases h with
  | scalar type => exact absurd type (hscalar _)
  | shared type => exact absurd type (hobject _)
  | fields type => exact absurd type (hobject _)
  | covering _ _ isAlias => simp [halias] at isAlias
  | dense type _ fits counted _ elements small =>
    refine ⟨_, _, .array fits (small halias) counted elements, by simp [type, ValueType.isCollection], rfl, ?_⟩
    exact map_signed64 (small halias)
  | collection _ listed held =>
    exact ⟨_, _, .collection listed held, fun _ => listed, by rw [denseData_line _ held], rfl⟩

end Encodes

theorem Delivery.of?_eq_direct {type : ValueType} : Delivery.of? type = some .direct ↔ ∃ kind, type = .scalar kind := by
  unfold Delivery.of?
  split <;> simp

theorem Delivery.isCollection_of_fill {type : ValueType} {isSet : Bool} (h : Delivery.of? type = some (.fill isSet)) :
    type.isCollection = true := by
  unfold Delivery.of? at h
  split at h <;> simp_all [ValueType.isCollection]

namespace Interpreter

open Exec

variable (it : Interpreter) {f : Frame} {m : Machine}

/-! ### References -/

theorem denseCopy_eq {view : View} {xs : List Value} (hfits : heap.Fits view)
    (hw : Layout.volume view.extents < Word.count) (hxs : heap.elements view = .ok xs) :
    it.denseCopy view heap = (.ok (.contiguous heap.next view.extents it.target.storageOrder),
      heap.push (.buffer (denseData it.target.storageOrder view.extents xs))) := by
  -- the new array is filled with zeros first, and all of them are overwritten
  obtain ⟨zeros, hzeros⟩ : ∃ c, Cell.buffer (List.replicate (Layout.size view.extents) (.int 0)) = c := ⟨_, rfl⟩
  have hnew : HeapM.newArray view.extents it.target.storageOrder heap =
      (.ok (.contiguous heap.next view.extents it.target.storageOrder), heap.push zeros) := by
    rw [← hzeros]
    rfl
  have hitems : (heap.push zeros).itemsOf (.array view) = .ok xs :=
    (Heap.elements_congr (hfits.cell?_push zeros)).trans hxs
  have hcopy : HeapM.copyInto (.contiguous heap.next view.extents it.target.storageOrder) (.array view)
      (heap.push zeros) = _ :=
    HeapM.copyInto_dense hw ((Heap.cell?_push_next ..).trans (congrArg some hzeros.symm)) hitems
      (Heap.length_elements hfits hxs)
  unfold denseCopy
  rw [bind_ok hnew, bind_ok hcopy, pure_apply, Heap.setCell_push_next]

theorem addressOf_apart {view : View} {items xs : List Value} (hfits : heap.Fits view)
    (hw : Layout.volume view.extents < Word.count) (hcell : heap.cell? view.buffer = some (.buffer items))
    (hxs : heap.elements view = .ok xs) (hcovers : view.covers items.length it.target.storageOrder = false) :
    it.addressOf (.array view) heap =
      (.ok heap.next, heap.push (.buffer (denseData it.target.storageOrder view.extents xs))) := by
  have hbuffer : HeapM.buffer view.buffer heap = (.ok items, heap) := by
    rw [HeapM.buffer, read_apply, Heap.buffer_eq_ok.2 hcell]
  simp only [addressOf]
  rw [bind_ok hbuffer, if_neg (by simp [hcovers]), bind_ok (it.denseCopy_eq hfits hw hxs), pure_apply]
  rfl

/-- The address of a reference is that of what it refers to, unless that is no buffer of its own. -/
theorem addressOf_eq (h : Encodes it.target.storageOrder heap r v sent outs) (halias : r.isAlias = true)
    (hscalar : ∀ kind, r.type ≠ .scalar kind) :
    ∃ p, it.addressOf v heap = (.ok p, heap.extend sent.cells) ∧ sent.slot heap.next = .ptr (some p) := by
  cases h with
  | scalar type => exact absurd type (hscalar _)
  | @shared _ h => exact ⟨h, by simp [addressOf, Sent.cells, pure_apply], rfl⟩
  | fields _ notAlias => simp [halias] at notAlias
  | @covering _ _ _ view _ _ _ _ found covers =>
    refine ⟨view.buffer, ?_, rfl⟩
    simp only [it.addressOf_covering found covers, Sent.cells, Heap.extend_nil]
  | dense _ _ fits counted found elements _ apart =>
    exact ⟨heap.next, it.addressOf_apart fits counted found elements (apart halias), rfl⟩
  | collection _ listed =>
    refine ⟨heap.next, ?_, rfl⟩
    cases v <;> simp_all [Value.items?, addressOf] <;> rfl

theorem execBlock_reference (ptr : String) {value : String} {shape : List String}
    (h : Encodes it.target.storageOrder m.heap r v sent outs) (halias : r.isAlias = true)
    (hscalar : ∀ kind, r.type ≠ .scalar kind) (hshape : shape.length = r.type.rank)
    (hnd : (value :: ptr :: shape).Nodup) (hvalue : it.lookup f value = .ok v)
    (hunbound : ∀ n ∈ shape, f.locals.get? n = none) :
    ∃ f', it.execBlock f (assignShapes r.type.order it.target.storageOrder value shape ++ [.addressOf value ptr]) m =
        (.ok f', { m with heap := m.heap.extend sent.cells }) ∧ Frame.Outside (ptr :: shape) f f' ∧
      f'.Holds (ptr :: shape)
        (sent.slot m.heap.next :: (it.target.storageOrder.reorder r.type.order outs).map .int) := by
  simp only [List.nodup_cons, List.mem_cons, not_or] at hnd
  obtain ⟨⟨-, hvalue_shape⟩, hptr_shape, hnd⟩ := hnd
  obtain ⟨f₁, hrun, houtside, hholds⟩ := it.execBlock_assignShapes (m := m) r.type.order
    (hshape ▸ h.extent?_eq) hvalue (List.nodup_cons.2 ⟨hvalue_shape, hnd⟩) hunbound
  obtain ⟨p, haddress, hslot⟩ := it.addressOf_eq h halias hscalar
  have hlast := it.exec_addressOf ptr ((it.lookup_outside houtside hvalue_shape).trans hvalue) haddress
  have hset : Frame.Outside [ptr] f₁ (f₁.set ptr (.ptr (some p))) := .set f₁ _ (List.mem_singleton_self _)
  refine ⟨f₁.set ptr (.ptr (some p)), ?_, (houtside.mono (List.subset_cons_self _ _)).trans (hset.mono (by simp)),
    .cons ?_ (hholds.outside hset fun n hn hmem => hptr_shape (List.mem_singleton.1 hmem ▸ hn))⟩
  · rw [execBlock_append, bind_ok hrun, execBlock_singleton, hlast]
  · rw [f₁.get?_set_self, hslot]

/-! ### Copies -/

theorem execBlock_object {n : OwnedResult} {className : String} {h : Handle} {o : Instance}
    (htype : r.type = .object className) (hfound : m.heap.cell? h = some (.object o)) (hshape : n.shape = [])
    (hnd : n.names.Nodup) (hheld : f.declaredType? n.held = some r.type)
    (hvalue : f.locals.get? n.value = some (.object h)) :
    ∃ f', it.execBlock f (n.marshalled it.target r [.assign (.var n.held) (.var n.value)]).deferred m =
        (.ok f', { m with heap := m.heap.push (.object ⟨className, o.fields⟩) }) ∧
      Frame.Outside n.names f f' ∧ f'.locals.get? n.ptr = some (.ptr (some m.heap.next)) := by
  simp only [OwnedResult.names, hshape, List.nil_append, List.nodup_cons, List.mem_cons, List.not_mem_nil, or_false,
    not_or] at hnd
  obtain ⟨⟨-, hvalue_held⟩, hptr_held, -⟩ := hnd
  have hallocate : it.exec f (.allocate n.held []) m =
      (.ok (f.set n.held (.object m.heap.next)), { m with heap := m.heap.push (.object ⟨className, []⟩) }) := by
    have halloc : it.allocate f n.held [] m.heap =
        (.ok (.object m.heap.next), m.heap.push (.object ⟨className, []⟩)) := by
      unfold allocate
      rw [hheld, htype]
      rfl
    simp only [exec, evalExtents]
    rw [bind_ok (pure_apply ..), bind_ok (onHeap_ok halloc), pure_apply]
  obtain ⟨f₁, hf₁⟩ : ∃ f₁, f.set n.held (.object m.heap.next) = f₁ := ⟨_, rfl⟩
  have hheld₁ := hf₁ ▸ f.get?_set_self n.held (.object m.heap.next)
  have hvalue₁ : f₁.locals.get? n.value = some (.object h) :=
    hf₁ ▸ (f.get?_set_ne _ (Ne.symm hvalue_held)).trans hvalue
  have hcopy : it.exec f₁ (.assign (.var n.held) (.var n.value))
      { m with heap := m.heap.push (.object ⟨className, []⟩) } =
        (.ok f₁, { m with heap := m.heap.push (.object ⟨className, o.fields⟩) }) := by
    have hobject : (m.heap.push (.object ⟨className, []⟩)).object h = .ok o :=
      Heap.object_eq_ok.2 (Heap.cell?_push_of_some hfound _)
    have hnew : (m.heap.push (.object ⟨className, []⟩)).object m.heap.next = .ok ⟨className, []⟩ :=
      Heap.object_eq_ok.2 (Heap.cell?_push_next ..)
    have hfields : copyObject m.heap.next (.object h) (m.heap.push (.object ⟨className, []⟩)) =
        (.ok (), m.heap.push (.object ⟨className, o.fields⟩)) := by
      simp only [copyObject, HeapM.object]
      rw [bind_ok (by rw [read_apply, hobject])]
      simp only [Run.update, Heap.modifyObject, hnew, Heap.setCell_push_next]
    simp only [exec]
    rw [bind_ok (it.eval_var hvalue₁)]
    simp only [assign, assignVar, hheld₁]
    rw [bind_ok (onHeap_ok hfields), pure_apply]
  have haddress := it.exec_addressOf n.ptr (m := { m with heap := m.heap.push (.object ⟨className, o.fields⟩) })
    (it.lookup_of_get? hheld₁) (show it.addressOf (.object m.heap.next) _ = (.ok m.heap.next, _) from rfl)
  refine ⟨f₁.set n.ptr (.ptr (some m.heap.next)), ?_, ?_, f₁.get?_set_self _ _⟩
  · simp only [OwnedResult.marshalled, assignShapes, hshape, List.zipWith_nil_left, StorageOrder.reorder_nil,
      List.map_nil, List.nil_append, List.cons_append, execBlock]
    rw [bind_ok hallocate, hf₁, bind_ok hcopy, bind_ok haddress, pure_apply]
  · rw [← hf₁]
    exact (Frame.Outside.set f _ (by simp [OwnedResult.names])).trans (.set _ _ (by simp [OwnedResult.names]))

theorem execBlock_elements {n : OwnedResult} {delivery : Delivery} {copy : List Stmt} {extra : List String}
    (hcopy : n.Copy it.target delivery copy extra) (hdelivery : Delivery.of? r.type = some delivery)
    (henc : Encodes it.target.storageOrder m.heap r v sent outs) (halias : r.isAlias = false)
    (hobject : ∀ c, r.type ≠ .object c) (hshape : n.shape.length = r.type.rank) (hnd : (n.names ++ extra).Nodup)
    (hheld : f.declaredType? n.held = some r.type) (hvalue : f.locals.get? n.value = some v)
    (hunbound : ∀ x ∈ n.names ++ extra, x ≠ n.value → x ∉ extra.tail → f.locals.get? x = none) :
    ∃ f', it.execBlock f (n.marshalled it.target r copy).deferred m =
        (.ok f', { m with heap := m.heap.extend sent.cells }) ∧ Frame.Outside (n.names ++ extra) f f' ∧
      f'.Holds (n.ptr :: n.shape)
        (sent.slot m.heap.next :: (it.target.storageOrder.reorder r.type.order outs).map .int) := by
  have hscalar : ∀ kind, r.type ≠ .scalar kind := by
    rintro kind htype
    rw [Delivery.of?_eq_direct.2 ⟨kind, htype⟩] at hdelivery
    cases hcopy <;> cases hdelivery
  have hrank := henc.extent?_eq.length_eq
  obtain ⟨extents, xs, hv, hitems, rfl, rfl⟩ := henc.exists_elements halias hscalar hobject
  have hfill : delivery ≠ .copy → v.items? = some xs := by
    cases hcopy with
    | whole => exact fun hne => absurd rfl hne
    | fill => exact fun _ => hitems (Delivery.isCollection_of_fill hdelivery)
  rw [List.length_range, List.length_map] at hrank
  obtain ⟨f', hrun, houtside, hptr, hholds⟩ :=
    it.execBlock_deferred hcopy hnd hv hfill (hshape.trans hrank) hheld hobject hvalue hunbound
  refine ⟨f', hrun, houtside, .cons hptr ?_⟩
  rw [StorageOrder.map_reorder, List.map_map, ← StorageOrder.map_reorder]
  exact hholds

/-- The statements made for a result hand its value out, wherever they stand. -/
theorem execBlock_delivered {delivery : Delivery} {d : MarshalledResult} {ns : ResultNames}
    (hd : Delivered it.target r .call delivery d ns) (hdelivery : Delivery.of? r.type = some delivery)
    (henc : Encodes it.target.storageOrder m.heap r v sent outs) (hnd : ns.own.Nodup)
    (hinner : ∀ n ∈ ns.inner, n ∉ ns.own) (hlocal : ∀ l ∈ ns.declared, f.function.local? l.name = some l)
    (hvalue : f.locals.get? d.result.native.name = some v)
    (hunbound : ∀ n ∈ ns.own, n ≠ d.result.native.name → f.locals.get? n = none) :
    ∃ f', it.execBlock f d.deferred m = (.ok f', { m with heap := m.heap.extend sent.cells }) ∧
      Frame.Outside (ns.own ++ ns.inner) f f' ∧ f'.Holds (d.result.outputs.map (·.name))
        (sent.slot m.heap.next :: (it.target.storageOrder.reorder r.type.order outs).map .int) := by
  have hheld : ∀ {held}, Local.aliased held r.type ∈ ns.declared → f.declaredType? held = some r.type := by
    intro held hmem
    have hfound : f.function.local? held = _ := hlocal _ hmem
    rw [Frame.declaredType?, hfound]
    rfl
  cases hd with
  | direct value =>
    obtain ⟨kind, htype⟩ := Delivery.of?_eq_direct.1 hdelivery
    obtain ⟨rfl, rfl⟩ : sent = .value v ∧ outs = [] := by
      cases henc <;> simp_all [ValueType.isCollection]
    refine ⟨f, ?_, .refl _ _, .cons hvalue ?_⟩
    · simp only [execBlock, Sent.cells, Heap.extend_nil, pure_apply]
    · rw [StorageOrder.reorder_nil]
      exact .nil
  | kept value ptr shape hdirect hcopies hshape =>
    have halias : r.isAlias = true := by simpa [ResultSource.copies] using hcopies
    have hscalar : ∀ kind, r.type ≠ .scalar kind := fun kind htype =>
      hdirect (Option.some.inj (hdelivery.symm.trans (Delivery.of?_eq_direct.2 ⟨kind, htype⟩)))
    have hnames : (value :: ptr :: shape).Nodup := hnd
    obtain ⟨f', hrun, houtside, hholds⟩ := it.execBlock_reference ptr henc halias hscalar hshape hnames
      (it.lookup_of_get? hvalue) fun n hn => hunbound n (by simp [ResultNames.own, hn]) (by
        rintro rfl
        exact (List.nodup_cons.1 hnames).1 (List.mem_cons_of_mem _ hn))
    refine ⟨f', hrun, houtside.mono fun n hn => ?_, ?_⟩
    · exact List.mem_append_left _ (List.mem_append_right _ hn)
    · rwa [Result.names_outputs rfl]
  | whole n hcopies hshape =>
    have halias : r.isAlias = false := by simpa [ResultSource.copies] using hcopies
    have hnames : (n.names ++ []).Nodup := by rwa [List.append_nil]
    rw [Result.names_outputs rfl]
    by_cases hobject : ∃ c, r.type = .object c
    · obtain ⟨className, htype⟩ := hobject
      obtain ⟨h, o, rfl, hfound, rfl, rfl⟩ : ∃ h o, v = .object h ∧ m.heap.cell? h = some (.object o) ∧
          sent = .copy (.object ⟨className, o.fields⟩) ∧ outs = [] := by
        cases henc <;> simp_all [ValueType.isCollection]
      have hnil : n.shape = [] := List.length_eq_zero_iff.1 (by rw [hshape, htype]; rfl)
      obtain ⟨f', hrun, houtside, hptr⟩ := it.execBlock_object htype hfound hnil hnd (hheld (by simp)) hvalue
      refine ⟨f', hrun, houtside.mono (List.subset_append_left _ _), .cons hptr ?_⟩
      rw [hnil, StorageOrder.reorder_nil]
      exact .nil
    · exact it.execBlock_elements .whole hdelivery henc halias (not_exists.1 hobject) hshape hnames (hheld (by simp))
        hvalue fun x hx hne _ => hunbound x (show x ∈ n.names by simpa using hx) hne
  | filled n isSet counter element hcopies hshape =>
    have halias : r.isAlias = false := by simpa [ResultSource.copies] using hcopies
    have hobject : ∀ c, r.type ≠ .object c := by
      rintro c htype
      have hcollection := Delivery.isCollection_of_fill hdelivery
      simp [htype, ValueType.isCollection] at hcollection
    -- the counter is a name of the function, the element one of the loop only
    have hsplit : n.names ++ [counter, element] = n.names ++ [counter] ++ [element] := by simp
    have hnames : (n.names ++ [counter, element]).Nodup := by
      rw [hsplit]
      exact hnd.append (List.nodup_singleton _) (List.disjoint_singleton.2 (hinner element (by simp)))
    rw [Result.names_outputs rfl]
    show ∃ f', _ ∧ Frame.Outside (n.names ++ [counter] ++ [element]) f f' ∧ _
    rw [← hsplit]
    refine it.execBlock_elements (.fill isSet counter element) hdelivery henc halias hobject hshape hnames
      (hheld (by simp)) hvalue fun x hx hne htail => hunbound x ?_ hne
    rw [hsplit, List.mem_append] at hx
    exact hx.resolve_right htail

end Interpreter

end AbiBridge
