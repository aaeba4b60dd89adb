import Mathlib
import AbiBridge.Proofs.StridedView
import AbiBridge.Proofs.Presence

/-!
# Delivering a result

After the host has returned, the statements of `OwnedResult.marshalled` measure the value, allocate a dense
array of its extents, store the elements there and take the address of the array. `execBlock_deferred` says
what they leave behind: one new buffer, and the extents in declared order. Taking the address copies nothing,
because a dense array covers its buffer, so the address is that of the new buffer.

A list or a set is stored item by item. The loop counts the items of a list, but the body counts those of a set;
`iterate_fill` covers both with one invariant, which speaks of the counter only where the body keeps it.
-/

namespace AbiBridge

open Wrapper Run

/-! ### Dense buffers -/

/-- The buffer of a dense array whose elements are listed with the last index running fastest. -/
def denseData (order : StorageOrder) (extents : List Nat) (xs : List Value) : List Value :=
  storeAt (((logicalIndices extents).map (Layout.mk extents order).position).zip xs)
    (List.replicate (Layout.size extents) (.int 0))

theorem length_denseData (order : StorageOrder) (extents : List Nat) (xs : List Value) :
    (denseData order extents xs).length = Layout.size extents := by
  rw [denseData, length_storeAt, List.length_replicate]

theorem denseData_line (order : StorageOrder) {xs : List Value} (hxs : InMemory xs) :
    denseData order [xs.length] xs = xs := by
  have hplaces := View.places_line 0 order hxs.lt_count
  rw [funext (View.place_contiguous 0 [xs.length] order)] at hplaces
  rw [denseData, hplaces]
  exact storeAt_range (by rw [List.length_replicate, Layout.size_singleton hxs.lt_count])

theorem HeapM.copyInto_dense {heap : Heap} {h : Handle} {extents : List Nat} {order : StorageOrder} {source : Value}
    {xs : List Value} (hw : Layout.volume extents < Word.count)
    (hcell : heap.cell? h = some (.buffer (List.replicate (Layout.size extents) (.int 0))))
    (hitems : heap.itemsOf source = .ok xs) (hlen : xs.length = Layout.size extents) :
    HeapM.copyInto (.contiguous h extents order) source heap =
      (.ok (), heap.setCell h (.buffer (denseData order extents xs))) := by
  have hfit : ∀ index, Layout.inBounds extents index = true → (View.contiguous h extents order).place index
      < (List.replicate (Layout.size extents) (Value.int 0)).length := by
    intro index hi
    rw [List.length_replicate, Layout.size_of_lt hw]
    exact View.place_contiguous_lt hw hi
  have hcopy : HeapM.copyInto (.contiguous h extents order) source heap = _ :=
    HeapM.copyInto_eq hcell hfit hitems hlen
  rwa [funext (View.place_contiguous h extents order)] at hcopy

/-- A value that consists of an array or of a collection, with its extents and its elements. -/
inductive Value.Elements (heap : Heap) : Value → List Nat → List Value → Prop
  | array {v : View} {xs : List Value} (fits : heap.Fits v) (extents : ∀ n ∈ v.extents, n < 2 ^ 63)
    (counted : v.extents.prod < 2 ^ 64) (elements : heap.elements v = .ok xs) : Elements heap (.array v) v.extents xs
  | collection {v : Value} {xs : List Value} (items : v.items? = some xs) (held : InMemory xs) :
    Elements heap v [xs.length] xs

theorem signed64_of_lt {n : Nat} (h : n < 2 ^ 63) : signed64 n = n := Word.signed_natCast h

theorem map_signed64 {ns : List Nat} (h : ∀ n ∈ ns, n < 2 ^ 63) : ns.map signed64 = ns.map fun n : Nat => (n : Int) :=
  List.map_congr_left fun n hn => signed64_of_lt (h n hn)

namespace Value.Elements

variable {heap : Heap} {v : Value} {extents : List Nat} {xs : List Value}

theorem extent?_eq (h : v.Elements heap extents xs) :
    List.Forall₂ (fun dim (n : Nat) => Interpreter.extent? v dim = some (n : Int)) (List.range extents.length)
      extents := by
  rw [List.forall₂_iff_get]
  refine ⟨by simp, fun k hk hk' => ?_⟩
  simp only [List.get_eq_getElem, List.getElem_range]
  cases h with
  | array _ small =>
    have hlt := small _ (List.getElem_mem hk')
    simp [Interpreter.extent?, List.getElem?_eq_getElem hk', signed64_of_lt hlt]
  | collection items =>
    obtain rfl : k = 0 := by simpa using hk'
    cases v <;> simp_all [Value.items?, Interpreter.extent?]

theorem itemsOf_eq (h : v.Elements heap extents xs) : heap.itemsOf v = .ok xs := by
  cases h with
  | array _ _ _ elements => exact elements
  | collection items => cases v <;> simp_all [Value.items?, Heap.itemsOf]

theorem volume_lt (h : v.Elements heap extents xs) : Layout.volume extents < Word.count := by
  cases h with
  | array _ _ counted => exact counted
  | collection _ held => exact lt_of_eq_of_lt (Layout.volume_singleton _) held.lt_count

theorem length_eq (h : v.Elements heap extents xs) : xs.length = Layout.size extents := by
  cases h with
  | array fits _ _ elements => exact Heap.length_elements fits elements
  | collection _ held => rw [Layout.size_singleton held.lt_count]

theorem push (h : v.Elements heap extents xs) (c : Cell) : v.Elements (heap.push c) extents xs := by
  cases h with
  | array fits small counted elements =>
    exact .array (fits.push c) small counted ((Heap.elements_congr (fits.cell?_push c)).trans elements)
  | collection items held => exact .collection items held

theorem ne_ptr (h : v.Elements heap extents xs) (p : Option Handle) : v ≠ .ptr p := by
  rintro rfl
  cases h with
  | collection items => cases items

end Value.Elements

theorem OwnedResult.nodup_value_shape (n : OwnedResult) (h : n.names.Nodup) : (n.value :: n.shape).Nodup := by
  refine h.sublist ?_
  exact .cons_cons _ (.cons _ (List.sublist_append_left _ _))

namespace Interpreter

open Exec

variable (it : Interpreter) {f : Frame} {m : Machine}

/-! ### Measuring -/

theorem extent?_array (view : View) : List.Forall₂ (fun dim n => extent? (.array view) dim = some n)
    (List.range view.rank) (view.extents.map signed64) := by
  rw [List.forall₂_map_right_iff, List.forall₂_iff_get]
  refine ⟨List.length_range, fun k hk hk' => ?_⟩
  simp [extent?, List.getElem?_eq_getElem hk']

theorem assign_var_of_none {copying : Bool} {name : String} {v : Value} (h : f.locals.get? name = none) :
    it.assign copying f (.var name) v m = (.ok (f.set name v), m) := by
  simp only [assign, assignVar, h, pure_apply]

theorem lookup_outside {names : List String} {f' : Frame} (h : Frame.Outside names f f') {n : String} (hn : n ∉ names) :
    it.lookup f' n = it.lookup f n := by
  rw [lookup, lookup, h.get? n hn]

theorem exec_assign_unbound {out : String} {e : Expr} {v : Value} (he : it.eval f e m = (.ok v, m))
    (hout : f.locals.get? out = none) : it.exec f (.assign (.var out) e) m = (.ok (f.set out v), m) := by
  simp only [exec]
  rw [bind_ok he, it.assign_var_of_none hout]

/-- One assignment per output, each from the expression beside it. None of them reads an output. -/
theorem execBlock_assigns {shape : List String} {es : List Expr} {vs : List Value}
    (hvs : List.Forall₂ (fun e v => ∀ f', Frame.Outside shape f f' → it.eval f' e m = (.ok v, m)) es vs)
    (hlen : shape.length = es.length) (hnd : shape.Nodup) (hunbound : ∀ n ∈ shape, f.locals.get? n = none) :
    ∃ f', it.execBlock f (List.zipWith (fun out e => .assign (.var out) e) shape es) m = (.ok f', m) ∧
      Frame.Outside shape f f' ∧ f'.Holds shape vs := by
  induction shape generalizing f es vs with
  | nil =>
    obtain rfl := List.length_eq_zero_iff.1 hlen.symm
    cases hvs
    exact ⟨f, by simp only [List.zipWith_nil_left, execBlock, pure_apply], .refl _ _, .nil⟩
  | cons out shape ih =>
    cases hvs with
    | nil => cases hlen
    | @cons e v es vs he hvs =>
      obtain ⟨hout, hnd⟩ := List.nodup_cons.1 hnd
      have hrun := it.exec_assign_unbound (he f (.refl _ f)) (hunbound out List.mem_cons_self)
      have hset : Frame.Outside (out :: shape) f (f.set out v) := .set f v List.mem_cons_self
      obtain ⟨f', hf', houtside, hholds⟩ := ih (f := f.set out v)
        (hvs.imp fun e v he f' hf' => he f' (hset.trans (hf'.mono (List.subset_cons_self _ _))))
        (by simpa using hlen) hnd
        (fun n hn => by
          have hne : out ≠ n := fun heq => hout (heq ▸ hn)
          rw [f.get?_set_ne _ hne, hunbound n (List.mem_cons_of_mem _ hn)])
      refine ⟨f', ?_, hset.trans (houtside.mono (List.subset_cons_self _ _)), .cons ?_ hholds⟩
      · simp only [List.zipWith_cons_cons, execBlock]
        rw [bind_ok hrun, hf']
      · rw [houtside.get? _ hout, Frame.get?_set_self]

theorem eval_shape {value : String} {v : Value} {dim : Nat} {n : Int} (hvalue : it.lookup f value = .ok v)
    (hdim : extent? v dim = some n) : it.eval f (.shape value dim) m = (.ok (.int n), m) := by
  simp only [eval]
  rw [hvalue, bind_ok (ofExcept_apply _), hdim]
  rfl

theorem execBlock_assignShapes (order : StorageOrder) {value : String} {v : Value} {shape : List String}
    {outs : List Int} (houts : List.Forall₂ (fun dim n => extent? v dim = some n) (List.range shape.length) outs)
    (hvalue : it.lookup f value = .ok v) (hnd : (value :: shape).Nodup)
    (hunbound : ∀ n ∈ shape, f.locals.get? n = none) :
    ∃ f', it.execBlock f (assignShapes order it.target.storageOrder value shape) m = (.ok f', m) ∧
      Frame.Outside shape f f' ∧ f'.Holds shape ((it.target.storageOrder.reorder order outs).map .int) := by
  obtain ⟨hvalue_mem, hnd⟩ := List.nodup_cons.1 hnd
  have hvs : List.Forall₂ (fun e v => ∀ f', Frame.Outside shape f f' → it.eval f' e m = (.ok v, m))
      ((order.reorder it.target.storageOrder (List.range shape.length)).map (.shape value))
      ((it.target.storageOrder.reorder order outs).map .int) := by
    rw [List.forall₂_map_left_iff, List.forall₂_map_right_iff, StorageOrder.reorder_comm it.target.storageOrder,
      StorageOrder.forall₂_reorder]
    refine houts.imp fun dim n hdim f' hf' => it.eval_shape ?_ hdim
    rw [it.lookup_outside hf' hvalue_mem, hvalue]
  have hrun := it.execBlock_assigns hvs (by simp) hnd hunbound
  rwa [List.zipWith_map_right] at hrun

/-! ### The new array -/

theorem exec_allocate {name : String} {type : ValueType} {shape : List String} {ns : List Nat}
    (htype : f.declaredType? name = some type) (hobject : ∀ c, type ≠ .object c) (hs : f.Holds shape (ns.map .nat)) :
    it.exec f (.allocate name (shape.map .var)) m =
      (.ok (f.set name (.array (.contiguous m.heap.next ns it.target.storageOrder))),
        { m with heap := m.heap.push (.buffer (List.replicate (Layout.size ns) (.int 0))) }) := by
  have halloc : it.allocate f name ns m.heap =
      (.ok (.array (.contiguous m.heap.next ns it.target.storageOrder)),
        m.heap.push (.buffer (List.replicate (Layout.size ns) (.int 0)))) := by
    unfold allocate
    rw [htype]
    cases type with
    | object c => exact absurd rfl (hobject c)
    | _ => rfl
  simp only [exec]
  rw [bind_ok (it.evalExtents_vars hs), bind_ok (onHeap_ok halloc), pure_apply]

theorem exec_addressOf (ptr : String) {source : String} {v : Value} {p : Handle} {heap : Heap}
    (hsource : it.lookup f source = .ok v) (haddress : it.addressOf v m.heap = (.ok p, heap)) :
    it.exec f (.addressOf source ptr) m = (.ok (f.set ptr (.ptr (some p))), { m with heap }) := by
  have hvariable : it.variableAddress f source m = (.ok (some p), { m with heap }) := by
    unfold variableAddress
    rw [hsource]
    simp only
    rw [bind_ok (onHeap_ok haddress), pure_apply]
  simp only [exec]
  rw [bind_ok hvariable, pure_apply]

theorem addressOf_covering {heap : Heap} {view : View} {items : List Value}
    (hcell : heap.cell? view.buffer = some (.buffer items))
    (hcovers : view.covers items.length it.target.storageOrder = true) :
    it.addressOf (.array view) heap = (.ok view.buffer, heap) := by
  have hbuffer : HeapM.buffer view.buffer heap = (.ok items, heap) := by
    rw [HeapM.buffer, read_apply, Heap.buffer_eq_ok.2 hcell]
  simp only [addressOf]
  rw [bind_ok hbuffer, if_pos hcovers, pure_apply]

theorem exec_addressOf_dense {held ptr : String} {h : Handle} {extents : List Nat} {data : List Value}
    (hheld : f.locals.get? held = some (.array (.contiguous h extents it.target.storageOrder)))
    (hcell : m.heap.cell? h = some (.buffer data)) (hlen : data.length = Layout.size extents) :
    it.exec f (.addressOf held ptr) m = (.ok (f.set ptr (.ptr (some h))), m) := by
  have hcovers := View.covers_contiguous h extents it.target.storageOrder
  rw [← hlen] at hcovers
  exact it.exec_addressOf ptr (it.lookup_of_get? hheld) (it.addressOf_covering hcell hcovers)

/-! ### Copying as a whole -/

theorem exec_copy_whole {held value : String} {v : Value} {h : Handle} {extents : List Nat} {xs : List Value}
    (hheld : f.locals.get? held = some (.array (.contiguous h extents it.target.storageOrder)))
    (hvalue : f.locals.get? value = some v) (hv : v.Elements m.heap extents xs)
    (hcell : m.heap.cell? h = some (.buffer (List.replicate (Layout.size extents) (.int 0)))) :
    it.exec f (.assign (.var held) (.var value)) m =
      (.ok f, { m with heap := m.heap.setCell h (.buffer (denseData it.target.storageOrder extents xs)) }) := by
  have hcopy : HeapM.copyInto (.contiguous h extents it.target.storageOrder) v m.heap = _ :=
    HeapM.copyInto_dense hv.volume_lt hcell hv.itemsOf_eq hv.length_eq
  have hassign : it.assign true f (.var held) v m =
      (.ok f, { m with heap := m.heap.setCell h (.buffer (denseData it.target.storageOrder extents xs)) }) := by
    simp only [assign, assignVar, hheld]
    split
    · exact absurd rfl (hv.ne_ptr _)
    · rw [bind_ok (onHeap_ok hcopy), pure_apply]
  simp only [exec]
  rw [bind_ok (it.eval_var hvalue), hassign]

/-! ### Filling in a loop -/

theorem eval_add {a b : Expr} {i j : Int} (ha : it.eval f a m = (.ok (.int i), m))
    (hb : it.eval f b m = (.ok (.int j), m)) : it.eval f (.add a b) m = (.ok (.int (Word.signed (i + j))), m) := by
  simp only [eval]
  rw [bind_ok ha, Value.asInt, bind_ok (ofExcept_apply _), bind_ok hb, Value.asInt,
    bind_ok (ofExcept_apply _), pure_apply]

theorem eval_int (n : Int) : it.eval f (.int n) m = (.ok (.int n), m) := by
  simp only [eval, pure_apply]

theorem exec_store {held counter element : String} {x : Value} {h : Handle} {n k : Nat} {data : List Value}
    (hheld : f.locals.get? held = some (.array (.contiguous h [n] it.target.storageOrder)))
    (hcounter : f.locals.get? counter = some (.nat k)) (helement : f.locals.get? element = some x)
    (hcell : m.heap.cell? h = some (.buffer data)) (hlen : data.length = n) (hn : n < 2 ^ 63) (hk : k < n) :
    it.exec f (.assign (.index held [.element (nativePosition it.target counter)]) (.var element)) m =
      (.ok f, { m with heap := m.heap.setCell h (.buffer (data.set k x)) }) := by
  -- the native position counts from the index base, the view from zero
  obtain ⟨p, hposition, hp⟩ : ∃ p, it.eval f (nativePosition it.target counter) m = (.ok (.int p), m) ∧
      Word.signed (p - it.base) = k := by
    have hsigned : Word.signed k = k := Word.signed_natCast (hk.trans hn)
    unfold nativePosition base
    split
    · next hbase => exact ⟨k, it.eval_var hcounter, by rw [hbase, Nat.cast_zero, sub_zero, hsigned]⟩
    · exact ⟨_, it.eval_add (it.eval_var hcounter) (it.eval_int _), by rw [Word.signed_signed_add_sub, hsigned]⟩
  have hindex : it.evalPositions f [.element (nativePosition it.target counter)] m = (.ok [k], m) := by
    simp only [evalPositions]
    rw [bind_ok hposition, Value.asInt, bind_ok (ofExcept_apply _), hp, position, if_pos (Int.natCast_nonneg k),
      bind_ok (ofExcept_apply _)]
    rfl
  have hview : it.lookupArray f held m = (.ok (.contiguous h [n] it.target.storageOrder), m) := by
    unfold lookupArray
    rw [it.lookup_of_get? hheld]
    rfl
  have hbounds : Layout.inBounds [n] [k] = true := by simp [Layout.inBounds, hk]
  have hset : HeapM.setElement (.contiguous h [n] it.target.storageOrder) [k] x m.heap =
      (.ok (), m.heap.setCell h (.buffer (data.set k x))) := by
    have hplace := View.place_line h (n := n) it.target.storageOrder (lt_trans (hk.trans hn) (by decide))
    rw [HeapM.setElement_eq hcell hbounds (by rw [hplace, hlen]; exact hk), hplace]
    rfl
  simp only [exec]
  rw [bind_ok (it.eval_var helement)]
  simp only [assign]
  rw [bind_ok hview, bind_ok hindex, bind_ok (onHeap_ok hset), pure_apply]

theorem execBlock_fillBody {held counter element : String} {x : Value} {h : Handle} {n k : Nat} {data : List Value}
    (isSet : Bool) (hheld : f.locals.get? held = some (.array (.contiguous h [n] it.target.storageOrder)))
    (hcounter : f.locals.get? counter = some (.nat k)) (helement : f.locals.get? element = some x)
    (hcell : m.heap.cell? h = some (.buffer data)) (hlen : data.length = n) (hn : n < 2 ^ 63) (hk : k < n) :
    ∃ f', it.execBlock f (fillBody it.target held counter element isSet) m =
        (.ok f', { m with heap := m.heap.setCell h (.buffer (data.set k x)) }) ∧
      Frame.Outside [counter] f f' ∧ (isSet = true → f'.locals.get? counter = some (.nat (k + 1))) := by
  have hstore := it.exec_store hheld hcounter helement hcell hlen hn hk
  cases isSet with
  | false =>
    refine ⟨f, ?_, .refl _ _, by simp⟩
    simp only [fillBody, Bool.false_eq_true, if_false, execBlock]
    rw [bind_ok hstore, pure_apply]
  | true =>
    have hadvance : ∀ m, it.exec f (.assign (.var counter) (.add (.var counter) (.int 1))) m =
        (.ok (f.set counter (.nat (k + 1))), m) := by
      intro m
      have hnext : Word.signed ((k : Int) + 1) = (k + 1 : Nat) := Word.signed_natCast (n := k + 1) (by omega)
      simp only [exec]
      rw [bind_ok (it.eval_add (it.eval_var hcounter) (it.eval_int 1)), hnext]
      simp only [assign, assignVar, hcounter, Value.nat, pure_apply]
    refine ⟨f.set counter (.nat (k + 1)), ?_, .set f _ (List.mem_singleton_self _), fun _ => f.get?_set_self _ _⟩
    simp only [fillBody, if_true, execBlock]
    rw [bind_ok hstore, bind_ok (hadvance _), pure_apply]

theorem iterate_cons (body : Frame → Exec Frame) (element : String) (counter : Option String) (k : Nat) (x : Value)
    (xs : List Value) : iterate body element counter k (x :: xs) f = (do
      let f ← body ((counter.elim f fun c => f.set c (.nat k)).set element x)
      iterate body element counter (k + 1) xs f) := by
  cases counter <;> rfl

/-- The rounds from place `k` on store the remaining items there. In a list the loop sets the counter before each
round; in a set it has to hold `k` already. -/
theorem iterate_fill {held counter element : String} {h : Handle} {n : Nat} (isSet : Bool)
    (hcounter_ne : held ≠ counter) (helement_ne : held ≠ element) (hne : counter ≠ element) {xs : List Value} {k : Nat}
    {data : List Value} (hheld : f.locals.get? held = some (.array (.contiguous h [n] it.target.storageOrder)))
    (hcounter : isSet = true → f.locals.get? counter = some (.nat k))
    (hcell : m.heap.cell? h = some (.buffer data)) (hlen : data.length = n) (hn : n < 2 ^ 63)
    (hk : k + xs.length ≤ n) :
    ∃ f', iterate (fun f => it.execBlock f (fillBody it.target held counter element isSet)) element
        (if isSet then none else some counter) k xs f m =
      (.ok f', { m with heap := m.heap.setCell h (.buffer (storeAt ((List.range' k xs.length).zip xs) data)) }) ∧
      Frame.Outside [counter, element] f f' := by
  induction xs generalizing f m k data with
  | nil =>
    refine ⟨f, ?_, .refl _ _⟩
    simp only [iterate, pure_apply, List.length_nil, List.range'_zero, List.zip_nil_left, storeAt,
      Heap.setCell_self hcell]
  | cons x xs ih =>
    rw [List.length_cons] at hk
    rw [iterate_cons]
    generalize hf₀ : ((if isSet = true then none else some counter).elim f fun c => f.set c (.nat k)) = f₀
    have hcounter₀ : f₀.locals.get? counter = some (.nat k) := by
      subst hf₀
      cases isSet with
      | false => exact f.get?_set_self _ _
      | true => exact hcounter rfl
    have houtside₀ : Frame.Outside [counter, element] f f₀ := by
      subst hf₀
      cases isSet with
      | false => exact .set f _ List.mem_cons_self
      | true => exact .refl _ _
    have houtside₁ := houtside₀.trans (.set f₀ x (List.mem_cons_of_mem _ (List.mem_singleton_self element)))
    have hheld₁ : (f₀.set element x).locals.get? held = _ := (houtside₁.get? held (by simp [*])).trans hheld
    obtain ⟨f₂, hbody, houtside₂, hcounter₂⟩ := it.execBlock_fillBody isSet hheld₁
      ((f₀.get?_set_ne x hne.symm).trans hcounter₀) (f₀.get?_set_self element x) hcell hlen hn (by omega)
    have hheld₂ := (houtside₂.get? held (by simpa using hcounter_ne)).trans hheld₁
    obtain ⟨f', hrest, houtside'⟩ := ih (m := { m with heap := m.heap.setCell h (.buffer (data.set k x)) }) hheld₂
      hcounter₂ (m.heap.cell?_setCell hcell _) ((List.length_set ..).trans hlen) (by omega)
    refine ⟨f', ?_, houtside₁.trans ((houtside₂.mono (by simp)).trans houtside')⟩
    rw [bind_ok hbody, hrest]
    simp only [List.length_cons, List.range'_succ, List.zip_cons_cons, storeAt, Heap.setCell_setCell]

theorem execBlock_fillStmts {value held counter element : String} {v : Value} {h : Handle} {xs : List Value}
    (isSet : Bool) (hnd : [value, held, counter, element].Nodup) (hvalue : f.locals.get? value = some v)
    (hitems : v.items? = some xs) (hxs : InMemory xs) (hcounter : f.locals.get? counter = none)
    (hheld : f.locals.get? held = some (.array (.contiguous h [xs.length] it.target.storageOrder)))
    (hcell : m.heap.cell? h = some (.buffer (List.replicate xs.length (.int 0)))) :
    ∃ f', it.execBlock f (fillStmts it.target value held counter element isSet) m =
        (.ok f', { m with heap := m.heap.setCell h (.buffer xs) }) ∧ Frame.Outside [counter, element] f f' := by
  simp only [List.nodup_cons, List.mem_cons, List.not_mem_nil, or_false, not_or, not_false_iff] at hnd
  obtain ⟨⟨-, hvalue_counter, -⟩, ⟨hheld_counter, hheld_element⟩, hcounter_element, -⟩ := hnd
  have hstart : it.exec f (.assign (.var counter) (.int 0)) m = (.ok (f.set counter (.nat 0)), m) := by
    simp only [exec]
    rw [bind_ok (it.eval_int 0), it.assign_var_of_none hcounter]
    rfl
  have hlookup : it.lookup (f.set counter (.nat 0)) value = .ok v :=
    it.lookup_of_get? ((f.get?_set_ne _ (Ne.symm hvalue_counter)).trans hvalue)
  have hiterated : iterated m.heap v = .ok xs := by cases v <;> simp_all [Value.items?, iterated]
  obtain ⟨f', hloop, houtside⟩ := it.iterate_fill isSet hheld_counter hheld_element hcounter_element
    ((f.get?_set_ne _ (Ne.symm hheld_counter)).trans hheld) (fun _ => f.get?_set_self counter (.nat 0)) hcell
    (List.length_replicate ..) hxs (Nat.zero_add xs.length).le
  rw [← List.range_eq_range', storeAt_range (List.length_replicate ..)] at hloop
  have hforEach : it.exec (f.set counter (.nat 0)) (.forEach element value (if isSet then none else some counter)
      (fillBody it.target held counter element isSet)) m =
        (.ok f', { m with heap := m.heap.setCell h (.buffer xs) }) := by
    simp only [exec]
    rw [hlookup, bind_ok (ofExcept_apply _), bind_ok (by rw [read_apply, hiterated]), hloop]
  refine ⟨f', ?_, (Frame.Outside.set f _ List.mem_cons_self).trans houtside⟩
  simp only [fillStmts, execBlock]
  rw [bind_ok hstart, bind_ok hforEach, pure_apply]

/-! ### The statements after the call -/

/-- However the value is copied, the new array ends up with its elements. A loop binds its element anew, so only its
counter has to be free. -/
theorem execBlock_copy {n : OwnedResult} {delivery : Delivery} {copy : List Stmt} {extra : List String}
    (hcopy : n.Copy it.target delivery copy extra) (hnd : (n.names ++ extra).Nodup) {v : Value} {h : Handle}
    {extents : List Nat} {xs : List Value} (hv : v.Elements m.heap extents xs)
    (hfill : delivery ≠ .copy → v.items? = some xs) (hvalue : f.locals.get? n.value = some v)
    (hunbound : ∀ x ∈ extra, x ∉ extra.tail → f.locals.get? x = none)
    (hheld : f.locals.get? n.held = some (.array (.contiguous h extents it.target.storageOrder)))
    (hcell : m.heap.cell? h = some (.buffer (List.replicate (Layout.size extents) (.int 0)))) :
    ∃ f', it.execBlock f copy m =
        (.ok f', { m with heap := m.heap.setCell h (.buffer (denseData it.target.storageOrder extents xs)) }) ∧
      Frame.Outside extra f f' := by
  cases hcopy with
  | whole =>
    refine ⟨f, ?_, .refl _ _⟩
    rw [execBlock_singleton, it.exec_copy_whole hheld hvalue hv hcell]
  | fill isSet counter element =>
    have hitems := hfill (by simp)
    obtain ⟨rfl, hxs⟩ : extents = [xs.length] ∧ InMemory xs := by
      cases hv with
      | array => cases hitems
      | collection _ held => exact ⟨rfl, held⟩
    have hnd' : [n.value, n.held, counter, element].Nodup := by
      refine hnd.sublist ?_
      simp only [OwnedResult.names, List.cons_append, List.append_assoc]
      exact .cons_cons _ (.cons _ (List.sublist_append_right n.shape [n.held, counter, element]))
    have hcounter : counter ∉ [element] := fun hmem => by
      simp [List.mem_singleton.1 hmem] at hnd'
    rw [Layout.size_singleton hxs.lt_count] at hcell
    obtain ⟨f', hrun, houtside⟩ := it.execBlock_fillStmts isSet hnd' hvalue hitems hxs
      (hunbound counter List.mem_cons_self hcounter) hheld hcell
    exact ⟨f', by rw [hrun, denseData_line _ hxs], houtside⟩

/-- Where the outputs hold the extents, a new array is made, filled and handed out. -/
theorem execBlock_newArray {n : OwnedResult} {type : ValueType} {delivery : Delivery} {copy : List Stmt}
    {shape extra : List String} (hcopy : n.Copy it.target delivery copy extra) (hnd : (n.names ++ extra).Nodup)
    {v : Value} {extents : List Nat} {xs : List Value} (hv : v.Elements m.heap extents xs)
    (hfill : delivery ≠ .copy → v.items? = some xs) (htype : f.declaredType? n.held = some type)
    (hobject : ∀ c, type ≠ .object c) (hvalue : f.locals.get? n.value = some v)
    (hunbound : ∀ x ∈ extra, x ∉ extra.tail → f.locals.get? x = none) (hshape : f.Holds shape (extents.map .nat)) :
    ∃ f', it.execBlock f (.allocate n.held (shape.map .var) :: copy ++ [.addressOf n.held n.ptr]) m =
        (.ok f', { m with heap := m.heap.push (.buffer (denseData it.target.storageOrder extents xs)) }) ∧
      Frame.Outside (n.held :: n.ptr :: extra) f f' ∧ f'.locals.get? n.ptr = some (.ptr (some m.heap.next)) := by
  have hvalue_held : n.held ≠ n.value := by
    rintro heq
    simp [OwnedResult.names, heq] at hnd
  have hheld_extra : n.held ∉ extra := fun hmem =>
    List.disjoint_of_nodup_append hnd (by simp [OwnedResult.names]) hmem
  have hallocate := it.exec_allocate (m := m) htype hobject hshape
  obtain ⟨f₁, hf₁⟩ : ∃ f₁, f.set n.held (.array (.contiguous m.heap.next extents it.target.storageOrder)) = f₁ :=
    ⟨_, rfl⟩
  have hget₁ : ∀ x, n.held ≠ x → f₁.locals.get? x = f.locals.get? x := fun x hne => hf₁ ▸ f.get?_set_ne _ hne
  have hheld₁ := hf₁ ▸ f.get?_set_self n.held (.array (.contiguous m.heap.next extents it.target.storageOrder))
  obtain ⟨f₂, hrun, houtside⟩ := it.execBlock_copy (f := f₁) (m := { m with heap := m.heap.push _ }) hcopy hnd
    (hv.push _) hfill ((hget₁ _ hvalue_held).trans hvalue) (fun x hx htail => by
      rw [hget₁ x fun heq => hheld_extra (heq ▸ hx), hunbound x hx htail])
    hheld₁ (Heap.cell?_push_next ..)
  rw [Heap.setCell_push_next] at hrun
  have haddress : it.exec f₂ (.addressOf n.held n.ptr)
      { m with heap := m.heap.push (.buffer (denseData it.target.storageOrder extents xs)) } = _ :=
    it.exec_addressOf_dense ((houtside.get? _ hheld_extra).trans hheld₁) (Heap.cell?_push_next ..)
      (length_denseData ..)
  refine ⟨f₂.set n.ptr (.ptr (some m.heap.next)), ?_, ?_, f₂.get?_set_self _ _⟩
  · simp only [List.cons_append, execBlock]
    rw [bind_ok hallocate, hf₁, execBlock_append, bind_ok hrun, execBlock_singleton, haddress]
  · have houtside₁ : Frame.Outside [n.held] f f₁ := hf₁ ▸ .set f _ (List.mem_singleton_self _)
    exact ((houtside₁.mono (by simp)).trans (houtside.mono fun x hx => by simp [hx])).trans (.set f₂ _ (by simp))

/-- What the statements after the call leave behind: a new buffer with the elements, its address, and the extents
of the value in declared order. -/
theorem execBlock_deferred {n : OwnedResult} {r : Semantic.Result} {delivery : Delivery} {copy : List Stmt}
    {extra : List String} (hcopy : n.Copy it.target delivery copy extra) (hnd : (n.names ++ extra).Nodup) {v : Value}
    {extents : List Nat} {xs : List Value} (hv : v.Elements m.heap extents xs)
    (hfill : delivery ≠ .copy → v.items? = some xs) (hrank : n.shape.length = extents.length)
    (htype : f.declaredType? n.held = some r.type) (hobject : ∀ c, r.type ≠ .object c)
    (hvalue : f.locals.get? n.value = some v)
    (hunbound : ∀ x ∈ n.names ++ extra, x ≠ n.value → x ∉ extra.tail → f.locals.get? x = none) :
    ∃ f', it.execBlock f (n.marshalled it.target r copy).deferred m =
        (.ok f', { m with heap := m.heap.push (.buffer (denseData it.target.storageOrder extents xs)) }) ∧
      Frame.Outside (n.names ++ extra) f f' ∧ f'.locals.get? n.ptr = some (.ptr (some m.heap.next)) ∧
      f'.Holds n.shape ((it.target.storageOrder.reorder r.type.order extents).map .nat) := by
  have hnames := hnd
  simp only [OwnedResult.names, List.cons_append, List.append_assoc, List.nil_append, List.nodup_cons,
    List.nodup_append, List.mem_cons, List.mem_append, not_or] at hnames
  obtain ⟨⟨-, hvalue_shape, -, hvalue_extra⟩, ⟨hptr_shape, -, -⟩, -, -, hshape_rest⟩ := hnames
  have hextents := hv.extent?_eq
  rw [← hrank, ← List.forall₂_map_right_iff (f := fun e : Nat => (e : Int))
    (R := fun dim n => extent? v dim = some n)] at hextents
  obtain ⟨f₁, hrun₁, houtside₁, hholds₁⟩ := it.execBlock_assignShapes (m := m) r.type.order hextents
    (it.lookup_of_get? hvalue) (n.nodup_value_shape (List.nodup_append.1 hnd).1)
    (fun x hx => hunbound x (by simp [OwnedResult.names, hx]) (fun heq => hvalue_shape (heq ▸ hx))
      fun hmem => hshape_rest x hx x (.inr (List.mem_of_mem_tail hmem)) rfl)
  rw [StorageOrder.map_reorder, List.map_map, ← StorageOrder.map_reorder] at hholds₁
  -- the array has the extents in native order
  have hnative : f₁.Holds (r.type.order.reorder it.target.storageOrder n.shape) (extents.map .nat) := by
    have := hholds₁.reorder r.type.order it.target.storageOrder
    rwa [← StorageOrder.map_reorder, StorageOrder.reorder_reorder] at this
  obtain ⟨f₂, hrun₂, houtside₂, hptr⟩ := it.execBlock_newArray hcopy hnd hv hfill
    ((Frame.declaredType?_congr houtside₁.function _).trans htype) hobject
    ((houtside₁.get? _ hvalue_shape).trans hvalue) (fun x hx htail => by
      rw [houtside₁.get? x fun hmem => hshape_rest x hmem x (.inr hx) rfl,
        hunbound x (List.mem_append_right _ hx) (fun heq => hvalue_extra (heq ▸ hx)) htail]) hnative
  refine ⟨f₂, ?_, ?_, hptr, hholds₁.outside houtside₂ fun x hx hmem => ?_⟩
  · simp only [OwnedResult.marshalled, List.append_assoc, List.cons_append] at hrun₂ ⊢
    rw [execBlock_append, bind_ok hrun₁, hrun₂]
  · refine (houtside₁.mono fun x hx => ?_).trans (houtside₂.mono fun x hx => ?_)
    · simp [OwnedResult.names, hx]
    · simp only [OwnedResult.names, List.mem_append, List.mem_cons] at hx ⊢
      tauto
  · rcases List.mem_cons.1 hmem with rfl | hmem
    · exact hshape_rest _ hx _ (.inl rfl) rfl
    rcases List.mem_cons.1 hmem with rfl | hmem
    · exact hptr_shape hx
    · exact hshape_rest x hx x (.inr hmem) rfl

end Interpreter

end AbiBridge
