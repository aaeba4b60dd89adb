import Mathlib
import AbiBridge.Machine.Heap
import AbiBridge.Proofs.Odometer

/-!
# Reading and copying views

A view fits a heap (`Heap.Fits`) when all its elements lie in a live buffer. Its elements can then be read
(`elements_of_fits`), and a copy into it succeeds and changes that buffer only (`copyInto_eq`): what a
position holds afterwards is said by `storeAt`, a list written to at positions in turn. The elements of
a dense array have positions of their own, so that a copy into a new array puts each item where the
layout says (`storeAt_dense`).
-/

namespace AbiBridge

/-! ### Runs -/

namespace Run

variable {σ α β : Type} {x : Run σ α} {f : α → Run σ β} {s s' : σ}

theorem bind_ok {a : α} (h : x s = (.ok a, s')) : (x >>= f) s = f a s' := by rw [bind_apply, h]

theorem bind_error {e : Trap} (h : x s = (.error e, s')) : (x >>= f) s = (.error e, s') := by
  rw [bind_apply, h]

theorem exists_of_bind_ok {b : β} {s'' : σ} (h : (x >>= f) s = (.ok b, s'')) :
    ∃ a s', x s = (.ok a, s') ∧ f a s' = (.ok b, s'') := by
  rcases hx : x s with ⟨e | a, s'⟩
  · rw [bind_error hx] at h
    cases h
  · exact ⟨a, s', rfl, (bind_ok hx).symm.trans h⟩

theorem bind_congr_apply {y : Run σ α} (h : x s = y s) : (x >>= f) s = (y >>= f) s := by
  rw [bind_apply, bind_apply, h]

@[simp] theorem ofExcept_apply (r : Except Trap α) : (ofExcept r : Run σ α) s = (r, s) := rfl

@[simp] theorem read_apply (g : σ → Except Trap α) : read g s = (g s, s) := rfl

end Run

/-! ### Lists written to at positions -/

/-- Writes values to positions of a list in turn. -/
def storeAt {α : Type} : List (Nat × α) → List α → List α
  | [], items => items
  | (k, x) :: rest, items => storeAt rest (items.set k x)

section
variable {α : Type} {ps : List (Nat × α)} {items : List α} {k : Nat} {x : α}

@[simp] theorem length_storeAt (ps : List (Nat × α)) (items : List α) :
    (storeAt ps items).length = items.length := by
  induction ps generalizing items with
  | nil => rfl
  | cons p ps ih => rw [storeAt, ih, List.length_set]

theorem getElem?_storeAt_of_notMem (h : k ∉ ps.map Prod.fst) : (storeAt ps items)[k]? = items[k]? := by
  induction ps generalizing items with
  | nil => rfl
  | cons p ps ih =>
    simp only [List.map_cons, List.mem_cons, not_or] at h
    rw [storeAt, ih h.2, List.getElem?_set_ne (Ne.symm h.1)]

theorem getElem?_storeAt_of_mem (hnd : (ps.map Prod.fst).Nodup) (hm : (k, x) ∈ ps)
    (hk : k < items.length) : (storeAt ps items)[k]? = some x := by
  induction ps generalizing items with
  | nil => cases hm
  | cons p ps ih =>
    obtain ⟨hp, hnd⟩ := List.nodup_cons.1 hnd
    rcases List.mem_cons.1 hm with rfl | hm
    -- no later write goes to the same position
    · rw [storeAt, getElem?_storeAt_of_notMem hp, List.getElem?_set_self hk]
    · exact ih hnd hm (by rwa [List.length_set])

/-- Values written to different positions are all found there in the end. -/
theorem getElem?_storeAt_zip {ks : List Nat} {xs : List α} {j : Nat} (hnd : ks.Nodup) (hlen : ks.length = xs.length)
    (hk : ks[j]? = some k) (hx : xs[j]? = some x) (hlt : k < items.length) :
    (storeAt (ks.zip xs) items)[k]? = some x := by
  refine getElem?_storeAt_of_mem ?_ (List.mem_of_getElem? (i := j) ?_) hlt
  · rw [List.map_fst_zip hlen.le]
    exact hnd
  · rw [List.getElem?_zip_eq_some]
    exact ⟨hk, hx⟩

theorem storeAt_range {xs : List α} (h : items.length = xs.length) :
    storeAt ((List.range xs.length).zip xs) items = xs := by
  refine List.ext_getElem? fun k => ?_
  by_cases hk : k < xs.length
  · have hx := List.getElem?_eq_getElem hk
    rw [hx]
    exact getElem?_storeAt_zip List.nodup_range List.length_range (List.getElem?_range hk) hx (h ▸ hk)
  · rw [List.getElem?_eq_none (by simp; omega), List.getElem?_eq_none (by omega)]

end

theorem View.flatIndex_eq {v : View} {index : List Nat} (h : Layout.inBounds v.extents index = true) :
    v.flatIndex index = .ok (v.place index) := by
  rw [flatIndex, if_pos h]

/-! ### Cells -/

/-- A list that is held in memory. Words address memory, forwards and backwards, so it has fewer than `2 ^ 63` items. -/
abbrev InMemory (items : List Value) : Prop := items.length < 2 ^ 63

theorem InMemory.lt_count {items : List Value} (h : InMemory items) : items.length < Word.count :=
  lt_trans h (by decide)

namespace Heap

variable {heap heap' : Heap} {h : Handle} {c : Cell} {v : View} {index : List Nat} {items : List Value}
  {x : Value}

@[simp] theorem cell?_push_next (heap : Heap) (c : Cell) : (heap.push c).cell? heap.next = some c := by
  simp [cell?, push, next]

theorem lt_next_of_cell? (hc : heap.cell? h = some c) : h < heap.next :=
  (List.getElem?_eq_some_iff.1 hc).1

theorem cell?_push_of_lt (hh : h < heap.next) (c : Cell) : (heap.push c).cell? h = heap.cell? h :=
  List.getElem?_append_left hh

theorem cell?_push_of_some {d : Cell} (hc : heap.cell? h = some d) (c : Cell) :
    (heap.push c).cell? h = some d := by
  rw [cell?_push_of_lt (lt_next_of_cell? hc), hc]

/-- The heap with more cells. -/
def extend (heap : Heap) (cells : List Cell) : Heap := ⟨heap.cells ++ cells⟩

@[simp] theorem extend_nil (heap : Heap) : heap.extend [] = heap := by simp [extend]

theorem extend_extend (heap : Heap) (cs ds : List Cell) : (heap.extend cs).extend ds = heap.extend (cs ++ ds) := by
  simp [extend]

theorem next_extend (heap : Heap) (cells : List Cell) : (heap.extend cells).next = heap.next + cells.length :=
  List.length_append

theorem cell?_extend (hc : heap.cell? h = some c) (cells : List Cell) : (heap.extend cells).cell? h = some c :=
  (List.getElem?_append_left (lt_next_of_cell? hc)).trans hc

theorem cell?_extend_next (heap : Heap) (cells : List Cell) (k : Nat) :
    (heap.extend cells).cell? (heap.next + k) = cells[k]? := by
  have hle : heap.cells.length ≤ heap.next + k := Nat.le_add_right _ _
  rw [cell?, extend, List.getElem?_append_right hle]
  exact congrArg (cells[·]?) (Nat.add_sub_cancel_left _ _)

theorem setCell_push_next (heap : Heap) (c d : Cell) : (heap.push c).setCell heap.next d = heap.push d := by
  simp [setCell, push, next]

theorem cell?_setCell_ne {k : Handle} (hne : h ≠ k) (c : Cell) : (heap.setCell h c).cell? k = heap.cell? k :=
  List.getElem?_set_ne hne

theorem setCell_self (hc : heap.cell? h = some c) : heap.setCell h c = heap := by
  obtain ⟨hlt, rfl⟩ := List.getElem?_eq_some_iff.1 hc
  rw [setCell, List.set_getElem_self hlt]

theorem buffer_eq_ok : heap.buffer h = .ok items ↔ heap.cell? h = some (.buffer items) := by
  unfold buffer
  split <;> simp_all

/-! ### Elements -/

theorem object_eq_ok {o : Instance} : heap.object h = .ok o ↔ heap.cell? h = some (.object o) := by
  unfold object
  split <;> simp_all

theorem element_of_place (hc : heap.cell? v.buffer = some (.buffer items))
    (hi : Layout.inBounds v.extents index = true) (hx : items[v.place index]? = some x) :
    heap.element v index = .ok x := by
  simp [element, View.flatIndex_eq hi, buffer_eq_ok.2 hc, hx]

theorem element_congr (hc : heap'.cell? v.buffer = heap.cell? v.buffer) :
    heap'.element v = heap.element v := by
  funext index
  simp only [element, buffer, hc]

theorem elements_congr (hc : heap'.cell? v.buffer = heap.cell? v.buffer) :
    heap'.elements v = heap.elements v := by
  rw [elements_eq, elements_eq, element_congr hc]

/-- A view of a live buffer all of whose elements lie in it. -/
def Fits (heap : Heap) (v : View) : Prop :=
  ∃ items, heap.cell? v.buffer = some (.buffer items) ∧
    ∀ index, Layout.inBounds v.extents index = true → v.place index < items.length

theorem Fits.element (hv : heap.Fits v) (hi : Layout.inBounds v.extents index = true) :
    ∃ x, heap.element v index = .ok x := by
  obtain ⟨items, hc, hlt⟩ := hv
  exact ⟨_, element_of_place hc hi (List.getElem?_eq_getElem (hlt index hi))⟩

theorem Fits.push (hv : heap.Fits v) (c : Cell) : (heap.push c).Fits v := by
  obtain ⟨items, hc, hlt⟩ := hv
  exact ⟨items, cell?_push_of_some hc c, hlt⟩

theorem Fits.cell?_push (hv : heap.Fits v) (c : Cell) : (heap.push c).cell? v.buffer = heap.cell? v.buffer := by
  obtain ⟨items, hc, -⟩ := hv
  exact cell?_push_of_lt (lt_next_of_cell? hc) c

theorem Fits.extend (hv : heap.Fits v) (cells : List Cell) : (heap.extend cells).Fits v := by
  obtain ⟨items, hc, hfit⟩ := hv
  exact ⟨items, cell?_extend hc cells, hfit⟩

theorem elements_extend (hv : heap.Fits v) (cells : List Cell) : (heap.extend cells).elements v = heap.elements v := by
  obtain ⟨items, hc, -⟩ := hv
  exact elements_congr ((cell?_extend hc cells).trans hc.symm)

theorem mapM_ok {α β : Type} {f : α → Except Trap β} {l : List α} (hf : ∀ a ∈ l, ∃ b, f a = .ok b) :
    ∃ bs, l.mapM f = .ok bs ∧ List.Forall₂ (fun a b => f a = .ok b) l bs := by
  induction l with
  | nil => exact ⟨[], rfl, .nil⟩
  | cons a l ih =>
    obtain ⟨b, hb⟩ := hf a (by simp)
    obtain ⟨bs, hbs, hall⟩ := ih fun a ha => hf a (by simp [ha])
    exact ⟨b :: bs, by rw [List.mapM_cons, hb, hbs]; rfl, .cons hb hall⟩

theorem elements_of_fits (hv : heap.Fits v) :
    ∃ xs, heap.elements v = .ok xs ∧
      List.Forall₂ (fun index x => heap.element v index = .ok x) (logicalIndices v.extents) xs := by
  rw [elements_eq]
  exact mapM_ok fun index hi => hv.element (inBounds_of_mem_logicalIndices hi)

theorem length_elements {xs : List Value} (hv : heap.Fits v) (hxs : heap.elements v = .ok xs) :
    xs.length = Layout.size v.extents := by
  obtain ⟨ys, hys, hall⟩ := elements_of_fits hv
  obtain rfl := Except.ok.inj (hxs.symm.trans hys)
  rw [← hall.length_eq, length_logicalIndices]

end Heap

/-! ### Writes -/

namespace HeapM

open Heap

variable {heap : Heap} {v dest : View} {index : List Nat} {items xs : List Value} {x : Value}

theorem setElement_eq (hc : heap.cell? v.buffer = some (.buffer items))
    (hi : Layout.inBounds v.extents index = true) (hlt : v.place index < items.length) :
    setElement v index x heap =
      (.ok (), heap.setCell v.buffer (.buffer (items.set (v.place index) x))) := by
  simp [setElement, Run.update, Heap.setElement, View.flatIndex_eq hi, hc, hlt]

/-- Writes inside a buffer all succeed and change that buffer only. -/
theorem writeAll_eq {writes : List (List Nat × Value)} (hc : heap.cell? v.buffer = some (.buffer items))
    (hw : ∀ w ∈ writes, Layout.inBounds v.extents w.1 = true ∧ v.place w.1 < items.length) :
    writeAll v writes heap =
      (.ok (), heap.setCell v.buffer (.buffer (storeAt (writes.map fun w => (v.place w.1, w.2)) items))) := by
  induction writes generalizing heap items with
  | nil =>
    rw [writeAll_nil, Run.pure_apply, List.map_nil, storeAt, setCell_self hc]
  | cons w writes ih =>
    obtain ⟨hi, hlt⟩ := hw w (by simp)
    rw [writeAll_cons, Run.bind_ok (setElement_eq hc hi hlt), ih (cell?_setCell _ hc _) fun u hu => ?_,
      setCell_setCell]
    · rfl
    · rw [List.length_set]
      exact hw u (by simp [hu])

theorem copyInto_eq {source : Value} (hc : heap.cell? dest.buffer = some (.buffer items))
    (hfit : ∀ index, Layout.inBounds dest.extents index = true → dest.place index < items.length)
    (hitems : heap.itemsOf source = .ok xs) (hlen : xs.length = Layout.size dest.extents) :
    copyInto dest source heap = (.ok (), heap.setCell dest.buffer
      (.buffer (storeAt (((logicalIndices dest.extents).map dest.place).zip xs) items))) := by
  have hl : (logicalIndices dest.extents).length = xs.length := by rw [length_logicalIndices, hlen]
  unfold copyInto
  rw [Run.bind_ok (by rw [Run.read_apply, hitems])]
  simp only [hl, ↓reduceIte]
  rw [writeAll_eq hc fun w hw => ?_, List.zip_map_left]
  · rfl
  · have hi := inBounds_of_mem_logicalIndices (List.of_mem_zip hw).1
    exact ⟨hi, hfit _ hi⟩

end HeapM

/-! ### Dense arrays -/

namespace View

variable {h : Handle} {extents index : List Nat} {order : StorageOrder}

theorem place_contiguous (h : Handle) (extents : List Nat) (order : StorageOrder) (index : List Nat) :
    (contiguous h extents order).place index = (Layout.mk extents order).position index :=
  congrArg Word.wrap (Nat.zero_add _)

theorem place_contiguous_lt (hw : Layout.volume extents < Word.count) (hi : Layout.inBounds extents index = true) :
    (contiguous h extents order).place index < Layout.volume extents := by
  rw [place_contiguous]
  exact Layout.position_lt hw hi

theorem covers_contiguous (h : Handle) (extents : List Nat) (order : StorageOrder) :
    (contiguous h extents order).covers (Layout.size extents) order = true := by
  simp [covers, contiguous, length]

theorem place_line (h : Handle) {n i : Nat} (order : StorageOrder) (hi : i < Word.count) :
    (contiguous h [n] order).place [i] = i := by
  have hspans : Layout.spans order [n] = [1] := by cases order <;> rfl
  rw [place_contiguous, Layout.position_eq, hspans]
  simp [Layout.dot, Word.wrap_of_lt hi]

theorem places_line (h : Handle) {n : Nat} (order : StorageOrder) (hn : n < Word.count) :
    (logicalIndices [n]).map (contiguous h [n] order).place = List.range n := by
  have hw : Layout.volume [n] < Word.count := by rwa [Layout.volume_singleton]
  have hspans : Layout.spans order [n] = Layout.rowSpans [n] := by cases order <;> rfl
  have hplace : (logicalIndices [n]).map (contiguous h [n] order).place =
      (logicalIndices [n]).map (Layout.dot · (Layout.rowSpans [n])) := by
    refine List.map_congr_left fun index hi => ?_
    rw [place_contiguous, Layout.position_of_inBounds hw (inBounds_of_mem_logicalIndices hi), hspans]
  rw [hplace, map_logicalIndices, Layout.size_of_lt hw, Layout.volume_singleton]

end View

end AbiBridge
