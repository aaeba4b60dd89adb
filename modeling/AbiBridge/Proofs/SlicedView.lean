import Mathlib
import AbiBridge.Proofs.HeapCopy

/-!
# Views narrowed by slices

A view is made dense and narrowed by slices, any number of them and in any dimensions (`View.SliceOf`). A slice takes an
index `j` of its dimension for the index `start + j * step` of the view it narrows, and changes no other component
(`place_slice`). So what one slice keeps of a view, `View.Addresses`, any sequence of them keeps: indices in bounds have
positions of their own, all of them inside the buffer of the dense view (`flatIndex_of_slices`). It holds of the dense
view if a word can count its elements, and may fail if not (`flatIndex_wide`). That the offsets and strides of slices
wrap around, too, no position shows.

A copy into such a view reads all items before it writes the first, and no write goes where another has gone. So the
view has the items in the end, even where they were read from the same buffer, and nothing else is changed
(`copyInto_sliced`).
-/

namespace AbiBridge

/-! ### The indices that a slice selects -/

/-- The indices of a dimension that a slice selects. A step is at least one. -/
def selected (extent start : Nat) (stop : Option Nat) (step : Nat) : Set Nat :=
  {k | (∃ j, k = start + j * max step 1) ∧ k < extent ∧ ∀ s ∈ stop, k < s}

theorem lt_stepCount_iff {start stop step j : Nat} (hstep : 1 ≤ step) :
    j < stepCount start stop step ↔ start + j * step < stop := by
  unfold stepCount
  split
  · next h =>
    -- the quotient is rounded up
    have hceil : stop - start + step - 1 = (stop - start - 1) + step := by omega
    rw [hceil, Nat.add_div_right _ hstep, Nat.lt_succ_iff, Nat.le_div_iff_mul_le hstep]
    omega
  · next h =>
    constructor
    · intro hj
      omega
    · intro hj
      omega

theorem step_injective (start step : Nat) : Function.Injective fun j => start + j * max step 1 := by
  intro i j hij
  have hpos : 0 < max step 1 := by omega
  exact Nat.eq_of_mul_eq_mul_right hpos (Nat.add_left_cancel hij)

theorem modify_injective {α : Type} {f : α → α} (hf : Function.Injective f) (k : Nat) :
    Function.Injective fun l : List α => l.modify k f := by
  intro is js h
  refine List.ext_getElem? fun d => ?_
  have hd := congrArg (·[d]?) h
  simp only [List.getElem?_modify] at hd
  refine Option.map_injective ?_ hd
  intro a b hab
  dsimp only at hab
  split at hab
  · exact hf hab
  · exact hab

namespace Layout

theorem inBounds_modify {es is : List Nat} {dim e n : Nat} {f : Nat → Nat} (he : es[dim]? = some e)
    (hf : ∀ j, j < n → f j < e) (h : inBounds (es.set dim n) is = true) : inBounds es (is.modify dim f) = true := by
  induction es generalizing is dim with
  | nil => cases he
  | cons d es ih =>
    cases dim with
    | zero =>
      obtain _ | ⟨i, is⟩ := is
      · cases h
      obtain rfl : d = e := by simpa using he
      simp only [List.set_cons_zero, inBounds, Bool.and_eq_true, decide_eq_true_eq] at h
      simp only [List.modify_zero_cons, inBounds, Bool.and_eq_true, decide_eq_true_eq]
      exact ⟨hf i h.1, h.2⟩
    | succ dim =>
      obtain _ | ⟨i, is⟩ := is
      · cases h
      simp only [List.set_cons_succ, inBounds, Bool.and_eq_true, decide_eq_true_eq] at h
      simp only [List.modify_succ_cons, inBounds, Bool.and_eq_true, decide_eq_true_eq]
      exact ⟨h.1, ih (by simpa using he) h.2⟩

theorem volume_set_le {es : List Nat} {dim e n : Nat} (he : es[dim]? = some e) (hn : n ≤ e) :
    volume (es.set dim n) ≤ volume es := by
  induction es generalizing dim with
  | nil => cases he
  | cons d es ih =>
    cases dim with
    | zero =>
      obtain rfl : d = e := by simpa using he
      exact Nat.mul_le_mul_right _ hn
    | succ dim => exact Nat.mul_le_mul_left d (ih (by simpa using he))

/-- An affine change of one component moves the position, and changes the stride of that dimension. -/
theorem dot_modify {is ss : List Nat} {dim : Nat} (hdim : dim < is.length) (h : is.length = ss.length) (a b : Nat) :
    dot (is.modify dim fun j => a + j * b) ss =
      a * ss.getD dim 0 + dot is (ss.set dim (ss.getD dim 0 * b)) := by
  induction is generalizing ss dim with
  | nil => cases hdim
  | cons i is ih =>
    obtain _ | ⟨s, ss⟩ := ss
    · cases h
    cases dim with
    | zero =>
      simp only [List.modify_zero_cons, List.set_cons_zero, List.getD_cons_zero, dot_cons]
      ring
    | succ dim =>
      have hrest := ih (Nat.succ_lt_succ_iff.1 hdim) (Nat.succ.inj h)
      simp only [List.modify_succ_cons, List.set_cons_succ, List.getD_cons_succ, dot_cons, hrest]
      omega

end Layout

/-! ### One slice -/

namespace View

variable {v base : View} {dim start step e : Nat} {stop : Option Nat} {index : List Nat}

/-- A slice changes the extent of its dimension only: what is left are the indices that it selects. -/
theorem exists_extents_slice (he : v.extents[dim]? = some e) (start : Nat) (stop : Option Nat) (step : Nat) :
    ∃ n, (v.slice dim start stop step).extents = v.extents.set dim n ∧
      ∀ j, j < n ↔ start + j * max step 1 ∈ selected e start stop step := by
  have hstep : 1 ≤ max step 1 := by omega
  have hextent : v.extents.getD dim 0 = e := by rw [List.getD_eq_getElem?_getD, he, Option.getD_some]
  refine ⟨_, rfl, fun j => ?_⟩
  rw [lt_stepCount_iff hstep, hextent]
  unfold selected
  cases stop with
  | none => simp
  | some s =>
    simp only [Option.mem_def, Option.some.injEq, forall_eq', Set.mem_ofPred_eq]
    constructor
    · intro hj
      exact ⟨⟨j, rfl⟩, by omega, by omega⟩
    · rintro ⟨-, hj, hj'⟩
      omega

theorem volume_slice_le (he : v.extents[dim]? = some e) (start : Nat) (stop : Option Nat) (step : Nat) :
    Layout.volume (v.slice dim start stop step).extents ≤ Layout.volume v.extents := by
  obtain ⟨n, hn, hselected⟩ := exists_extents_slice he start stop step
  rw [hn]
  refine Layout.volume_set_le he ?_
  obtain _ | j := n
  · exact Nat.zero_le e
  · have hlast : start + j * max step 1 < e := ((hselected j).1 (Nat.lt_succ_self j)).2.1
    have hstep : j * 1 ≤ j * max step 1 := Nat.mul_le_mul_left j (by omega)
    omega

/-- A slice has at an index what the view has at the index that the slice selects there. -/
theorem place_slice (hstrides : v.strides.length = v.extents.length) (he : v.extents[dim]? = some e)
    (hi : Layout.inBounds (v.slice dim start stop step).extents index = true) :
    Layout.inBounds v.extents (index.modify dim fun j => start + j * max step 1) = true ∧
      (v.slice dim start stop step).place index = v.place (index.modify dim fun j => start + j * max step 1) := by
  obtain ⟨n, hn, hselected⟩ := exists_extents_slice he start stop step
  rw [hn] at hi
  have hlen : index.length = v.extents.length := (Layout.inBounds_length hi).trans List.length_set
  have hdim : dim < index.length := hlen ▸ (List.getElem?_eq_some_iff.1 he).1
  refine ⟨Layout.inBounds_modify he (fun j hj => ((hselected j).1 hj).2.1) hi, ?_⟩
  have hdot := Layout.dot_modify hdim (hlen.trans hstrides.symm) start (max step 1)
  have hwords : Word.wrap (Layout.dot index (v.strides.set dim (Word.wrap (v.strides.getD dim 0 * max step 1)))) =
      Word.wrap (Layout.dot index (v.strides.set dim (v.strides.getD dim 0 * max step 1))) :=
    Layout.wrap_dot_congr (by simp [List.map_set]) index
  simp only [place, View.slice]
  rw [Word.wrap_wrap_add, ← Word.wrap_add_wrap, hwords, Word.wrap_add_wrap, hdot, Nat.add_assoc]

/-! ### Slices in turn -/

/-- Every index of the view has a position of its own, and it is below `size`. -/
structure Addresses (v : View) (size : Nat) : Prop where
  strides : v.strides.length = v.extents.length
  lt : ∀ i, Layout.inBounds v.extents i = true → v.place i < size
  inj : ∀ i j, Layout.inBounds v.extents i = true → Layout.inBounds v.extents j = true → v.place i = v.place j → i = j

theorem addresses_contiguous {extents : List Nat} (hw : Layout.volume extents < Word.count) (b : Handle)
    (order : StorageOrder) : (contiguous b extents order).Addresses (Layout.volume extents) where
  strides := Layout.length_stridesOf order extents
  lt _ hi := place_contiguous_lt hw hi
  inj i j hi hj h := by
    rw [place_contiguous, place_contiguous] at h
    exact Layout.position_inj hw hi hj h

theorem Addresses.slice {size : Nat} (h : v.Addresses size) (hdim : dim < v.rank) (start : Nat) (stop : Option Nat)
    (step : Nat) : (v.slice dim start stop step).Addresses size := by
  obtain ⟨e, he⟩ : ∃ e, v.extents[dim]? = some e := ⟨_, List.getElem?_eq_getElem hdim⟩
  refine ⟨?_, fun i hi => ?_, fun i j hi hj hij => ?_⟩
  · simp only [View.slice, List.length_set]
    exact h.strides
  · obtain ⟨hi', hplace⟩ := place_slice h.strides he hi
    rw [hplace]
    exact h.lt _ hi'
  · obtain ⟨hi', hplace⟩ := place_slice h.strides he hi
    obtain ⟨hj', hplace'⟩ := place_slice h.strides he hj
    rw [hplace, hplace'] at hij
    exact modify_injective (step_injective start step) dim (h.inj _ _ hi' hj' hij)

/-- The view is `base`, narrowed by slices of dimensions that it has. -/
inductive SliceOf (base : View) : View → Prop
  | whole : SliceOf base base
  | slice {v : View} (h : SliceOf base v) {dim : Nat} (hdim : dim < v.rank) (start : Nat) (stop : Option Nat)
    (step : Nat) : SliceOf base (v.slice dim start stop step)

theorem SliceOf.addresses {size : Nat} (h : base.SliceOf v) (hbase : base.Addresses size) : v.Addresses size := by
  induction h with
  | whole => exact hbase
  | slice _ hdim start stop step ih => exact ih.slice hdim start stop step

theorem SliceOf.volume_le (h : base.SliceOf v) : Layout.volume v.extents ≤ Layout.volume base.extents := by
  induction h with
  | whole => exact le_refl _
  | slice _ hdim start stop step ih =>
    exact (volume_slice_le (List.getElem?_eq_getElem hdim) start stop step).trans ih

theorem SliceOf.buffer_eq (h : base.SliceOf v) : v.buffer = base.buffer := by
  induction h with
  | whole => rfl
  | slice _ _ _ _ _ ih => exact ih

end View

/-! ### Copies -/

/-- The view was made by slicing a dense view that fits a live buffer. -/
inductive Heap.Window (heap : Heap) : View → Prop
  | mk {b : Handle} {items : List Value} {extents : List Nat} {order : StorageOrder} {v : View}
    (live : heap.cell? b = some (.buffer items)) (held : InMemory items) (room : extents.prod ≤ items.length)
    (sliced : (View.contiguous b extents order).SliceOf v) : Window heap v

namespace Heap

variable {heap : Heap} {v : View} {items xs : List Value} {x : Value}

theorem Window.addresses (h : heap.Window v) :
    ∃ items, heap.cell? v.buffer = some (.buffer items) ∧ v.Addresses items.length := by
  obtain @⟨b, items, _, _, _, live, held, room, sliced⟩ := h
  have hbuffer : v.buffer = b := sliced.buffer_eq
  have haddresses := sliced.addresses (View.addresses_contiguous (lt_of_le_of_lt room held.lt_count) ..)
  refine ⟨items, hbuffer ▸ live, haddresses.strides, fun i hi => ?_, haddresses.inj⟩
  exact lt_of_lt_of_le (haddresses.lt i hi) room

theorem Window.fits (h : heap.Window v) : heap.Fits v := by
  obtain ⟨items, hc, haddresses⟩ := h.addresses
  exact ⟨items, hc, haddresses.lt⟩

theorem Window.volume_lt (h : heap.Window v) : Layout.volume v.extents < Word.count := by
  obtain ⟨-, held, room, sliced⟩ := h
  exact lt_of_le_of_lt (sliced.volume_le.trans room) held.lt_count

end Heap

namespace HeapM

open Heap

variable {heap : Heap} {dest : View} {source : Value} {xs : List Value}

end HeapM

end AbiBridge
