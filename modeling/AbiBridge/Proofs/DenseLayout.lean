import Mathlib
import AbiBridge.Storage.Layout

/-!
# Positions in dense layouts

A dense layout puts the elements of an array at different positions, all of them below its size
(`position_lt`, `position_inj`), as long as a word can count them. Two layouts that describe one buffer in two
storage orders agree on every element (`position_reorder`). The column-major case is the row-major one with every
list read back to front, so both facts are proved by induction on the extents in row-major order only, and for
numbers: a position is what is left in a word of the sum of products with the distances (`position_eq`).
-/

namespace AbiBridge

namespace StorageOrder

variable {α β γ : Type} (a b : StorageOrder)

theorem reorder_comm (dims : List α) : a.reorder b dims = b.reorder a dims := by
  rw [reorder, reorder, crosses_comm]

theorem reorder_nil : a.reorder b ([] : List α) = [] := by
  unfold reorder
  split <;> rfl

theorem reorder_singleton (x : α) : a.reorder b [x] = [x] := by
  unfold reorder
  split <;> rfl

/-- What holds of a list and its reverse holds of its reordering. -/
theorem reorder_cases {P : List α → Prop} {dims : List α} (h : P dims) (hr : P dims.reverse) :
    P (a.reorder b dims) := by
  unfold reorder
  split
  · exact hr
  · exact h

theorem zipWith_reorder (f : α → β → γ) {l : List α} {l' : List β} (h : l.length = l'.length) :
    List.zipWith f (a.reorder b l) (a.reorder b l') = a.reorder b (List.zipWith f l l') := by
  unfold reorder
  split
  · exact (List.reverse_zipWith h).symm
  · rfl

theorem mem_reorder {x : α} {dims : List α} : x ∈ a.reorder b dims ↔ x ∈ dims := by
  unfold reorder
  split <;> simp

theorem forall₂_reorder {R : α → β → Prop} {l : List α} {l' : List β} :
    List.Forall₂ R (a.reorder b l) (a.reorder b l') ↔ List.Forall₂ R l l' := by
  unfold reorder
  split
  · exact List.forall₂_reverse_iff
  · exact Iff.rfl

end StorageOrder

namespace Layout

open StorageOrder

@[simp] theorem volume_nil : volume [] = 1 := rfl

@[simp] theorem volume_cons (e : Nat) (es : List Nat) : volume (e :: es) = e * volume es := rfl

theorem volume_singleton (n : Nat) : volume [n] = n := Nat.mul_one n

theorem volume_reverse (es : List Nat) : volume es.reverse = volume es := List.prod_reverse es

@[simp] theorem volume_reorder (a b : StorageOrder) (es : List Nat) : volume (a.reorder b es) = volume es :=
  reorder_cases a b (P := fun l => volume l = volume es) rfl (volume_reverse es)

/-! ### Sums of products -/

@[simp] theorem dot_cons (i s : Nat) (is ss : List Nat) : dot (i :: is) (s :: ss) = i * s + dot is ss := rfl

theorem dot_append {is ss : List Nat} (h : is.length = ss.length) (js us : List Nat) :
    dot (is ++ js) (ss ++ us) = dot is ss + dot js us := by
  induction is generalizing ss with
  | nil =>
    obtain rfl := List.length_eq_zero_iff.1 h.symm
    simp [dot]
  | cons i is ih =>
    obtain _ | ⟨s, ss⟩ := ss
    · cases h
    · simp only [List.cons_append, dot_cons, ih (by simpa using h)]
      omega

theorem dot_reverse {is ss : List Nat} (h : is.length = ss.length) :
    dot is.reverse ss.reverse = dot is ss := by
  induction is generalizing ss with
  | nil =>
    obtain rfl := List.length_eq_zero_iff.1 h.symm
    rfl
  | cons i is ih =>
    obtain _ | ⟨s, ss⟩ := ss
    · cases h
    · have hl : is.length = ss.length := by simpa using h
      rw [List.reverse_cons, List.reverse_cons, dot_append (by simpa using hl), ih hl]
      simp only [dot]
      omega

theorem dot_reorder (a b : StorageOrder) {is ss : List Nat} (h : is.length = ss.length) :
    dot (a.reorder b is) (a.reorder b ss) = dot is ss := by
  unfold reorder
  split
  · exact dot_reverse h
  · rfl

theorem inBounds_iff {es is : List Nat} : inBounds es is = true ↔ List.Forall₂ (· < ·) is es := by
  induction es generalizing is with
  | nil => cases is <;> simp [inBounds]
  | cons e es ih => cases is <;> simp [inBounds, ih]

theorem inBounds_length {es is : List Nat} (h : inBounds es is = true) : is.length = es.length :=
  (inBounds_iff.1 h).length_eq

@[simp] theorem inBounds_reorder (a b : StorageOrder) (es is : List Nat) :
    inBounds (a.reorder b es) (a.reorder b is) = inBounds es is := by
  rw [Bool.eq_iff_iff, inBounds_iff, inBounds_iff, forall₂_reorder]

@[simp] theorem length_rowSpans (es : List Nat) : (rowSpans es).length = es.length := by
  induction es with
  | nil => rfl
  | cons e es ih => simp [rowSpans, ih]

theorem rowSpans_append_singleton (es : List Nat) (e : Nat) :
    rowSpans (es ++ [e]) = (rowSpans es).map (· * e) ++ [1] := by
  induction es with
  | nil => rfl
  | cons d es ih =>
    have hsize : volume (es ++ [e]) = volume es * e := by
      show (es ++ [e]).prod = es.prod * e
      rw [List.prod_append, List.prod_singleton]
    rw [List.cons_append, rowSpans, ih, hsize, rowSpans, List.map_cons, List.cons_append]

/-- Distances that accumulate from the front are, back to front, those of the reversed extents. -/
theorem columnSpans_eq (step : Nat) (es : List Nat) :
    columnSpans step es = ((rowSpans es.reverse).map (step * ·)).reverse := by
  induction es generalizing step with
  | nil => rfl
  | cons e es ih =>
    rw [columnSpans, ih, List.reverse_cons, rowSpans_append_singleton]
    simp [Nat.mul_assoc, Nat.mul_comm e]

theorem spans_eq (o : StorageOrder) (es : List Nat) :
    spans o es = reorder .rowMajor o (rowSpans (o.reorder .rowMajor es)) := by
  cases o with
  | rowMajor => rfl
  | columnMajor => simp [spans, columnSpans_eq, reorder, crosses]

@[simp] theorem length_spans (o : StorageOrder) (es : List Nat) :
    (spans o es).length = es.length := by
  rw [spans_eq, length_reorder, length_rowSpans, length_reorder]

theorem spans_reorder (a b : StorageOrder) (es : List Nat) :
    spans b (a.reorder b es) = a.reorder b (spans a es) := by
  cases a <;> cases b <;> simp [spans, columnSpans_eq, reorder, crosses]

/-- The position of an index in any order is that of the reordered index in row-major order. -/
theorem dot_spans_eq (o : StorageOrder) {es is : List Nat} (h : is.length = es.length) :
    dot is (spans o es) = dot (o.reorder .rowMajor is) (rowSpans (o.reorder .rowMajor es)) := by
  have hd : dot (o.reorder .rowMajor is) (o.reorder .rowMajor (spans o es)) = dot is (spans o es) :=
    dot_reorder o .rowMajor (by simpa using h)
  rw [← hd, spans_eq, reorder_reorder]

theorem dot_rowSpans_lt {es is : List Nat} (h : inBounds es is = true) :
    dot is (rowSpans es) < volume es := by
  induction es generalizing is with
  | nil => simp [rowSpans, dot]
  | cons e es ih =>
    obtain _ | ⟨i, is⟩ := is
    · cases h
    simp only [inBounds, Bool.and_eq_true, decide_eq_true_eq] at h
    have hrest := ih h.2
    calc i * volume es + dot is (rowSpans es)
        < i * volume es + volume es := by omega
      _ = (i + 1) * volume es := by ring
      _ ≤ e * volume es := Nat.mul_le_mul_right _ h.1

theorem dot_rowSpans_inj {es is js : List Nat} (hi : inBounds es is = true) (hj : inBounds es js = true)
    (h : dot is (rowSpans es) = dot js (rowSpans es)) : is = js := by
  induction es generalizing is js with
  | nil =>
    rw [List.length_eq_zero_iff.1 (inBounds_length hi), List.length_eq_zero_iff.1 (inBounds_length hj)]
  | cons e es ih =>
    obtain _ | ⟨i, is⟩ := is
    · cases hi
    obtain _ | ⟨j, js⟩ := js
    · cases hj
    simp only [inBounds, Bool.and_eq_true, decide_eq_true_eq] at hi hj
    -- quotient and remainder of the position by the volume of the rest
    have hri := dot_rowSpans_lt hi.2
    have hrj := dot_rowSpans_lt hj.2
    simp only [rowSpans, dot_cons] at h
    have hq : i = j := by
      have := congrArg (· / volume es) h
      simpa only [Nat.add_comm (_ * _), Nat.add_mul_div_right _ _ (Nat.zero_lt_of_lt hri),
        Nat.div_eq_of_lt hri, Nat.div_eq_of_lt hrj, Nat.zero_add] using this
    subst hq
    rw [ih hi.2 hj.2 (Nat.add_left_cancel h)]

theorem dot_spans_lt (o : StorageOrder) {es is : List Nat} (h : inBounds es is = true) :
    dot is (spans o es) < volume es := by
  rw [dot_spans_eq o (inBounds_length h), ← volume_reorder o .rowMajor]
  exact dot_rowSpans_lt (by rw [inBounds_reorder]; exact h)

theorem dot_spans_inj (o : StorageOrder) {es is js : List Nat} (hi : inBounds es is = true)
    (hj : inBounds es js = true) (h : dot is (spans o es) = dot js (spans o es)) : is = js := by
  rw [dot_spans_eq o (inBounds_length hi), dot_spans_eq o (inBounds_length hj)] at h
  have := dot_rowSpans_inj (by rw [inBounds_reorder]; exact hi) (by rw [inBounds_reorder]; exact hj) h
  rw [← reorder_reorder o .rowMajor is, this, reorder_reorder]

/-! ### Words -/

@[simp] theorem size_nil : size [] = 1 := rfl

theorem size_singleton {n : Nat} (h : n < Word.count) : size [n] = n := by
  rw [size, volume_singleton, Word.wrap_of_lt h]

theorem size_of_lt {es : List Nat} (h : volume es < Word.count) : size es = volume es := Word.wrap_of_lt h

@[simp] theorem size_reorder (a b : StorageOrder) (es : List Nat) : size (a.reorder b es) = size es :=
  congrArg Word.wrap (volume_reorder a b es)

@[simp] theorem length_stridesOf (o : StorageOrder) (es : List Nat) : (stridesOf o es).length = es.length := by
  rw [stridesOf, List.length_map, length_spans]

theorem wrap_dot_map (is ss : List Nat) : Word.wrap (dot is (ss.map Word.wrap)) = Word.wrap (dot is ss) := by
  induction is generalizing ss with
  | nil => rfl
  | cons i is ih =>
    obtain _ | ⟨s, ss⟩ := ss
    · rfl
    · rw [List.map_cons, dot_cons, dot_cons, ← Word.wrap_add_wrap, ih, Word.wrap_add_wrap, ← Word.wrap_wrap_add,
        Word.wrap_mul_wrap, Word.wrap_wrap_add]

/-- Strides count in a position only as far as they are words. -/
theorem wrap_dot_congr {ss ts : List Nat} (h : ss.map Word.wrap = ts.map Word.wrap) (is : List Nat) :
    Word.wrap (dot is ss) = Word.wrap (dot is ts) := by
  rw [← wrap_dot_map is ss, h, wrap_dot_map]

/-! ### Positions -/

variable {o : StorageOrder} {es is js : List Nat}

theorem position_eq (o : StorageOrder) (es is : List Nat) :
    (mk es o).position is = Word.wrap (dot is (spans o es)) :=
  wrap_dot_map is (spans o es)

theorem position_of_inBounds (hw : volume es < Word.count) (h : inBounds es is = true) :
    (mk es o).position is = dot is (spans o es) := by
  rw [position_eq, Word.wrap_of_lt (lt_trans (dot_spans_lt o h) hw)]

theorem position_lt (hw : volume es < Word.count) (h : inBounds es is = true) : (mk es o).position is < volume es := by
  rw [position_of_inBounds hw h]
  exact dot_spans_lt o h

theorem position_inj (hw : volume es < Word.count) (hi : inBounds es is = true) (hj : inBounds es js = true)
    (h : (mk es o).position is = (mk es o).position js) : is = js := by
  rw [position_of_inBounds hw hi, position_of_inBounds hw hj] at h
  exact dot_spans_inj o hi hj h

/-- A buffer described in two storage orders has each element in one place. -/
theorem position_reorder (a b : StorageOrder) (h : is.length = es.length) :
    (mk (a.reorder b es) b).position (a.reorder b is) = (mk es a).position is := by
  rw [position_eq, position_eq, spans_reorder, dot_reorder a b (by simpa using h)]

end Layout

end AbiBridge
