import Mathlib
import AbiBridge.Decimal.Shortest
import AbiBridge.Proofs.NumeralText

/-!
# The numeral of a number determines its bits

`RoundsTo x c` is the interval that `Rounding.of` describes, over the rationals. The shortest decimal of a number
lies in its interval (`roundsTo_shortest`): the search stops at seventeen digits at the latest, for by then the
grid is finer than the interval (`ten_pow_lt_width`). The intervals of two magnitudes have no point in common
(`RoundsTo.unique`), and laying out the digits keeps sign and value. So no two numbers share a numeral
(`Binary64.numeral_inj`).
-/

namespace AbiBridge

namespace Binary64

variable {x y : Binary64}

/-! ### The fields of a number -/

theorem exponentField_eq (x : Binary64) : x.exponentField = x.bits.toNat / 2 ^ 52 % 2 ^ 11 := by
  have h : (0x7ff : Nat) = 2 ^ 11 - 1 := rfl
  simp only [exponentField, UInt64.toNat_and, UInt64.toNat_shiftRight, UInt64.reduceToNat, Nat.shiftRight_eq_div_pow,
    h, Nat.and_two_pow_sub_one_eq_mod]

theorem fractionField_eq (x : Binary64) : x.fractionField = x.bits.toNat % 2 ^ 52 := by
  have h : (0xfffffffffffff : Nat) = 2 ^ 52 - 1 := rfl
  simp only [fractionField, UInt64.toNat_and, UInt64.reduceToNat, h, Nat.and_two_pow_sub_one_eq_mod]

theorem negative_eq (x : Binary64) : x.negative = decide (x.bits.toNat / 2 ^ 63 = 1) := by
  simp only [negative, beq_eq_decide, ← UInt64.toNat_inj, UInt64.toNat_shiftRight, UInt64.reduceToNat,
    Nat.shiftRight_eq_div_pow]

theorem eq_of_fields (hs : x.negative = y.negative) (he : x.exponentField = y.exponentField)
    (hf : x.fractionField = y.fractionField) : x = y := by
  obtain ⟨a⟩ := x
  obtain ⟨b⟩ := y
  have ha : a.toNat < 2 ^ 64 := a.toNat_lt
  have hb : b.toNat < 2 ^ 64 := b.toNat_lt
  simp only [negative_eq, exponentField_eq, fractionField_eq, decide_eq_decide] at hs he hf
  congr 1
  apply UInt64.toNat_inj.1
  omega

theorem mantissa_lt (x : Binary64) : x.mantissa < 2 ^ 53 := by
  have h := fractionField_eq x
  rw [mantissa, Nat.pow_eq]
  split <;> omega

theorem le_scale (x : Binary64) : -1074 ≤ x.scale := by
  rw [scale]
  split <;> omega

theorem mantissa_lt_iff (x : Binary64) : x.mantissa < 2 ^ 52 ↔ x.exponentField = 0 := by
  have h := fractionField_eq x
  rw [mantissa, Nat.pow_eq]
  split <;> omega

theorem scale_of_mantissa_lt (h : x.mantissa < 2 ^ 52) : x.scale = -1074 := by
  rw [scale, if_pos ((mantissa_lt_iff x).1 h)]

theorem scale_of_le_mantissa (h : 2 ^ 52 ≤ x.mantissa) : x.scale = (x.exponentField : Int) - 1075 := by
  rw [scale, if_neg fun he => by have := (mantissa_lt_iff x).2 he; omega]

/-- A number is its sign, its mantissa and its scale. -/
theorem eq_of_magnitude (hs : x.negative = y.negative) (hm : x.mantissa = y.mantissa)
    (hq : x.scale = y.scale) : x = y := by
  have hx := mantissa_lt_iff x
  have hy := mantissa_lt_iff y
  have he : x.exponentField = y.exponentField := by
    simp only [scale] at hq
    split at hq <;> split at hq <;> omega
  refine eq_of_fields hs he ?_
  simp only [mantissa, he] at hm
  split at hm <;> omega

end Binary64

namespace Decimal

/-! ### Quotients -/

namespace Ratio

/-- The rational that a quotient stands for. -/
def val (v : Ratio) : ℚ := v.num / v.den

theorem le_iff {a b : Ratio} (ha : 0 < a.den) (hb : 0 < b.den) : a.le b = true ↔ a.val ≤ b.val := by
  rw [le, decide_eq_true_eq, val, val, div_le_div_iff₀ (by exact_mod_cast ha) (by exact_mod_cast hb)]
  exact_mod_cast Iff.rfl

theorem lt_iff {a b : Ratio} (ha : 0 < a.den) (hb : 0 < b.den) : a.lt b = true ↔ a.val < b.val := by
  rw [lt, decide_eq_true_eq, val, val, div_lt_div_iff₀ (by exact_mod_cast ha) (by exact_mod_cast hb)]
  exact_mod_cast Iff.rfl

theorem den_scaled_pos (m : Nat) (q : Int) : 0 < (scaled m q).den := by
  rw [scaled]
  split
  · exact Nat.one_pos
  · exact Nat.pow_pos (by decide)

theorem val_scaled (m : Nat) (q : Int) : (scaled m q).val = m * 2 ^ q := by
  rw [scaled]
  split
  · rename_i h
    obtain ⟨k, rfl⟩ := Int.eq_ofNat_of_zero_le h
    simp [val, Nat.pow_eq]
  · rename_i h
    obtain ⟨k, rfl⟩ : ∃ k : Nat, q = -k := ⟨(-q).toNat, by omega⟩
    simp [val, Nat.pow_eq, div_eq_mul_inv]

theorem den_overTen_pos {v : Ratio} (h : 0 < v.den) (e : Int) : 0 < (v.overTen e).den := by
  rw [overTen]
  split
  · exact Nat.mul_pos h (Nat.pow_pos (by decide))
  · exact h

theorem val_overTen (v : Ratio) (e : Int) : (v.overTen e).val = v.val / 10 ^ e := by
  rw [overTen]
  split
  · rename_i h
    obtain ⟨k, rfl⟩ := Int.eq_ofNat_of_zero_le h
    simp [val, Nat.pow_eq, div_div]
  · rename_i h
    obtain ⟨k, rfl⟩ : ∃ k : Nat, e = -k := ⟨(-e).toNat, by omega⟩
    simp [val, Nat.pow_eq, mul_div_right_comm]

theorem floor_le (v : Ratio) : ((v.num / v.den : Nat) : ℚ) ≤ v.val :=
  Nat.cast_div_le

theorem lt_floor_add_one {v : Ratio} (h : 0 < v.den) : v.val < ((v.num / v.den + 1 : Nat) : ℚ) := by
  rw [val, div_lt_iff₀ (by exact_mod_cast h)]
  exact_mod_cast Nat.lt_mul_of_div_lt (Nat.lt_succ_self _) h

end Ratio

/-- The rational that a decimal stands for. -/
def val (d : Decimal) : ℚ := d.coefficient * 10 ^ d.exponent

theorem val_point (n : Nat) (e : Int) : (Ratio.overTen ⟨n, 1⟩ (-e)).val = val ⟨n, e⟩ := by
  rw [Ratio.val_overTen, zpow_neg, div_inv_eq_mul]
  simp [Ratio.val, val]

theorem val_dropZeros (fuel : Nat) (d : Decimal) : (dropZeros fuel d).val = d.val := by
  fun_induction dropZeros fuel d with
  | case1 d => rfl
  | case2 fuel d h ih =>
    obtain ⟨c, hc⟩ := Nat.dvd_of_mod_eq_zero h.1
    rw [ih]
    simp only [val, hc, Nat.mul_div_cancel_left c (by decide : 0 < 10)]
    rw [zpow_add_one₀ (by norm_num)]
    push_cast
    ring
  | case3 fuel d h => rfl

/-! ### The reals that round to a number -/

/-- How far the lower end lies below a number, in quarters of its spacing. -/
def below (x : Binary64) : Nat := if x.mantissa = 2 ^ 52 ∧ x.exponentField ≠ 1 then 1 else 2

/-- The quarter of the spacing at a number. -/
def quarter (x : Binary64) : ℚ := 2 ^ (x.scale - 2)

theorem quarter_pos (x : Binary64) : 0 < quarter x := zpow_pos (by norm_num) _

/-- A real rounds to a number: it lies between the halfway points, and at one of them only if the mantissa is
even. -/
structure RoundsTo (x : Binary64) (c : ℚ) : Prop where
  low : (4 * x.mantissa - below x) * quarter x ≤ c
  high : c ≤ (4 * x.mantissa + 2) * quarter x
  inner : x.mantissa % 2 = 1 → (4 * x.mantissa - below x) * quarter x < c ∧ c < (4 * x.mantissa + 2) * quarter x

theorem below_le (x : Binary64) : 1 ≤ below x ∧ below x ≤ 2 := by
  rw [below]
  split <;> decide

theorem val_low {x : Binary64} (hm : x.mantissa ≠ 0) :
    (Rounding.of x).low.val = (4 * x.mantissa - below x) * quarter x := by
  have h : below x ≤ 4 * x.mantissa := by have := below_le x; omega
  show (Ratio.scaled (4 * x.mantissa - below x) (x.scale - 2)).val = _
  rw [Ratio.val_scaled, Nat.cast_sub h]
  push_cast
  rfl

theorem val_high (x : Binary64) : (Rounding.of x).high.val = (4 * x.mantissa + 2) * quarter x := by
  show (Ratio.scaled (4 * x.mantissa + 2) (x.scale - 2)).val = _
  rw [Ratio.val_scaled]
  push_cast
  rfl

theorem val_value (x : Binary64) : (Rounding.of x).value.val = 4 * x.mantissa * quarter x := by
  show (Ratio.scaled (4 * x.mantissa) (x.scale - 2)).val = _
  rw [Ratio.val_scaled]
  push_cast
  rfl

theorem contains_iff {x : Binary64} (hm : x.mantissa ≠ 0) {c : Ratio} (hc : 0 < c.den) :
    (Rounding.of x).contains c = true ↔ RoundsTo x c.val := by
  have hlow : 0 < (Rounding.of x).low.den := Ratio.den_scaled_pos _ _
  have hhigh : 0 < (Rounding.of x).high.den := Ratio.den_scaled_pos _ _
  have hclosed : (Rounding.of x).closed = decide (x.mantissa % 2 = 0) := rfl
  rw [Rounding.contains, hclosed]
  split
  · rename_i h
    have heven : x.mantissa % 2 = 0 := of_decide_eq_true h
    rw [Bool.and_eq_true, Ratio.le_iff hlow hc, Ratio.le_iff hc hhigh, val_low hm, val_high]
    exact ⟨fun h => ⟨h.1, h.2, fun ho => by omega⟩, fun h => ⟨h.low, h.high⟩⟩
  · rename_i h
    have hodd : x.mantissa % 2 = 1 := by
      have := of_decide_eq_false (Bool.eq_false_of_not_eq_true h)
      omega
    rw [Bool.and_eq_true, Ratio.lt_iff hlow hc, Ratio.lt_iff hc hhigh, val_low hm, val_high]
    exact ⟨fun h => ⟨h.1.le, h.2.le, fun _ => h⟩, fun h => h.inner hodd⟩

theorem low_lt_value (x : Binary64) : (4 * x.mantissa - below x) * quarter x < 4 * x.mantissa * quarter x := by
  have h : (1 : ℚ) ≤ below x := by exact_mod_cast (below_le x).1
  exact mul_lt_mul_of_pos_right (by linarith) (quarter_pos x)

theorem value_lt_high (x : Binary64) : 4 * x.mantissa * quarter x < (4 * x.mantissa + 2) * quarter x :=
  mul_lt_mul_of_pos_right (by linarith) (quarter_pos x)

theorem RoundsTo.pos {x : Binary64} {c : ℚ} (hm : x.mantissa ≠ 0) (h : RoundsTo x c) : 0 < c := by
  have h1 : (1 : ℚ) ≤ x.mantissa := by exact_mod_cast Nat.one_le_iff_ne_zero.2 hm
  have h2 : (below x : ℚ) ≤ 2 := by exact_mod_cast (below_le x).2
  have hlow : 0 < (4 * x.mantissa - below x) * quarter x := mul_pos (by linarith) (quarter_pos x)
  exact hlow.trans_le h.low

theorem two_mul_quarter_le {x y : Binary64} (h : x.scale < y.scale) : 2 * quarter x ≤ quarter y := by
  rw [quarter, quarter, mul_comm, ← zpow_add_one₀ (by norm_num)]
  exact zpow_le_zpow_right₀ (by norm_num) (by omega)

/-- Above the smallest scale all numbers are normal, and their intervals begin at `2 ^ 54 - 1` quarters or later. -/
theorem le_low_of_lt_scale {x : Binary64} (h : -1074 < x.scale) : (2 ^ 54 - 1 : ℚ) ≤ 4 * x.mantissa - below x := by
  have hnormal : 2 ^ 52 ≤ x.mantissa := by
    by_contra hlt
    have := Binary64.scale_of_mantissa_lt (Nat.lt_of_not_le hlt)
    omega
  have hscale := Binary64.scale_of_le_mantissa hnormal
  have hnat : 2 ^ 54 - 1 + below x ≤ 4 * x.mantissa := by
    rw [below]
    split
    · omega
    · rename_i hn
      have : x.mantissa ≠ 2 ^ 52 := fun he => hn ⟨he, by omega⟩
      omega
  have hcast : ((2 ^ 54 - 1 + below x : Nat) : ℚ) ≤ ((4 * x.mantissa : Nat) : ℚ) := Nat.cast_le.2 hnat
  push_cast at hcast
  linarith

/-- The last interval of a scale ends where the first one of the next scale begins. That point belongs to the
latter only, for the mantissa `2 ^ 53 - 1` is odd. -/
theorem RoundsTo.lt_of_scale {x : Binary64} {c : ℚ} (h : RoundsTo x c) : c < 2 * (2 ^ 54 - 1) * quarter x := by
  have hpos := quarter_pos x
  have hlt := Binary64.mantissa_lt x
  rcases Nat.lt_or_ge (x.mantissa + 1) (2 ^ 53) with hm | hm
  · have hcast : ((x.mantissa + 2 : Nat) : ℚ) ≤ ((2 ^ 53 : Nat) : ℚ) := Nat.cast_le.2 hm
    push_cast at hcast
    exact h.high.trans_lt (mul_lt_mul_of_pos_right (by linarith) hpos)
  · have hlast : x.mantissa = 2 ^ 53 - 1 := by omega
    have hstrict := (h.inner (by omega)).2
    rw [hlast] at hstrict
    push_cast at hstrict
    linarith

theorem RoundsTo.not_of_scale_lt {x y : Binary64} {c : ℚ} (hx : RoundsTo x c) (hq : x.scale < y.scale) :
    ¬ RoundsTo y c := by
  intro hy
  have hlow := le_low_of_lt_scale ((Binary64.le_scale x).trans_lt hq)
  have hfrom : 2 * (2 ^ 54 - 1) * quarter x ≤ c := by
    calc (2 * (2 ^ 54 - 1) * quarter x : ℚ) = (2 ^ 54 - 1) * (2 * quarter x) := by ring
      _ ≤ (2 ^ 54 - 1) * quarter y := mul_le_mul_of_nonneg_left (two_mul_quarter_le hq) (by norm_num)
      _ ≤ (4 * y.mantissa - below y) * quarter y := mul_le_mul_of_nonneg_right hlow (quarter_pos y).le
      _ ≤ c := hy.low
  exact absurd hx.lt_of_scale (not_lt.2 hfrom)

theorem RoundsTo.not_of_mantissa_lt {x y : Binary64} {c : ℚ} (hx : RoundsTo x c) (hq : x.scale = y.scale)
    (hm : x.mantissa < y.mantissa) : ¬ RoundsTo y c := by
  intro hy
  have hquarter : quarter y = quarter x := by rw [quarter, quarter, hq]
  have hpos := quarter_pos x
  have hgap : 4 * y.mantissa ≤ 4 * x.mantissa + 2 + below y := by
    have h : (4 * y.mantissa - below y : ℚ) ≤ 4 * x.mantissa + 2 :=
      le_of_mul_le_mul_right ((hquarter ▸ hy.low).trans hx.high) hpos
    have h' : ((4 * y.mantissa : Nat) : ℚ) ≤ ((4 * x.mantissa + 2 + below y : Nat) : ℚ) := by push_cast; linarith
    exact Nat.cast_le.1 h'
  have hbelow := below_le y
  -- neighbours share one end, and one of the two mantissas is odd
  have hnext : y.mantissa = x.mantissa + 1 := by omega
  have htwo : below y = 2 := by omega
  have hlow := hy.low
  have hhigh := hx.high
  rw [hquarter, htwo, hnext] at hlow
  push_cast at hlow
  have hend : c = (4 * x.mantissa + 2) * quarter x := le_antisymm hhigh (by linarith)
  rcases Nat.mod_two_eq_zero_or_one x.mantissa with h | h
  · have hstrict := (hy.inner (by omega)).1
    rw [hquarter, htwo, hnext] at hstrict
    push_cast at hstrict
    linarith
  · have hstrict := (hx.inner h).2
    linarith

/-- No real rounds to two magnitudes. -/
theorem RoundsTo.unique {x y : Binary64} {c : ℚ} (hx : RoundsTo x c) (hy : RoundsTo y c) :
    x.mantissa = y.mantissa ∧ x.scale = y.scale := by
  rcases lt_trichotomy x.scale y.scale with h | h | h
  · exact absurd hy (hx.not_of_scale_lt h)
  · rcases lt_trichotomy x.mantissa y.mantissa with h' | h' | h'
    · exact absurd hy (hx.not_of_mantissa_lt h h')
    · exact ⟨h', h⟩
    · exact absurd hx (hy.not_of_mantissa_lt h.symm h')
  · exact absurd hx (hy.not_of_scale_lt h)

/-! ### Seventeen digits suffice -/

theorem ten_pow_leadingExponent_le {v : Ratio} (hv : 0 < v.den) (h : v.den ≤ v.num * Nat.pow 10 324) :
    (10 : ℚ) ^ leadingExponent v ≤ v.val := by
  have he : leadingExponent v =
      ((Nat.toDigits 10 (v.num * Nat.pow 10 324 / v.den)).length : Int) - 1 - (324 : Nat) := by
    rw [leadingExponent]
    omega
  rw [he]
  generalize (324 : Nat) = b at h ⊢
  set n := v.num * Nat.pow 10 b / v.den
  obtain ⟨k, hk⟩ : ∃ k, (Nat.toDigits 10 n).length = k + 1 :=
    Nat.exists_eq_succ_of_ne_zero Nat.length_toDigits_pos.ne'
  have hle : 10 ^ k ≤ n := by
    rcases Nat.eq_zero_or_pos k with rfl | hk0
    · exact Nat.div_pos h hv
    · refine Nat.le_of_not_lt fun hlt => ?_
      have := (Nat.length_toDigits_le_iff (by decide) hk0).2 hlt
      omega
  have hmul : 10 ^ k * v.den ≤ v.num * Nat.pow 10 b :=
    (Nat.mul_le_mul_right v.den hle).trans (Nat.div_mul_le_self _ _)
  rw [hk, Nat.cast_succ, add_sub_cancel_right, zpow_sub₀ (by norm_num), Ratio.val,
    div_le_div_iff₀ (by positivity) (by exact_mod_cast hv)]
  exact_mod_cast hmul

theorem den_value_le {x : Binary64} (hm : x.mantissa ≠ 0) :
    (Rounding.of x).value.den ≤ (Rounding.of x).value.num * Nat.pow 10 324 := by
  have hvalue : (Rounding.of x).value = .scaled (4 * x.mantissa) (x.scale - 2) := rfl
  have hq : (-(x.scale - 2)).toNat ≤ 1076 := by have := Binary64.le_scale x; omega
  have hten : 2 ^ 1076 ≤ 4 * Nat.pow 10 324 := by decide +kernel
  generalize Nat.pow 10 324 = t, (1076 : Nat) = s at hq hten ⊢
  have ht : 0 < 4 * t := (Nat.pow_pos (by decide)).trans_le hten
  have hle : 4 * t ≤ 4 * x.mantissa * t := Nat.mul_le_mul_right t (by omega)
  rw [hvalue, Ratio.scaled]
  split
  · show 1 ≤ 4 * x.mantissa * 2 ^ (x.scale - 2).toNat * t
    rw [Nat.mul_right_comm]
    exact Nat.mul_pos (ht.trans_le hle) (Nat.pow_pos (by decide))
  · show 2 ^ (-(x.scale - 2)).toNat ≤ 4 * x.mantissa * t
    calc 2 ^ (-(x.scale - 2)).toNat ≤ 2 ^ s := Nat.pow_le_pow_right (by decide) hq
      _ ≤ 4 * t := hten
      _ ≤ 4 * x.mantissa * t := hle

/-- Either both neighbours of the value on a grid miss the interval, or one that lies in it is taken. -/
theorem onGrid_cases (tie : Tie) (r : Rounding) (e : Int) {n : Nat}
    (hn : n = (r.value.overTen e).num / (r.value.overTen e).den) :
    (onGrid tie r e = none ∧ r.contains (.overTen ⟨n, 1⟩ (-e)) = false ∧
        r.contains (.overTen ⟨n + 1, 1⟩ (-e)) = false) ∨
      ∃ k, onGrid tie r e = some ⟨k, e⟩ ∧ r.contains (.overTen ⟨k, 1⟩ (-e)) = true := by
  simp only [onGrid, ← hn]
  split
  · rename_i h1 h2
    exact .inl ⟨rfl, h1, h2⟩
  · rename_i h1 h2
    exact .inr ⟨n, rfl, h1⟩
  · rename_i h1 h2
    exact .inr ⟨n + 1, rfl, h2⟩
  · rename_i h1 h2
    refine .inr ?_
    split_ifs
    · exact ⟨n, rfl, h1⟩
    · exact ⟨n + 1, rfl, h2⟩
    · cases tie
      · exact ⟨n, rfl, h1⟩
      · exact ⟨n + 1, rfl, h2⟩
    · cases tie <;> exact ⟨n + 1, rfl, h2⟩

theorem contains_point_iff {x : Binary64} (hm : x.mantissa ≠ 0) (n : Nat) (e : Int) :
    (Rounding.of x).contains (.overTen ⟨n, 1⟩ (-e)) = true ↔ RoundsTo x (val ⟨n, e⟩) := by
  rw [← val_point]
  exact contains_iff hm (Ratio.den_overTen_pos Nat.one_pos _)

/-- A decimal that is found on a grid rounds to the number. -/
theorem roundsTo_of_onGrid {tie : Tie} {x : Binary64} (hm : x.mantissa ≠ 0) {e : Int} {d : Decimal}
    (h : onGrid tie (Rounding.of x) e = some d) : RoundsTo x d.val := by
  rcases onGrid_cases tie (Rounding.of x) e rfl with ⟨hnone, -⟩ | ⟨k, hk, hin⟩
  · rw [hnone] at h
    cases h
  · obtain rfl : ⟨k, e⟩ = d := Option.some.inj (hk.symm.trans h)
    exact (contains_point_iff hm k e).1 hin

/-- A grid finer than the interval has a point in it. -/
theorem onGrid_ne_none {tie : Tie} {x : Binary64} (hm : x.mantissa ≠ 0) {e : Int}
    (hfine : (10 : ℚ) ^ e < (2 + below x) * quarter x) : onGrid tie (Rounding.of x) e ≠ none := by
  intro h
  set v := (Rounding.of x).value.overTen e with hv
  have hden : 0 < v.den := Ratio.den_overTen_pos (Ratio.den_scaled_pos _ _) e
  have hten : (0 : ℚ) < 10 ^ e := zpow_pos (by norm_num) e
  have hval : v.val * 10 ^ e = 4 * x.mantissa * quarter x := by
    rw [hv, Ratio.val_overTen, val_value, div_mul_cancel₀ _ hten.ne']
  have hfloor : val ⟨v.num / v.den, e⟩ ≤ 4 * x.mantissa * quarter x := by
    rw [← hval]
    exact mul_le_mul_of_nonneg_right (Ratio.floor_le v) hten.le
  have hceil : 4 * x.mantissa * quarter x < val ⟨v.num / v.den + 1, e⟩ := by
    rw [← hval]
    exact mul_lt_mul_of_pos_right (Ratio.lt_floor_add_one hden) hten
  have hnext : val ⟨v.num / v.den + 1, e⟩ = val ⟨v.num / v.den, e⟩ + 10 ^ e := by
    simp only [val]
    push_cast
    ring
  rcases onGrid_cases tie (Rounding.of x) e rfl with ⟨-, hout, hout'⟩ | ⟨k, hk, -⟩
  · have hlow := low_lt_value x
    have hhigh := value_lt_high x
    -- the lower neighbour misses the interval from below and the upper one from above
    have hl : val ⟨v.num / v.den, e⟩ ≤ (4 * x.mantissa - below x) * quarter x := by
      by_contra hc
      push Not at hc
      have hin : RoundsTo x (val ⟨v.num / v.den, e⟩) := ⟨hc.le, by linarith, fun _ => ⟨hc, by linarith⟩⟩
      exact Bool.false_ne_true (hout.symm.trans ((contains_point_iff hm _ e).2 hin))
    have hh : (4 * x.mantissa + 2) * quarter x ≤ val ⟨v.num / v.den + 1, e⟩ := by
      by_contra hc
      push Not at hc
      have hin : RoundsTo x (val ⟨v.num / v.den + 1, e⟩) := ⟨by linarith, hc.le, fun _ => ⟨by linarith, hc⟩⟩
      exact Bool.false_ne_true (hout'.symm.trans ((contains_point_iff hm _ e).2 hin))
    linarith
  · rw [hk] at h
    cases h

theorem ten_pow_lt_width {x : Binary64} (hm : x.mantissa ≠ 0) :
    (10 : ℚ) ^ (leadingExponent (Rounding.of x).value - 16) < (2 + below x) * quarter x := by
  have hden : 0 < (Rounding.of x).value.den := Ratio.den_scaled_pos _ _
  have hlead := ten_pow_leadingExponent_le hden (den_value_le hm)
  rw [val_value] at hlead
  have hpos := quarter_pos x
  have hwide : (4 * x.mantissa : ℚ) < (2 + below x) * 10 ^ 16 := by
    have h : 4 * x.mantissa < (2 + below x) * 10 ^ 16 := by
      have := Binary64.mantissa_lt x
      rw [below]
      split <;> omega
    exact_mod_cast h
  rw [zpow_sub₀ (by norm_num), div_lt_iff₀ (by norm_num)]
  calc (10 : ℚ) ^ leadingExponent (Rounding.of x).value ≤ 4 * x.mantissa * quarter x := hlead
    _ < (2 + below x) * 10 ^ 16 * quarter x := mul_lt_mul_of_pos_right hwide hpos
    _ = (2 + below x) * quarter x * 10 ^ (16 : Int) := by norm_num; ring

/-- The shortest decimal of a number rounds to it. -/
theorem roundsTo_shortest (tie : Tie) {x : Binary64} (hm : x.mantissa ≠ 0) : RoundsTo x (shortest tie x).val := by
  have hlast : (onGrid tie (Rounding.of x) (leadingExponent (Rounding.of x).value - (16 : Nat))).isSome :=
    Option.isSome_iff_ne_none.2 (onGrid_ne_none hm (ten_pow_lt_width hm))
  have hfound : ((List.range 17).findSome? fun (k : Nat) =>
      onGrid tie (Rounding.of x) (leadingExponent (Rounding.of x).value - k)).isSome :=
    List.findSome?_isSome_iff.2 ⟨16, by decide, hlast⟩
  obtain ⟨d, hd⟩ := Option.isSome_iff_exists.1 hfound
  obtain ⟨k, -, hk⟩ := List.exists_of_findSome?_eq_some hd
  have he : shortest tie x = dropZeros 1 d := by
    rw [shortest, if_neg hm]
    show dropZeros 1 (Option.getD _ _) = _
    rw [hd]
    rfl
  rw [he, val_dropZeros]
  exact roundsTo_of_onGrid hm hk

theorem val_shortest_of_mantissa_eq_zero (tie : Tie) {x : Binary64} (hm : x.mantissa = 0) :
    (shortest tie x).val = 0 := by
  rw [shortest, if_pos hm]
  simp [val]

/-- Numbers with the same shortest decimal have the same magnitude. -/
theorem magnitude_eq_of_val_shortest {tie : Tie} {x y : Binary64} (h : (shortest tie x).val = (shortest tie y).val) :
    x.mantissa = y.mantissa ∧ x.scale = y.scale := by
  have hzero : ∀ {x y : Binary64}, (shortest tie x).val = (shortest tie y).val → x.mantissa = 0 → y.mantissa = 0 := by
    intro x y h hx
    by_contra hy
    have hpos := (roundsTo_shortest tie hy).pos hy
    rw [← h, val_shortest_of_mantissa_eq_zero tie hx] at hpos
    exact lt_irrefl 0 hpos
  by_cases hx : x.mantissa = 0
  · have hy := hzero h hx
    rw [Binary64.scale_of_mantissa_lt (by omega), Binary64.scale_of_mantissa_lt (x := y) (by omega)]
    exact ⟨hx.trans hy.symm, rfl⟩
  · have hy : y.mantissa ≠ 0 := fun hy => hx (hzero h.symm hy)
    exact (roundsTo_shortest tie hx).unique (h ▸ roundsTo_shortest tie hy)

end Decimal

/-! ### Laying out the digits keeps the value -/

namespace Numeral

open Json

theorem natOfDigits_append (a b : List Digit) :
    natOfDigits (a ++ b) = natOfDigits a * 10 ^ b.length + natOfDigits b := by
  induction b using List.reverseRecOn with
  | nil => simp [natOfDigits]
  | append_singleton b d ih =>
    rw [← List.append_assoc, natOfDigits_append_singleton, ih, natOfDigits_append_singleton, List.length_append,
      List.length_singleton, Nat.pow_succ]
    ring

/-- The rational that a numeral stands for, without its sign. -/
def magnitude (n : Numeral) : ℚ :=
  (n.whole * 10 ^ n.fraction.length + natOfDigits n.fraction : Nat) * 10 ^ (n.exponent.getD 0 - n.fraction.length)

theorem magnitude_split (negative : Bool) (ds : List Digit) (k : Nat) (e : Option Int) :
    magnitude ⟨negative, natOfDigits (ds.take k), ds.drop k, e⟩ =
      natOfDigits ds * 10 ^ (e.getD 0 - (ds.drop k).length) := by
  rw [magnitude, ← natOfDigits_append, List.take_append_drop]

theorem magnitude_zeros (negative : Bool) (k : Nat) (ds : List Digit) :
    magnitude ⟨negative, 0, List.replicate k 0 ++ ds, none⟩ = natOfDigits ds * 10 ^ (-((k : Int) + ds.length)) := by
  have hzeros : natOfDigits (List.replicate k 0) = 0 := by
    induction k with
    | zero => rfl
    | succ k ih => rw [List.replicate_succ', natOfDigits_append_singleton, ih]; rfl
  rw [magnitude, natOfDigits_append, hzeros, Option.getD_none, List.length_append, List.length_replicate]
  simp

theorem magnitude_layout (style : Style) (negative : Bool) (d : Decimal) :
    (layout style negative d).magnitude = d.val := by
  have hds : natOfDigits d.digits = d.coefficient := natOfDigits_listOf d.coefficient
  have hne : d.digits.length ≠ 0 := by
    rw [Ne, List.length_eq_zero_iff]
    exact Digit.listOf_ne_nil d.coefficient
  rw [layout, Decimal.val]
  dsimp only
  split_ifs with hp he hpoint hl
  · obtain ⟨k, hk⟩ := Int.eq_ofNat_of_zero_le he
    simp [magnitude, natOfDigits, hk, Nat.pow_eq]
  · obtain ⟨k, hk⟩ := Int.eq_ofNat_of_zero_le he
    simp [magnitude, natOfDigits, hk, Nat.pow_eq]
  · refine (magnitude_split negative d.digits _ none).trans ?_
    rw [hds, List.length_drop, Option.getD_none]
    congr 2
    omega
  · refine (magnitude_zeros negative _ d.digits).trans ?_
    rw [hds]
    congr 2
    omega
  · refine (magnitude_split negative d.digits 1 (some _)).trans ?_
    rw [hds, List.length_drop, Option.getD_some]
    congr 2
    omega

theorem negative_layout (style : Style) (negative : Bool) (d : Decimal) :
    (layout style negative d).negative = negative := by
  rw [layout]
  dsimp only
  split_ifs <;> rfl

end Numeral

theorem Binary64.numeral_inj {style : Numeral.Style} {x y : Binary64} (h : x.numeral style = y.numeral style) :
    x = y := by
  have hsign : x.negative = y.negative := by
    have := congrArg Numeral.negative h
    rwa [numeral, numeral, Numeral.negative_layout, Numeral.negative_layout] at this
  have hval : (Decimal.shortest style.tie x).val = (Decimal.shortest style.tie y).val := by
    have := congrArg Numeral.magnitude h
    rwa [numeral, numeral, Numeral.magnitude_layout, Numeral.magnitude_layout] at this
  obtain ⟨hm, hq⟩ := Decimal.magnitude_eq_of_val_shortest hval
  exact eq_of_magnitude hsign hm hq

end AbiBridge
