import AbiBridge.Decimal.Binary64
import AbiBridge.Decimal.Numeral

/-! # Reading a numeral as a floating-point number

The leading digits that fit an unsigned 64-bit significand are kept; later digits before the point only
raise the power of ten, and the first digit after the point that no longer fits ends the significand.
The significand is then scaled by one power of ten, so the result is the product or quotient of two
rounded numbers. A magnitude beyond the largest finite number cannot be read; one below the smallest
reads as zero. -/

namespace AbiBridge

/-- A significand below `2 ^ 64` and the power of ten that scales it. -/
structure Significand where
  value : Nat
  exponent : Int
deriving DecidableEq, Repr

namespace Significand

/-- Largest significand. -/
def bound : Nat := Nat.pow 2 64 - 1

/-- The significand with one more digit at its end, if it still fits. -/
def push? (s : Nat) (d : Digit) : Option Nat :=
  if s * 10 + d.val ≤ bound then some (s * 10 + d.val) else none

/-- Digits before the point: once one does not fit, it and all later ones only scale. -/
def ofWhole (s : Nat) : List Digit → Significand
  | [] => ⟨s, 0⟩
  | d :: ds =>
    match push? s d with
    | some s' => ofWhole s' ds
    | none => ⟨s, (d :: ds).length⟩

/-- Digits after the point: the first that does not fit ends the significand. -/
def pushFraction (s : Significand) : List Digit → Significand
  | [] => s
  | d :: ds =>
    match push? s.value d with
    | some v => pushFraction ⟨v, s.exponent - 1⟩ ds
    | none => s

/-- The power of ten nearest to `10 ^ n`, for `n ≤ 308`. -/
def powerOfTen (n : Nat) : Float := Float.ofScientific 1 false n

/-- Multiplies by `10 ^ e`; beyond the range of one power of ten a division goes in steps of
`10 ^ 308`, until nothing is left of the number or the rest is in range. -/
def scale (x : Float) (e : Int) : Option Float :=
  if 0 ≤ e then
    if e ≤ 308 then
      let y := x * powerOfTen e.toNat
      if y.isFinite then some y else none
    else if x == 0.0 then some x else none
  else if -308 ≤ e then some (x / powerOfTen (-e).toNat)
  else if x == 0.0 then some x
  else scale (x / powerOfTen 308) (e + 308)
termination_by (-e).toNat
decreasing_by omega

end Significand

namespace Numeral

/-- The digits before the point. -/
def wholeDigits (n : Numeral) : List Digit := Digit.listOf n.whole

/-- The digits of a numeral as a scaled significand. -/
def significand (n : Numeral) : Significand :=
  let s := (Significand.ofWhole 0 n.wholeDigits).pushFraction n.fraction
  ⟨s.value, s.exponent + n.exponent.getD 0⟩

/-- The floating-point number a numeral denotes, unless it is too large for one. -/
def toBinary64? (n : Numeral) : Option Binary64 :=
  let s := n.significand
  (Significand.scale (Float.ofNat s.value) s.exponent).map fun x =>
    .ofFloat (if n.negative then -x else x)

end Numeral

end AbiBridge
