/-! # Decimal numerals

A numeral is what a number looks like on paper: a sign, the digits before and after the point, and
perhaps a power of ten. It keeps more than its value does: `1.0` and `1` are two numerals, so a
reader can tell an integer from a fraction that happens to be whole. The part before the point has
no leading zeros, so a natural number stands for it; the part after the point keeps every digit. -/

namespace AbiBridge

/-- One decimal digit. -/
abbrev Digit := Fin 10

namespace Digit

/-- The character of a digit. -/
def toChar (d : Digit) : Char := Nat.digitChar d

/-- The digit a character stands for. -/
def ofChar? (c : Char) : Option Digit :=
  if h : 48 ≤ c.toNat ∧ c.toNat < 58 then some ⟨c.toNat - 48, by omega⟩ else none

/-- The digits of a natural number, the leading one first. -/
def listOf (n : Nat) : List Digit := (Nat.toDigits 10 n).filterMap ofChar?

theorem ofChar?_toChar (d : Digit) : ofChar? d.toChar = some d := by
  revert d; decide

end Digit

/-- A decimal numeral: `-12.50e+3` is `⟨true, 12, [5, 0], some 3⟩`. -/
structure Numeral where
  negative : Bool
  whole : Nat
  fraction : List Digit
  exponent : Option Int
deriving DecidableEq, Repr, Inhabited

namespace Numeral

/-- The numeral of an integer. -/
def ofInt (n : Int) : Numeral := ⟨decide (n < 0), n.natAbs, [], none⟩

/-- The integer a numeral denotes when it has neither point nor exponent. A signed zero is no integer:
it denotes the negative zero of the floating-point numbers. -/
def toInt? (n : Numeral) : Option Int :=
  if n.fraction.isEmpty && n.exponent.isNone && !(n.negative && n.whole == 0) then
    some (if n.negative then -n.whole else n.whole)
  else none

theorem toInt?_ofInt (n : Int) : (ofInt n).toInt? = some n := by
  cases n with
  | ofNat k => rfl
  | negSucc k =>
    have hneg : Int.negSucc k < 0 := Int.negSucc_lt_zero k
    simp only [ofInt, toInt?, hneg, decide_true, Int.natAbs_negSucc]
    rfl

/-- An exponent is always written with its sign. -/
def exponentText (e : Int) : String :=
  (if e < 0 then "e-" else "e+") ++ Nat.repr e.natAbs

/-- The text of a numeral. -/
def text (n : Numeral) : String :=
  (if n.negative then "-" else "") ++ Nat.repr n.whole
    ++ (if n.fraction.isEmpty then "" else "." ++ String.ofList (n.fraction.map Digit.toChar))
    ++ (match n.exponent with
        | none => ""
        | some e => exponentText e)

end Numeral

end AbiBridge
