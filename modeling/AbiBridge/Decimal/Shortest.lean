import AbiBridge.Decimal.Binary64
import AbiBridge.Decimal.Numeral

/-! # The shortest decimal of a floating-point number

Every finite number owns the interval of reals that round to it. Among the decimals in that interval
`shortest` takes one with the fewest digits, and of those the nearest. On the grid of `k`-digit
decimals only the two neighbours of the value need a test: if any point of the grid lies in the
interval, one of the two does. A `Style` then says how the digits are laid out. -/

namespace AbiBridge

/-- The value `coefficient · 10 ^ exponent`. -/
structure Decimal where
  coefficient : Nat
  exponent : Int
deriving DecidableEq, Repr

namespace Decimal

/-- The digits of the coefficient, most significant first. -/
def digits (d : Decimal) : List Digit := Digit.listOf d.coefficient

/-- Moves the trailing zeros of the coefficient into the exponent, `fuel` of them at most. -/
def dropZeros : Nat → Decimal → Decimal
  | 0, d => d
  | fuel + 1, d =>
    if d.coefficient % 10 = 0 ∧ d.coefficient ≠ 0 then
      dropZeros fuel ⟨d.coefficient / 10, d.exponent + 1⟩
    else d

/-- Which of two equally near decimals is taken. -/
inductive Tie where
  | even
  | up
deriving DecidableEq, Repr

/-- A positive rational, as a quotient of naturals. -/
structure Ratio where
  num : Nat
  den : Nat
deriving Repr

/-- The quotient `m · 2 ^ q`. -/
def Ratio.scaled (m : Nat) (q : Int) : Ratio :=
  if 0 ≤ q then ⟨m * Nat.pow 2 q.toNat, 1⟩ else ⟨m, Nat.pow 2 (-q).toNat⟩

/-- `v / 10 ^ e`. -/
def Ratio.overTen (v : Ratio) (e : Int) : Ratio :=
  if 0 ≤ e then ⟨v.num, v.den * Nat.pow 10 e.toNat⟩ else ⟨v.num * Nat.pow 10 (-e).toNat, v.den⟩

def Ratio.le (a b : Ratio) : Bool := a.num * b.den ≤ b.num * a.den
def Ratio.lt (a b : Ratio) : Bool := a.num * b.den < b.num * a.den

/-- The interval of reals that round to a number; its ends belong to it iff the mantissa is even. -/
structure Rounding where
  value : Ratio
  low : Ratio
  high : Ratio
  closed : Bool

/-- The reals that round to a positive finite number. Below a power of two the spacing halves, so the
lower end is nearer there. -/
def Rounding.of (x : Binary64) : Rounding :=
  let m := x.mantissa
  let q := x.scale - 2
  let down := if m = Nat.pow 2 52 ∧ x.exponentField ≠ 1 then 1 else 2
  ⟨.scaled (4 * m) q, .scaled (4 * m - down) q, .scaled (4 * m + 2) q, m % 2 = 0⟩

def Rounding.contains (r : Rounding) (c : Ratio) : Bool :=
  if r.closed then r.low.le c && c.le r.high else r.low.lt c && c.lt r.high

/-- The exponent of the leading digit. The smallest positive number exceeds `10 ^ -324`. -/
def leadingExponent (v : Ratio) : Int :=
  ((Nat.toDigits 10 (v.num * Nat.pow 10 324 / v.den)).length : Int) - 325

/-- The best decimal on the grid of spacing `10 ^ e`, if one rounds to the number. -/
def onGrid (tie : Tie) (r : Rounding) (e : Int) : Option Decimal :=
  let scaled := r.value.overTen e
  let d := scaled.num / scaled.den
  let twiceRest := 2 * (scaled.num % scaled.den)
  let point (n : Nat) : Ratio := Ratio.overTen ⟨n, 1⟩ (-e)
  match r.contains (point d), r.contains (point (d + 1)) with
  | false, false => none
  | true, false => some ⟨d, e⟩
  | false, true => some ⟨d + 1, e⟩
  | true, true =>
    if twiceRest < scaled.den then some ⟨d, e⟩
    else if scaled.den < twiceRest then some ⟨d + 1, e⟩
    else match tie with
      | .up => some ⟨d + 1, e⟩
      | .even => if d % 2 = 0 then some ⟨d, e⟩ else some ⟨d + 1, e⟩

/-- The shortest decimal that rounds to the magnitude of a finite number. Seventeen digits always
suffice. -/
def shortest (tie : Tie) (x : Binary64) : Decimal :=
  if x.mantissa = 0 then ⟨0, 0⟩
  else
    let r := Rounding.of x
    let p := leadingExponent r.value
    let found := (List.range 17).findSome? fun (k : Nat) => onGrid tie r (p - k)
    dropZeros 1 (found.getD ⟨0, 0⟩)

end Decimal

namespace Numeral

/-- How a number's digits are laid out: the exponents of the leading digit that are written without a
power of ten, whether a whole number keeps its point, and the choice between equally near decimals. -/
structure Style where
  positional : Int → Bool
  keepPoint : Bool
  tie : Decimal.Tie

/-- Lays out the digits of a decimal. -/
def layout (style : Style) (negative : Bool) (d : Decimal) : Numeral :=
  let ds := d.digits
  let lead := d.exponent + (ds.length : Int) - 1
  let value (l : List Digit) : Nat := l.foldl (fun n x => 10 * n + x.val) 0
  if style.positional lead then
    if 0 ≤ d.exponent then
      ⟨negative, d.coefficient * Nat.pow 10 d.exponent.toNat, if style.keepPoint then [0] else [], none⟩
    else if 0 ≤ lead then
      ⟨negative, value (ds.take (lead.toNat + 1)), ds.drop (lead.toNat + 1), none⟩
    else
      ⟨negative, 0, List.replicate ((-lead).toNat - 1) 0 ++ ds, none⟩
  else
    ⟨negative, value (ds.take 1), ds.drop 1, some lead⟩

end Numeral

/-- The numeral of a finite number. -/
def Binary64.numeral (style : Numeral.Style) (x : Binary64) : Numeral :=
  .layout style x.negative (Decimal.shortest style.tie x)

end AbiBridge
