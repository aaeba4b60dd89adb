import Mathlib
import AbiBridge.Json.Reader

/-!
# A numeral is read back from its text

The reader takes a numeral apart in the order in which it is written: the sign, the whole part, the digits after
the point, the power of ten. Each part is read back as long as what follows does not continue it
(`NoDigit`, `EndsNumeral`), so the numeral is read back in front of any such rest (`numeral?_append`).
-/

namespace AbiBridge

namespace Digit

theorem toChar_ne {d : Digit} {c : Char} (h : ofChar? c = none) : d.toChar ≠ c := by
  rintro rfl
  rw [ofChar?_toChar] at h
  cases h

theorem listOf_of_lt {n : Nat} (h : n < 10) : listOf n = [⟨n, h⟩] := by
  have hc : ofChar? (Nat.digitChar n) = some ⟨n, h⟩ := ofChar?_toChar ⟨n, h⟩
  rw [listOf, Nat.toDigits_of_lt_base h, List.filterMap_cons_some hc, List.filterMap_nil]

theorem listOf_of_ge {n : Nat} (h : 10 ≤ n) :
    listOf n = listOf (n / 10) ++ [⟨n % 10, Nat.mod_lt n (by decide)⟩] := by
  have hc : ofChar? (Nat.digitChar (n % 10)) = some ⟨n % 10, Nat.mod_lt n (by decide)⟩ :=
    ofChar?_toChar ⟨n % 10, Nat.mod_lt n (by decide)⟩
  rw [listOf, Nat.toDigits_of_base_le (by decide) h, List.filterMap_append, List.filterMap_cons_some hc,
    List.filterMap_nil, listOf]

theorem listOf_ne_nil (n : Nat) : listOf n ≠ [] := by
  rcases Nat.lt_or_ge n 10 with h | h
  · simp [listOf_of_lt h]
  · simp [listOf_of_ge h]

theorem map_toChar_listOf (n : Nat) : (listOf n).map toChar = Nat.toDigits 10 n := by
  induction n using Nat.strong_induction_on with
  | _ n ih =>
    rcases Nat.lt_or_ge n 10 with h | h
    · rw [listOf_of_lt h, Nat.toDigits_of_lt_base h]
      rfl
    · rw [listOf_of_ge h, Nat.toDigits_of_base_le (by decide) h, List.map_append, ih _ (by omega)]
      rfl

theorem toList_repr (n : Nat) : n.repr.toList = (listOf n).map toChar := by
  rw [Nat.repr_eq_ofList_toDigits, String.toList_ofList, map_toChar_listOf]

theorem eq_zero_of_listOf_eq_cons {n : Nat} {ds : List Digit} (h : listOf n = 0 :: ds) : n = 0 := by
  induction n using Nat.strong_induction_on generalizing ds with
  | _ n ih =>
    rcases Nat.lt_or_ge n 10 with hn | hn
    · rw [listOf_of_lt hn] at h
      exact congrArg Fin.val (List.cons.inj h).1
    · -- the leading digit is that of the number without its last digit
      rw [listOf_of_ge hn] at h
      obtain ⟨d, rest, he⟩ := List.exists_cons_of_ne_nil (listOf_ne_nil (n / 10))
      rw [he, List.cons_append] at h
      have hz := ih (n / 10) (by omega) (he.trans (by rw [(List.cons.inj h).1]))
      omega

end Digit

namespace Json

theorem natOfDigits_append_singleton (ds : List Digit) (d : Digit) :
    natOfDigits (ds ++ [d]) = 10 * natOfDigits ds + d.val := by
  simp [natOfDigits]

theorem natOfDigits_listOf (n : Nat) : natOfDigits (Digit.listOf n) = n := by
  induction n using Nat.strong_induction_on with
  | _ n ih =>
    rcases Nat.lt_or_ge n 10 with h | h
    · simp [Digit.listOf_of_lt h, natOfDigits]
    · rw [Digit.listOf_of_ge h, natOfDigits_append_singleton, ih _ (by omega)]
      exact Nat.div_add_mod n 10

/-- No digit comes next. -/
def NoDigit (rest : List Char) : Prop := ∀ c ∈ rest.head?, Digit.ofChar? c = none

theorem noDigit_cons {c : Char} {rest : List Char} : NoDigit (c :: rest) ↔ Digit.ofChar? c = none := by
  simp [NoDigit]

/-- What comes next does not continue a numeral. -/
structure EndsNumeral (rest : List Char) : Prop where
  noDigit : NoDigit rest
  noPoint : ∀ cs, rest ≠ '.' :: cs
  noExponent : ∀ cs, rest ≠ 'e' :: cs ∧ rest ≠ 'E' :: cs

theorem digits_of_noDigit {rest : List Char} (h : NoDigit rest) : digits rest = ([], rest) := by
  cases rest with
  | nil => rfl
  | cons c cs => rw [digits, noDigit_cons.1 h]

theorem digits_append (ds : List Digit) {rest : List Char} (h : NoDigit rest) :
    digits (ds.map Digit.toChar ++ rest) = (ds, rest) := by
  induction ds with
  | nil => exact digits_of_noDigit h
  | cons d ds ih => rw [List.map_cons, List.cons_append, digits, Digit.ofChar?_toChar, ih]

theorem whole?_append (n : Nat) {rest : List Char} (h : NoDigit rest) :
    whole? ((Digit.listOf n).map Digit.toChar ++ rest) = some (n, rest) := by
  rw [whole?, digits_append _ h]
  obtain ⟨d, ds, he⟩ := List.exists_cons_of_ne_nil (Digit.listOf_ne_nil n)
  have hlead : ¬ (d.val == 0 && !ds.isEmpty) = true := by
    intro hz
    simp only [Bool.and_eq_true, beq_iff_eq, Bool.not_eq_eq_eq_not, Bool.not_true, List.isEmpty_eq_false_iff] at hz
    obtain rfl : d = 0 := Fin.ext hz.1
    obtain rfl := Digit.eq_zero_of_listOf_eq_cons he
    exact hz.2 (List.cons.inj he).2.symm
  rw [he]
  simp only [hlead, Bool.false_eq_true, if_false, ← he, natOfDigits_listOf]

/-- The text of the digits after the point. -/
def fractionText (ds : List Digit) : List Char := if ds = [] then [] else '.' :: ds.map Digit.toChar

theorem fraction?_append (ds : List Digit) {rest : List Char} (h : NoDigit rest)
    (hp : ∀ cs, rest ≠ '.' :: cs) : fraction? (fractionText ds ++ rest) = some (ds, rest) := by
  cases ds with
  | nil => exact fraction?.eq_2 rest fun cs hc => hp cs hc
  | cons d ds =>
    show fraction? ('.' :: ((d :: ds).map Digit.toChar ++ rest)) = _
    rw [fraction?, digits_append _ h]

theorem exponentDigits?_append (negative : Bool) (n : Nat) {rest : List Char} (h : NoDigit rest) :
    exponentDigits? negative (n.repr.toList ++ rest) = some (some (if negative then -(n : Int) else n), rest) := by
  rw [exponentDigits?, Digit.toList_repr, digits_append _ h]
  obtain ⟨d, ds, he⟩ := List.exists_cons_of_ne_nil (Digit.listOf_ne_nil n)
  rw [he]
  simp only [← he, natOfDigits_listOf]

theorem exponent?_none {rest : List Char} (h : ∀ cs, rest ≠ 'e' :: cs ∧ rest ≠ 'E' :: cs) :
    exponent? rest = some (none, rest) := by
  cases rest with
  | nil => rfl
  | cons c cs =>
    have hc : ¬ (c = 'e' ∨ c = 'E') := by
      rintro (rfl | rfl)
      · exact (h cs).1 rfl
      · exact (h cs).2 rfl
    rw [exponent?.eq_def]
    simp only [hc, if_false]

theorem exponent?_append (e : Int) {rest : List Char} (h : NoDigit rest) :
    exponent? ((Numeral.exponentText e).toList ++ rest) = some (some e, rest) := by
  rw [Numeral.exponentText]
  by_cases he : e < 0
  · rw [if_pos he, String.toList_append]
    show exponent? ('e' :: '-' :: (e.natAbs.repr.toList ++ rest)) = _
    rw [exponent?, if_pos (Or.inl rfl), exponentDigits?_append _ _ h]
    simp only [if_true, Option.some.injEq, Prod.mk.injEq, and_true]
    omega
  · rw [if_neg he, String.toList_append]
    show exponent? ('e' :: '+' :: (e.natAbs.repr.toList ++ rest)) = _
    rw [exponent?, if_pos (Or.inl rfl), exponentDigits?_append _ _ h]
    simp only [Bool.false_eq_true, if_false, Option.some.injEq, Prod.mk.injEq, and_true]
    omega

/-- The text of the power of ten, if there is one. -/
def powerText (e : Option Int) : List Char := e.elim [] fun e => (Numeral.exponentText e).toList

theorem toList_text (n : Numeral) :
    n.text.toList = (if n.negative then ['-'] else []) ++ ((Digit.listOf n.whole).map Digit.toChar
      ++ (fractionText n.fraction ++ powerText n.exponent)) := by
  have hsign : (if n.negative then "-" else "").toList = if n.negative then ['-'] else [] := by
    split <;> rfl
  have hfraction : (if n.fraction.isEmpty then "" else "." ++ String.ofList (n.fraction.map Digit.toChar)).toList
      = fractionText n.fraction := by
    cases n.fraction <;> simp [fractionText]
  cases he : n.exponent <;>
    simp only [Numeral.text, he, powerText, String.toList_append, hsign, hfraction, Digit.toList_repr,
      List.append_assoc, Option.elim, String.toList_empty]

theorem exists_exponentText (e : Int) : ∃ cs, (Numeral.exponentText e).toList = 'e' :: cs := by
  rw [Numeral.exponentText, String.toList_append]
  split
  · exact ⟨'-' :: e.natAbs.repr.toList, rfl⟩
  · exact ⟨'+' :: e.natAbs.repr.toList, rfl⟩

/-- Behind the digits comes the power of ten, or what follows the numeral. -/
theorem powerText_append (e : Option Int) {rest : List Char} (h : EndsNumeral rest) :
    NoDigit (powerText e ++ rest) ∧ ∀ cs, powerText e ++ rest ≠ '.' :: cs := by
  cases e with
  | none => exact ⟨h.noDigit, h.noPoint⟩
  | some e =>
    obtain ⟨cs, hcs⟩ := exists_exponentText e
    rw [powerText, Option.elim, hcs]
    exact ⟨noDigit_cons.2 rfl, fun _ hc => absurd (List.cons.inj hc).1 (by decide)⟩

theorem noDigit_fractionText (ds : List Digit) {rest : List Char} (h : NoDigit rest) :
    NoDigit (fractionText ds ++ rest) := by
  cases ds with
  | nil => exact h
  | cons d ds => exact noDigit_cons.2 rfl

theorem exponent?_powerText (e : Option Int) {rest : List Char} (h : EndsNumeral rest) :
    exponent? (powerText e ++ rest) = some (e, rest) := by
  cases e with
  | none => exact exponent?_none h.noExponent
  | some e => exact exponent?_append e h.noDigit

theorem unsigned?_append (n : Numeral) {rest : List Char} (h : EndsNumeral rest) :
    unsigned? n.negative ((Digit.listOf n.whole).map Digit.toChar
      ++ (fractionText n.fraction ++ powerText n.exponent) ++ rest) = some (n, rest) := by
  obtain ⟨hpower, hpoint⟩ := powerText_append n.exponent h
  rw [unsigned?, List.append_assoc, List.append_assoc, whole?_append _ (noDigit_fractionText _ hpower)]
  simp only [Option.bind_eq_bind, Option.bind_some, fraction?_append _ hpower hpoint,
    exponent?_powerText _ h]
  rfl

theorem exists_text (n : Numeral) :
    ∃ c cs, n.text.toList = c :: cs ∧
      ∀ x, Digit.ofChar? x = none → (n.negative = true → x ≠ '-') → c ≠ x := by
  obtain ⟨d, ds, he⟩ := List.exists_cons_of_ne_nil (Digit.listOf_ne_nil n.whole)
  rw [toList_text, he]
  cases n.negative with
  | true => exact ⟨'-', _, rfl, fun x _ hx => (hx rfl).symm⟩
  | false => exact ⟨d.toChar, _, rfl, fun x hx _ => Digit.toChar_ne hx⟩

/-- A numeral is read back from its text, whatever follows that does not continue it. -/
theorem numeral?_append (n : Numeral) {rest : List Char} (h : EndsNumeral rest) :
    numeral? (n.text.toList ++ rest) = some (n, rest) := by
  have hread := unsigned?_append n h
  obtain ⟨c, cs, hc, hne⟩ := exists_text n
  have htext := toList_text n
  cases hn : n.negative with
  | true =>
    rw [hn] at hread htext
    rw [htext]
    exact hread
  | false =>
    rw [hn] at hread hne htext
    rw [numeral?.eq_2, htext]
    · exact hread
    · intro cs' hcs
      rw [hc] at hcs
      exact hne '-' rfl (by decide) (List.cons.inj hcs).1

end Json
end AbiBridge
