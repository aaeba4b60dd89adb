/-! # Words

Sizes, strides and positions are words of 64 bits; the integers of a wrapper body are such words, read as signed
numbers. A sum or a product that leaves the range wraps around. Taking a remainder commutes with both, so a
computation is written with numbers and its result cut to a word, which is as good as cutting after each step. -/

namespace AbiBridge.Word

/-- How many words there are: two to the power of 64. -/
def count : Nat := 18446744073709551616

/-- What is left of a number in a word. -/
def wrap (n : Nat) : Nat := n % count

/-- What is left of an integer in a word that is read as a signed number. -/
def signed (n : Int) : Int := Int.bmod n count

theorem wrap_le (n : Nat) : wrap n ≤ n := Nat.mod_le n count

theorem wrap_of_lt {n : Nat} (h : n < count) : wrap n = n := Nat.mod_eq_of_lt h

@[simp] theorem wrap_zero : wrap 0 = 0 := rfl

@[simp] theorem wrap_wrap (n : Nat) : wrap (wrap n) = wrap n := Nat.mod_mod n count

@[simp] theorem wrap_add_wrap (a b : Nat) : wrap (a + wrap b) = wrap (a + b) := Nat.add_mod_mod a b count

@[simp] theorem wrap_wrap_add (a b : Nat) : wrap (wrap a + b) = wrap (a + b) := Nat.mod_add_mod a count b

@[simp] theorem wrap_mul_wrap (a b : Nat) : wrap (a * wrap b) = wrap (a * b) := Nat.mul_mod_mod a b count

@[simp] theorem wrap_wrap_mul (a b : Nat) : wrap (wrap a * b) = wrap (a * b) := Nat.mod_mul_mod a b count

theorem signed_of_bounds {n : Int} (hl : -9223372036854775808 ≤ n) (hu : n < 9223372036854775808) : signed n = n := by
  have hcount : ((count : Nat) : Int) = 18446744073709551616 := rfl
  refine Int.bmod_eq_of_le ?_ ?_ <;> omega

theorem signed_natCast {n : Nat} (h : n < 9223372036854775808) : signed n = n := signed_of_bounds (by omega) (by omega)

/-- What is added to a number and taken away again leaves no trace, even if the sum wraps around. -/
theorem signed_signed_add_sub (a b : Int) : signed (signed (a + b) - b) = signed a := by
  rw [signed, signed, Int.bmod_sub_bmod, Int.add_sub_cancel, signed]

end AbiBridge.Word
