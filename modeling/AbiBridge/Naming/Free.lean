import AbiBridge.Naming.Cuda
import AbiBridge.Naming.Fortran
import AbiBridge.Target

/-! # Collision-free names

Whether an identifier can be used in generated code, and the next one that can. Two spellings are the
same name when they have the same canonical spelling: Fortran folds the case of ASCII letters, CUDA
keeps every spelling apart (`sameName_iff`). A name that clashes gets a counter of at least four digits, the least from
one on that is free; as each keyword and each symbol can block one counter only, the search stops after
as many tries as there are keywords and symbols. -/

namespace AbiBridge

namespace Naming

/-- Folds the case of ASCII letters. -/
def foldCase (s : String) : String := String.ofList (s.toList.map Char.toLower)

/-- A decimal counter, padded with zeros to four digits. -/
def counterText (n : Nat) : String :=
  let digits := Nat.toDigits 10 n
  String.ofList (List.replicate (4 - digits.length) '0' ++ digits)

/-- A name with a counter. -/
def numbered (stem : String) (n : Nat) : String := stem ++ "_" ++ counterText n

/-- The first numbered name from `start` on that is not taken, after at most `tries` taken ones. -/
def firstFree (taken : String → Bool) (stem : String) : (tries start : Nat) → String
  | 0, start => numbered stem start
  | tries + 1, start =>
    if taken (numbered stem start) then firstFree taken stem tries (start + 1)
    else numbered stem start

/-- The first numbered name from `start` on that is not one of `names`. -/
def firstFreeOf (names : List String) (stem : String) (start : Nat) : String :=
  firstFree names.contains stem names.length start

/-- A name that begins and ends with two underscores and has something between them. -/
def isDunder (name : String) : Bool :=
  let cs := name.toList
  4 < cs.length && ['_', '_'].isPrefixOf cs && ['_', '_'].isSuffixOf cs

end Naming

namespace Target

open Naming

def keywords : Target → List String
  | .fortran => Naming.Fortran.keywords
  | .cuda => Naming.Cuda.keywords

/-- The spelling that all spellings of one name share. -/
def canonical : Target → String → String
  | .fortran, s => foldCase s
  | .cuda, s => s

variable (t : Target)

/-- Two spellings denote one identifier. Spellings of different lengths never do, which is known without
folding them. -/
def sameName (a b : String) : Bool := a.length == b.length && t.canonical a == t.canonical b

theorem length_canonical (s : String) : (t.canonical s).length = s.length := by
  cases t <;> simp [canonical, foldCase, String.length_toList]

theorem sameName_iff (a b : String) : t.sameName a b = true ↔ t.canonical a = t.canonical b := by
  simp only [sameName, Bool.and_eq_true, beq_iff_eq, and_iff_right_iff_imp]
  intro h
  rw [← t.length_canonical a, h, t.length_canonical b]

/-- The language or its support library reserves the name. -/
def isReserved (name : String) : Bool := t.keywords.any (t.sameName · name)

/-- The name is reserved or already one of the symbols. -/
def hasClash (symbols : List String) (name : String) : Bool :=
  t.isReserved name || symbols.any (t.sameName · name)

/-- Names between double underscores keep their spelling where the language has them. -/
def keepsDunder : Target → Bool
  | .fortran => false
  | .cuda => true

/-- A valid spelling: no name starts with an underscore. -/
def legalize (candidate : String) : String :=
  if t.keepsDunder && isDunder candidate then candidate
  else if ['_'].isPrefixOf candidate.toList then "private" ++ candidate
  else candidate

/-- A name made from the candidate that clashes with neither the keywords nor the symbols. -/
def freeName (symbols : List String) (candidate : String) : String :=
  let name := t.legalize candidate
  if t.hasClash symbols name then
    firstFree (t.hasClash symbols) name (t.keywords.length + symbols.length) 1
  else name

end Target

end AbiBridge
