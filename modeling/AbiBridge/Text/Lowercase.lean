import AbiBridge.Text.Lowercase.Context
import AbiBridge.Text.Lowercase.Mapping

/-! # Lower case

The full lower-case form of a text. One character has two in lower case (a capital `I` with a dot), and a
capital sigma at the end of a word has a form of its own. -/

namespace AbiBridge.Text

/-- The nearest character that casing does not ignore is cased. -/
def nextIsCased (cs : List Char) : Bool :=
  match cs.dropWhile isCaseIgnorable with
  | [] => false
  | c :: _ => isCased c

/-- The lower-case form of a character, between those `before` it (nearest first) and `after` it. -/
def lowercaseChar (before : List Char) (c : Char) (after : List Char) : List Char :=
  if c.toNat < 128 then [c.toLower]
  else if c = 'Σ' then [if nextIsCased before && !nextIsCased after then 'ς' else 'σ']
  else if c.toNat = 0x130 then ['i', Char.ofNat 0x307]
  else [Char.ofNat (lowercaseCode c.toNat)]

/-- The lower-case form of `cs`, when `before` stands in front of it, nearest first. -/
def lowercaseFrom (before : List Char) : List Char → List Char
  | [] => []
  | c :: rest => lowercaseChar before c rest ++ lowercaseFrom (c :: before) rest

def lowercase (s : String) : String := String.ofList (lowercaseFrom [] s.toList)

end AbiBridge.Text
