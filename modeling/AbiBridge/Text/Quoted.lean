import AbiBridge.Text.Hidden

/-! # Quoted text in messages

A string in double quotes, with escapes for quotes, backslashes and what cannot be shown. -/

namespace AbiBridge.Text

/-- The escape of a character that has a letter for it. -/
def letterEscape? (c : Char) : Option (List Char) :=
  match c.toNat with
  | 0 => some ['\\', '0']
  | 9 => some ['\\', 't']
  | 10 => some ['\\', 'n']
  | 13 => some ['\\', 'r']
  | 34 => some ['\\', '"']
  | 92 => some ['\\', '\\']
  | _ => none

/-- The escape of a character by its code point. -/
def codeEscape (c : Char) : List Char :=
  ['\\', 'u', '\x7b'] ++ Nat.toDigits 16 c.toNat ++ ['\x7d']

def quotedChar (c : Char) : List Char :=
  match letterEscape? c with
  | some e => e
  | none => if isHidden c then codeEscape c else [c]

def quoted (s : String) : String :=
  "\"" ++ String.ofList (s.toList.flatMap quotedChar) ++ "\""

end AbiBridge.Text
