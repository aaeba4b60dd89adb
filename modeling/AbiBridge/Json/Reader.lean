import AbiBridge.Json.Basic

/-! # Reading JSON text

`Json.parse?` accepts strict JSON: blanks are space, tab, line feed and carriage return, nothing may
follow the document, and there are no comments, trailing commas or leading zeros. It checks the
grammar only; whether a numeral fits a type, how deep a document may nest and which members it may
have is for its decoder.

`value` and its companions work on the characters left to read and return what remains. Their first
argument bounds the number of calls; two per character are enough, as every second call consumes
one. -/

namespace AbiBridge.Json

def isBlank (c : Char) : Bool := c = ' ' || c = '\t' || c = '\n' || c = '\r'

def skipBlanks (cs : List Char) : List Char := cs.dropWhile isBlank

/-! ### Numerals -/

/-- The leading digits and the rest. -/
def digits : List Char → List Digit × List Char
  | [] => ([], [])
  | c :: cs =>
    match Digit.ofChar? c with
    | some d => let (ds, rest) := digits cs; (d :: ds, rest)
    | none => ([], c :: cs)

def natOfDigits (ds : List Digit) : Nat := ds.foldl (fun n d => 10 * n + d.val) 0

/-- The digits before the point: a zero stands alone. -/
def whole? (cs : List Char) : Option (Nat × List Char) :=
  match digits cs with
  | ([], _) => none
  | (d :: ds, rest) => if d.val == 0 && !ds.isEmpty then none else some (natOfDigits (d :: ds), rest)

/-- The digits after the point, of which there is at least one, or no point. -/
def fraction? : List Char → Option (List Digit × List Char)
  | '.' :: cs =>
    match digits cs with
    | ([], _) => none
    | (ds, rest) => some (ds, rest)
  | cs => some ([], cs)

/-- The digits of an exponent behind its sign. -/
def exponentDigits? (negative : Bool) (cs : List Char) : Option (Option Int × List Char) :=
  match digits cs with
  | ([], _) => none
  | (ds, rest) =>
    let n : Int := natOfDigits ds
    some (some (if negative then -n else n), rest)

def exponent? : List Char → Option (Option Int × List Char)
  | c :: cs =>
    if c = 'e' ∨ c = 'E' then
      match cs with
      | '+' :: ds => exponentDigits? false ds
      | '-' :: ds => exponentDigits? true ds
      | ds => exponentDigits? false ds
    else some (none, c :: cs)
  | [] => some (none, [])

/-- An unsigned numeral. -/
def unsigned? (negative : Bool) (cs : List Char) : Option (Numeral × List Char) := do
  let (whole, cs) ← whole? cs
  let (fraction, cs) ← fraction? cs
  let (exponent, cs) ← exponent? cs
  return (⟨negative, whole, fraction, exponent⟩, cs)

def numeral? : List Char → Option (Numeral × List Char)
  | '-' :: cs => unsigned? true cs
  | cs => unsigned? false cs

/-! ### Strings -/

/-- The value of a hexadecimal digit in either case. -/
def hexValue? (c : Char) : Option Nat :=
  let n := c.toNat
  if 48 ≤ n ∧ n ≤ 57 then some (n - 48)
  else if 97 ≤ n ∧ n ≤ 102 then some (n - 87)
  else if 65 ≤ n ∧ n ≤ 70 then some (n - 55)
  else none

/-- The code unit that four hexadecimal digits stand for. -/
def unit? (a b c d : Char) : Option Nat := do
  return ((← hexValue? a) * 16 + (← hexValue? b)) * 256 + ((← hexValue? c) * 16 + (← hexValue? d))

/-- The character an escape letter stands for. -/
def escaped? : Char → Option Char
  | '"' => some '"'
  | '\\' => some '\\'
  | '/' => some '/'
  | 'b' => some (Char.ofNat 8)
  | 'f' => some (Char.ofNat 12)
  | 'n' => some '\n'
  | 'r' => some '\r'
  | 't' => some '\t'
  | _ => none

def isHighSurrogate (u : Nat) : Bool := 0xD800 ≤ u && u < 0xDC00
def isLowSurrogate (u : Nat) : Bool := 0xDC00 ≤ u && u < 0xE000

/-- What one character or escape of a string stands for: a character, or half of one. -/
inductive Piece where
  | char (c : Char)
  | surrogate (u : Nat)
deriving Repr, DecidableEq

def Piece.ofUnit (u : Nat) : Piece :=
  if isHighSurrogate u || isLowSurrogate u then .surrogate u else .char (Char.ofNat u)

/-- The pieces of a string up to its closing quote, and the rest behind it. `acc` holds the pieces
read, last first. -/
def pieces? (acc : List Piece) : List Char → Option (List Piece × List Char)
  | [] => none
  | '"' :: rest => some (acc.reverse, rest)
  | '\\' :: 'u' :: a :: b :: c :: d :: rest =>
    match unit? a b c d with
    | none => none
    | some u => pieces? (.ofUnit u :: acc) rest
  | '\\' :: c :: rest =>
    match escaped? c with
    | none => none
    | some e => pieces? (.char e :: acc) rest
  | c :: rest => if c.toNat < 32 then none else pieces? (.char c :: acc) rest

/-- The text of the pieces, if every surrogate has its partner. `acc` holds the characters joined, last
first. -/
def joinPieces? (acc : List Char) : List Piece → Option String
  | [] => some (String.ofList acc.reverse)
  | .char c :: ps => joinPieces? (c :: acc) ps
  | .surrogate u :: .surrogate v :: ps =>
    if isHighSurrogate u && isLowSurrogate v then
      joinPieces? (Char.ofNat (0x10000 + (u - 0xD800) * 0x400 + (v - 0xDC00)) :: acc) ps
    else none
  | .surrogate _ :: _ => none

/-- The text of a string behind its opening quote, or none where an unpaired surrogate leaves it without
one, and the rest behind the closing quote. -/
def stringBody? (cs : List Char) : Option (Option String × List Char) :=
  match pieces? [] cs with
  | none => none
  | some (ps, rest) => some (joinPieces? [] ps, rest)

/-! ### Documents -/

/-- The member list as an object, unless a name in it could not be read. -/
def ofMembers (members : List (Option String × Json)) : Json :=
  match members.mapM fun (k, j) => k.map fun k => (k, j) with
  | some ms => .obj ms
  | none => .unreadable

mutual

def value? : Nat → List Char → Option (Json × List Char)
  | 0, _ => none
  | fuel + 1, cs =>
    match skipBlanks cs with
    | 'n' :: 'u' :: 'l' :: 'l' :: rest => some (.null, rest)
    | 't' :: 'r' :: 'u' :: 'e' :: rest => some (.bool true, rest)
    | 'f' :: 'a' :: 'l' :: 's' :: 'e' :: rest => some (.bool false, rest)
    | '"' :: rest =>
      match stringBody? rest with
      | none => none
      | some (some s, rest) => some (.str s, rest)
      | some (none, rest) => some (.unreadable, rest)
    | '[' :: rest =>
      match skipBlanks rest with
      | ']' :: rest => some (.arr [], rest)
      | rest =>
        match items? fuel rest with
        | none => none
        | some (items, rest) => some (.arr items, rest)
    | '\x7b' :: rest =>
      match skipBlanks rest with
      | '\x7d' :: rest => some (.obj [], rest)
      | rest =>
        match members? fuel rest with
        | none => none
        | some (members, rest) => some (ofMembers members, rest)
    | cs =>
      match numeral? cs with
      | none => none
      | some (n, rest) => some (.num n, rest)

/-- One item or more, up to and with the closing bracket. -/
def items? : Nat → List Char → Option (List Json × List Char)
  | 0, _ => none
  | fuel + 1, cs =>
    match value? fuel cs with
    | none => none
    | some (j, rest) =>
      match skipBlanks rest with
      | ']' :: rest => some ([j], rest)
      | ',' :: rest =>
        match items? fuel rest with
        | none => none
        | some (js, rest) => some (j :: js, rest)
      | _ => none

/-- One member or more, up to and with the closing brace. -/
def members? : Nat → List Char → Option (List (Option String × Json) × List Char)
  | 0, _ => none
  | fuel + 1, cs =>
    match skipBlanks cs with
    | '"' :: rest =>
      match stringBody? rest with
      | none => none
      | some (k, rest) =>
        match skipBlanks rest with
        | ':' :: rest =>
          match value? fuel rest with
          | none => none
          | some (j, rest) =>
            match skipBlanks rest with
            | '\x7d' :: rest => some ([(k, j)], rest)
            | ',' :: rest =>
              match members? fuel rest with
              | none => none
              | some (ms, rest) => some ((k, j) :: ms, rest)
            | _ => none
        | _ => none
    | _ => none

end

/-- The document a text holds. -/
def parse? (text : String) : Option Json :=
  let cs := text.toList
  match value? (2 * cs.length + 2) cs with
  | none => none
  | some (j, rest) => if (skipBlanks rest).isEmpty then some j else none

end AbiBridge.Json
