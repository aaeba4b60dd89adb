import AbiBridge.Decimal.Reading
import AbiBridge.Json.Basic

/-! # Decoding JSON documents

A decoder reads a value of one type from a document. Its first argument is the room left for nesting:
every array or object that is read takes one unit of it, and what is skipped takes none.

A record is an object of its fields or an array of them in their declared order. In an object unknown
members are skipped (or refused, for a `closed` record) and a known one must not repeat; an array may
stop early but not run over. An alternative is the name of a case, or an object whose single member is
named for the case and holds its data. -/

namespace AbiBridge

/-- Deepest nesting of a document that is read. -/
def Json.maxDepth : Nat := 127

/-- Reads a value from a document, given the room left for nesting. -/
abbrev Decoder (α : Type) := Nat → Json → Option α

namespace Decoder

variable {α : Type}

def bool : Decoder Bool
  | _, .bool b => some b
  | _, _ => none

def string : Decoder String
  | _, .str s => some s
  | _, _ => none

/-- An integer from `low` up to `high`. -/
def intBetween (low high : Int) : Decoder Int
  | _, .num n => n.toInt?.filter fun i => low ≤ i && i ≤ high
  | _, _ => none

def int64 : Decoder Int := intBetween (-9223372036854775808) 9223372036854775807

/-- A natural number below `2 ^ width`. -/
def natBits (width : Nat) : Decoder Nat := fun room j =>
  (intBetween 0 (Nat.pow 2 width - 1 : Nat) room j).map Int.toNat

def float : Decoder Binary64
  | _, .num n => n.toBinary64?
  | _, _ => none

/-- A value that may be `null`. -/
def nullable (d : Decoder α) : Decoder (Option α)
  | _, .null => some none
  | room, j => (d room j).map some

/-- An array of values. -/
def list (d : Decoder α) : Decoder (List α)
  | room + 1, .arr items => items.mapM (d room)
  | _, _ => none

end Decoder

namespace Json

/-! ### Records -/

/-- The fields of a record, and the room left inside it. -/
structure Fields where
  room : Nat
  positional : Bool
  entries : List (String × Json)

/-- Names in `names` that occur at most once among the members. -/
def nonRepeating (names : List String) (members : List (String × Json)) : Bool :=
  names.all fun n => (members.filter fun m => m.1 == n).length ≤ 1

/-- Splits a record into the fields named `names`. -/
def fields? (names : List String) (closed : Bool) : Decoder Fields
  | room + 1, .obj members =>
    if nonRepeating names members && (!closed || members.all fun m => names.contains m.1) then
      some ⟨room, false, members⟩
    else none
  | room + 1, .arr items =>
    if items.length ≤ names.length then some ⟨room, true, names.zip items⟩ else none
  | _, _ => none

namespace Fields

variable {α : Type}

def get? (f : Fields) (name : String) : Option Json := f.entries.lookup name

/-- A field that must be there. -/
def required (f : Fields) (name : String) (d : Decoder α) : Option α :=
  (f.get? name).bind (d f.room)

/-- A field that has a value when it is missing. -/
def defaulted (f : Fields) (name : String) (value : α) (d : Decoder α) : Option α :=
  match f.get? name with
  | none => some value
  | some j => d f.room j

/-- A field that may be `null`, and missing too where fields go by name. -/
def optional (f : Fields) (name : String) (d : Decoder α) : Option (Option α) :=
  match f.get? name with
  | none => if f.positional then none else some none
  | some j => d.nullable f.room j

end Fields

/-! ### Alternatives -/

/-- The case of an alternative, the room left inside it, and its data where it has some. -/
structure Case where
  tag : String
  room : Nat
  body : Option Json

def case? : Decoder Case
  | room, .str s => some ⟨s, room, none⟩
  | room + 1, .obj [(tag, body)] => some ⟨tag, room, some body⟩
  | _, _ => none

/-- The record that a case carries. Its fields may be listed by position only where `listed` says so: a
text may list them, a document that was handed over as a tree names them. -/
def caseFields? (names : List String) (listed : Bool) : Decoder Fields := fun room j =>
  match j with
  | .arr _ => if listed then fields? names false room j else none
  | _ => fields? names false room j

/-- A case without data may also carry a `null`. -/
def Case.isBare (c : Case) : Bool :=
  match c.body with
  | none => true
  | some .null => true
  | some _ => false

/-- Reads one of finitely many cases without data. -/
def caseName? : Decoder String := fun room j =>
  match case? room j with
  | some c => if c.isBare then some c.tag else none
  | none => none

end Json

end AbiBridge
