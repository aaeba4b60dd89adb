import AbiBridge.Decimal.Shortest

/-! # JSON documents

The tree of a JSON text. Members keep their order and may repeat, numbers stay numerals, and a piece
of text that is well formed but denotes nothing (a string or a member name with an unpaired surrogate
escape) is `unreadable`: it may be skipped, never read. -/

namespace AbiBridge

inductive Json where
  | null
  | bool (b : Bool)
  | num (n : Numeral)
  | str (s : String)
  | arr (items : List Json)
  | obj (members : List (String × Json))
  | unreadable
deriving Repr, Inhabited

namespace Json

def int (n : Int) : Json := .num (.ofInt n)

def nat (n : Nat) : Json := .int n

/-- Numbers are written in positional notation from `10 ^ -5` up to `10 ^ 16`, always with a point. -/
def floatStyle : Numeral.Style where
  positional e := -5 ≤ e && e ≤ 15
  keepPoint := true
  tie := .even

/-- A number that is not finite has no numeral and is written `null`. -/
def float (x : Binary64) : Json :=
  if x.isFinite then .num (x.numeral floatStyle) else .null

def ofOption {α : Type} (f : α → Json) : Option α → Json
  | none => .null
  | some a => f a

def list {α : Type} (f : α → Json) (l : List α) : Json := .arr (l.map f)

/-- A case of an alternative that carries data: an object whose one member is named for the case. -/
def tagged (tag : String) (body : Json) : Json := .obj [(tag, body)]

mutual

/-- The number of brackets that stand around the innermost part of a document. -/
def depth : Json → Nat
  | .arr items => depthItems items + 1
  | .obj members => depthMembers members + 1
  | _ => 0

def depthItems : List Json → Nat
  | [] => 0
  | j :: rest => max j.depth (depthItems rest)

def depthMembers : List (String × Json) → Nat
  | [] => 0
  | (_, j) :: rest => max j.depth (depthMembers rest)

end

end Json

end AbiBridge
