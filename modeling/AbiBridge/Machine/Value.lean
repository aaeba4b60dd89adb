import AbiBridge.Decimal.Shortest
import AbiBridge.Machine.Bindings
import AbiBridge.Storage.Layout

/-! # Runtime values

What a wrapper body computes with. An array value is a strided window onto a buffer of the heap; its
indices count from zero, whatever the target's own indices do. -/

namespace AbiBridge

/-- The address of a heap cell. -/
abbrev Handle := Nat

/-- The text of a handle. -/
def handleText (h : Handle) : String := "#" ++ Nat.repr h

/-- A word read as a signed number: from `2 ^ 63` on it is negative. -/
def signed64 (n : Nat) : Int := Word.signed n

/-- A list in brackets. -/
def bracketed (items : List String) : String := "[" ++ ", ".intercalate items ++ "]"

/-- A strided window onto a heap buffer; strides count elements. -/
structure View where
  buffer : Handle
  offset : Nat
  extents : List Nat
  strides : List Nat
deriving DecidableEq, Repr, Inhabited

inductive Value where
  | none
  | bool (b : Bool)
  | int (n : Int)
  | float (x : Binary64)
  /-- A pointer at the boundary, which may be null. -/
  | ptr (h : Option Handle)
  | array (view : View)
  /-- A class instance on the heap. -/
  | object (h : Handle)
  | list (items : List Value)
  /-- The elements in the order of iteration. -/
  | set (items : List Value)
  | tuple (items : List Value)
deriving Repr, Inhabited

/-- The kinds of values, as messages name them. -/
inductive ValueKind where
  | none
  | bool
  | int
  | float
  | pointer
  | array
  | object
  | list
  | set
  | tuple
deriving DecidableEq, Repr

def ValueKind.text : ValueKind → String
  | .none => "none"
  | .bool => "bool"
  | .int => "int"
  | .float => "float"
  | .pointer => "pointer"
  | .array => "array"
  | .object => "object"
  | .list => "list"
  | .set => "set"
  | .tuple => "tuple"

namespace Value

def kind : Value → ValueKind
  | .none => .none
  | .bool _ => .bool
  | .int _ => .int
  | .float _ => .float
  | .ptr _ => .pointer
  | .array _ => .array
  | .object _ => .object
  | .list _ => .list
  | .set _ => .set
  | .tuple _ => .tuple

def isNull : Value → Bool
  | .ptr Option.none => true
  | .none => true
  | _ => false

/-- The handle of an object or of a pointer that is not null. -/
def handle? : Value → Option Handle
  | .ptr h => h
  | .object h => some h
  | _ => Option.none

/-- The items of a collection. -/
def items? : Value → Option (List Value)
  | .list items | .set items | .tuple items => some items
  | _ => Option.none

/-- Numbers in messages have no exponent and no point unless they need one. -/
def floatStyle : Numeral.Style where
  positional _ := true
  keepPoint := false
  tie := .up

def floatText (x : Binary64) : String :=
  if x.isNaN then "NaN"
  else if x.isFinite then (x.numeral floatStyle).text
  else if x.negative then "-inf" else "inf"

mutual

/-- The text of a value. -/
def text : Value → String
  | .none => "None"
  | .bool true => "true"
  | .bool false => "false"
  | .int n => n.repr
  | .float x => floatText x
  | .ptr Option.none => "null"
  | .ptr (some h) => "ptr " ++ handleText h
  | .array view =>
    "array " ++ handleText view.buffer ++ " " ++ bracketed (view.extents.map Nat.repr)
  | .object h => "object " ++ handleText h
  | .list items => "[" ++ textItems items ++ "]"
  | .set items => "\x7b" ++ textItems items ++ "\x7d"
  | .tuple items => "(" ++ textItems items ++ ")"

def textItems : List Value → String
  | [] => ""
  | [v] => v.text
  | v :: rest => v.text ++ ", " ++ textItems rest

end

end Value

end AbiBridge
