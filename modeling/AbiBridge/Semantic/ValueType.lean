import AbiBridge.Storage.Order

/-! # Value types

The fully resolved types of arguments, results, attributes and variables. -/

namespace AbiBridge

/-- The primitive kind of a scalar. -/
inductive ScalarKind where
  | bool
  | int8
  | int16
  | int32
  | int64
  | float32
  | float64
  | complex64
  | complex128
deriving DecidableEq, Repr, Inhabited

namespace ScalarKind

/-- The kind of shapes, strides and loop counters. -/
def index : ScalarKind := .int64

def isInteger : ScalarKind → Bool
  | .int8 | .int16 | .int32 | .int64 => true
  | _ => false

def isFloat : ScalarKind → Bool
  | .float32 | .float64 => true
  | _ => false

def name : ScalarKind → String
  | .bool => "bool"
  | .int8 => "int8"
  | .int16 => "int16"
  | .int32 => "int32"
  | .int64 => "int64"
  | .float32 => "float32"
  | .float64 => "float64"
  | .complex64 => "complex64"
  | .complex128 => "complex128"

def all : List ScalarKind :=
  [.bool, .int8, .int16, .int32, .int64, .float32, .float64, .complex64, .complex128]

def toJson (k : ScalarKind) : Json := .str k.name

def decode : Decoder ScalarKind := fun room j =>
  (Json.caseName? room j).bind fun n => all.find? fun k => k.name == n

end ScalarKind

/-- The type of a value. -/
inductive ValueType where
  | scalar (kind : ScalarKind)
  | array (element : ScalarKind) (rank : Nat) (order : StorageOrder)
  /-- An instance of a class of the module. -/
  | object (className : String)
  /-- A tuple of elements of one type, whose length may be known. -/
  | uniformTuple (element : ValueType) (length : Option Nat)
  | tuple (elements : List ValueType)
  | list (element : ValueType)
  | set (element : ValueType)
  /-- A function passed by address. -/
  | functionRef
deriving Repr, Inhabited

namespace ValueType

/-- How many dimensions cross the boundary. -/
def rank : ValueType → Nat
  | .array _ rank _ => rank
  | .uniformTuple .. | .tuple _ | .list _ | .set _ => 1
  | .scalar _ | .object _ | .functionRef => 0

/-- The declared storage order; where there is at most one dimension, row-major. -/
def order : ValueType → StorageOrder
  | .array _ _ order => order
  | _ => .rowMajor

def isScalar : ValueType → Bool
  | .scalar _ => true
  | _ => false

def isArray : ValueType → Bool
  | .array .. => true
  | _ => false

def isObject : ValueType → Bool
  | .object _ => true
  | _ => false

/-- A container of one dimension with elements of one type. -/
def isSequence : ValueType → Bool
  | .uniformTuple .. | .list _ | .set _ => true
  | _ => false

def isTuple : ValueType → Bool
  | .tuple _ | .uniformTuple .. => true
  | _ => false

/-- The element type of a container or an array. -/
def element? : ValueType → Option ValueType
  | .array element _ _ => some (.scalar element)
  | .uniformTuple element _ | .list element | .set element => some element
  | _ => none

/-- The letter of a storage order in the text of a type. -/
def orderLetter : StorageOrder → String
  | .rowMajor => "C"
  | .columnMajor => "F"

mutual

/-- The text of a type in messages. -/
def text : ValueType → String
  | .scalar kind => kind.name
  | .array element rank order =>
    element.name ++ "[" ++ ",".intercalate (List.replicate rank ":") ++ "](order="
      ++ orderLetter order ++ ")"
  | .object className => className
  | .uniformTuple element (some n) => "tuple[" ++ element.text ++ "; " ++ Nat.repr n ++ "]"
  | .uniformTuple element none => "tuple[" ++ element.text ++ ", ...]"
  | .tuple elements => "tuple[" ++ textList elements ++ "]"
  | .list element => "list[" ++ element.text ++ "]"
  | .set element => "set[" ++ element.text ++ "]"
  | .functionRef => "function"

def textList : List ValueType → String
  | [] => ""
  | [t] => t.text
  | t :: ts => t.text ++ ", " ++ textList ts

end

/-! ### JSON form -/

mutual

def toJson : ValueType → Json
  | .scalar kind => .tagged "scalar" kind.toJson
  | .array element rank order =>
    .tagged "array" (.obj [("element", element.toJson), ("rank", .nat rank), ("order", order.toJson)])
  | .object className => .tagged "class" (.str className)
  | .uniformTuple element length =>
    .tagged "homogeneous_tuple"
      (.obj [("element", element.toJson), ("length", .ofOption .nat length)])
  | .tuple elements => .tagged "tuple" (.arr (toJsonList elements))
  | .list element => .tagged "list" element.toJson
  | .set element => .tagged "set" element.toJson
  | .functionRef => .str "function_ref"

def toJsonList : List ValueType → List Json
  | [] => []
  | t :: ts => t.toJson :: toJsonList ts

end

/-- An array type behind its case name. -/
def decodeArray (listed : Bool) : Decoder ValueType := fun room j => do
  let f ← Json.caseFields? ["element", "rank", "order"] listed room j
  let element ← f.required "element" ScalarKind.decode
  let rank ← f.required "rank" (.natBits 64)
  let order ← f.required "order" StorageOrder.decode
  return .array element rank order

/-- Reads a type. A case with data takes one unit of room and a record or a list inside it another.
`listed` says whether the fields of a case may be listed by position. -/
def decode (listed : Bool) : Decoder ValueType
  | 0, j =>
    match Json.caseName? 0 j with
    | some "function_ref" => some .functionRef
    | _ => none
  | room + 1, j =>
    match Json.case? (room + 1) j with
    | none => none
    | some ⟨tag, _, none⟩ => if tag = "function_ref" then some .functionRef else none
    | some ⟨tag, _, some body⟩ =>
      match tag with
      | "scalar" => (ScalarKind.decode room body).map .scalar
      | "array" => decodeArray listed room body
      | "class" => (Decoder.string room body).map .object
      | "homogeneous_tuple" =>
        match room with
        | 0 => none
        | inner + 1 =>
          match Json.caseFields? ["element", "length"] listed (inner + 1) body with
          | none => none
          | some f =>
            match (f.get? "element").bind (decode listed inner), f.optional "length" (.natBits 64) with
            | some element, some length => some (.uniformTuple element length)
            | _, _ => none
      | "tuple" =>
        match room, body with
        | inner + 1, .arr items => (items.mapM (decode listed inner)).map .tuple
        | _, _ => none
      | "list" => (decode listed room body).map .list
      | "set" => (decode listed room body).map .set
      | "function_ref" =>
        match body with
        | .null => some .functionRef
        | _ => none
      | _ => none

end ValueType

end AbiBridge
