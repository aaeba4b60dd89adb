import AbiBridge.Semantic.ValueType

/-! # Expressions of wrapper bodies

Wrappers declare locals and compute with them: integers for shapes, pointers and their presence, views
of arrays, attributes of objects, and the call of the wrapped function. -/

namespace AbiBridge.Wrapper

/-- The type of a wrapper's local. -/
inductive LocalType where
  /-- A pointer without shape or type. -/
  | pointer
  /-- A typed value; an `aliased` one refers to memory owned elsewhere. -/
  | value (type : ValueType) (aliased : Bool)
deriving Repr, Inhabited

mutual

inductive Expr where
  | var (name : String)
  | int (n : Int)
  | bool (b : Bool)
  | null
  /-- Whether the pointer of an optional argument was given. -/
  | isNotNull (e : Expr)
  | add (a b : Expr)
  | mul (a b : Expr)
  /-- The extent of a dimension of an array, or the length of a collection. Dimensions count from zero. -/
  | shape (var : String) (dim : Nat)
  | index (base : String) (subscripts : List Subscript)
  /-- An attribute of an object. -/
  | field (base : Expr) (name : String)
  | call (function : String) (arguments : List Actual)
  /-- The targets of an assignment of several results. -/
  | tuple (items : List Expr)

/-- One dimension of an indexing. -/
inductive Subscript where
  /-- From `start` up to `stop` by `step`; without `stop`, to the end of the dimension. -/
  | slice (start : Expr) (stop : Option Expr) (step : Expr)
  | element (position : Expr)

/-- An argument of a call, by keyword or by position. -/
inductive Actual where
  | mk (keyword : Option String) (value : Expr)

end

instance : Inhabited Expr := ⟨.null⟩

def Actual.keyword : Actual → Option String
  | .mk keyword _ => keyword

def Actual.value : Actual → Expr
  | .mk _ value => value

def Subscript.isSlice : Subscript → Bool
  | .slice .. => true
  | .element _ => false

namespace Expr

/-- A reinterpreted array seen through a slice. -/
def isStridedView : Expr → Bool
  | .index _ subscripts => subscripts.any Subscript.isSlice
  | _ => false

/-- The variable an expression is rooted at. -/
def baseName? : Expr → Option String
  | .var name => some name
  | .index base _ => some base
  | .shape array _ => some array
  | .field base _ => base.baseName?
  | _ => none

end Expr

/-- A variable declared inside a wrapper. -/
structure Local where
  name : String
  type : LocalType
deriving Repr, Inhabited

namespace Local

def pointer (name : String) : Local := ⟨name, .pointer⟩

def owned (name : String) (type : ValueType) : Local := ⟨name, .value type false⟩

def aliased (name : String) (type : ValueType) : Local := ⟨name, .value type true⟩

/-- An integer for shapes, strides and counters. -/
def index (name : String) : Local := .owned name (.scalar .index)

def valueType? (l : Local) : Option ValueType :=
  match l.type with
  | .value type _ => some type
  | .pointer => none

def isPointer (l : Local) : Bool :=
  match l.type with
  | .pointer => true
  | .value .. => false

def var (l : Local) : Expr := .var l.name

end Local

end AbiBridge.Wrapper
