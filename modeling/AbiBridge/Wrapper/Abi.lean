import AbiBridge.Semantic.Module
import AbiBridge.Wrapper.Stmt

/-! # The boundary of a wrapper

Only scalars and bare pointers cross. An array travels as a pointer with shape and stride scalars; an
optional value, an object or a collection as a pointer that may be null. One result is returned by
value; several become output parameters and the wrapper returns their number. -/

namespace AbiBridge.Wrapper

/-- The type of what crosses the boundary. -/
inductive AbiType where
  | scalar (kind : ScalarKind)
  | pointer
deriving DecidableEq, Repr

def AbiType.text : AbiType → String
  | .scalar kind => kind.name
  | .pointer => "void*"

inductive Direction where
  | input
  | output
deriving DecidableEq, Repr

/-- A parameter of the flattened signature. -/
structure Parameter where
  name : String
  type : AbiType
  direction : Direction
deriving DecidableEq, Repr

namespace Parameter

def input (name : String) (type : AbiType) : Parameter := ⟨name, type, .input⟩

def output (name : String) (type : AbiType) : Parameter := ⟨name, type, .output⟩

def text (p : Parameter) : String :=
  match p.direction with
  | .input => p.type.text ++ " " ++ p.name
  | .output => p.type.text ++ "* " ++ p.name

end Parameter

/-- What the wrapper itself returns. -/
inductive ReturnSlot where
  | void
  /-- The single result. -/
  | direct (name : String) (type : AbiType)
  /-- The number of results, each of which is an output parameter. -/
  | status
deriving DecidableEq, Repr

def ReturnSlot.text : ReturnSlot → String
  | .void => "void"
  | .direct _ type => type.text
  | .status => "int32"

/-- The flattened signature of a wrapper. -/
structure Signature where
  name : String
  params : List Parameter
  returns : ReturnSlot
deriving DecidableEq, Repr

namespace Signature

def inputs (s : Signature) : List Parameter := s.params.filter (·.direction == .input)

def outputs (s : Signature) : List Parameter := s.params.filter (·.direction == .output)

/-- How many results are returned by value. -/
def directReturns (s : Signature) : Nat :=
  match s.returns with
  | .direct .. => 1
  | _ => 0

def text (s : Signature) : String :=
  s.returns.text ++ " " ++ s.name ++ "(" ++ ", ".intercalate (s.params.map Parameter.text) ++ ")"

end Signature

/-- How an argument crosses the boundary. -/
inductive ArgumentAbi where
  /-- A scalar by value; the wrapper's local is the parameter itself. -/
  | direct
  /-- A pointer, with shapes for arrays and sequences and strides for arrays, in declared order. -/
  | pointer (ptr : String) (shape strides : List String)
deriving DecidableEq, Repr

/-- An argument of a wrapper. -/
structure Argument where
  declared : Semantic.Argument
  /-- The native local that holds the value. -/
  native : Local
  abi : ArgumentAbi
  /-- What is passed on to the wrapped function. -/
  callValue : Expr

/-- The kind of a scalar type; any other type that is passed by value counts as an index. -/
def scalarKind : ValueType → ScalarKind
  | .scalar kind => kind
  | _ => .index

namespace Argument

def isOptional (a : Argument) : Bool := a.declared.optional

def isBound (a : Argument) : Bool := a.declared.bound

def pointer? (a : Argument) : Option String :=
  match a.abi with
  | .pointer ptr _ _ => some ptr
  | .direct => none

def params (a : Argument) : List Parameter :=
  match a.abi with
  | .direct => [.input a.native.name (.scalar (scalarKind a.declared.type))]
  | .pointer ptr shape strides =>
    .input ptr .pointer :: (shape ++ strides).map fun n => .input n (.scalar .index)

end Argument

/-- How a result crosses the boundary. -/
inductive ResultAbi where
  /-- A scalar by value from the local. -/
  | direct
  /-- A pointer, with one shape output per dimension. -/
  | pointer (ptr : String) (shape : List String)
deriving DecidableEq, Repr

/-- A result of a wrapper. -/
structure Result where
  declared : Semantic.Result
  /-- The local that receives the value of the call. -/
  native : Local
  abi : ResultAbi

namespace Result

/-- The name and type under which the value itself is delivered. -/
def slot (r : Result) : String × AbiType :=
  match r.abi with
  | .direct => (r.native.name, .scalar (scalarKind r.declared.type))
  | .pointer ptr _ => (ptr, .pointer)

def shapeParams (r : Result) : List Parameter :=
  match r.abi with
  | .direct => []
  | .pointer _ shape => shape.map fun n => .output n (.scalar .index)

/-- The output parameters of a result that is not returned by value. -/
def outputs (r : Result) : List Parameter := .output r.slot.1 r.slot.2 :: r.shapeParams

end Result

end AbiBridge.Wrapper
