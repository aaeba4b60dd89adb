import AbiBridge.Semantic.Span
import AbiBridge.Semantic.ValueType

/-! # Semantic modules

What a module declares, after types are resolved: functions, overload sets, classes and variables.
Declaration order is kept everywhere, since it fixes the names of the wrappers and the nesting of the
tests for optional arguments. -/

namespace AbiBridge.Semantic

/-- The default of an optional argument. -/
inductive Literal where
  | none
  | bool (b : Bool)
  | int (n : Int)
  | float (x : Binary64)
deriving DecidableEq, Repr, Inhabited

/-- A declared argument of a function. -/
structure Argument where
  name : String
  type : ValueType
  optional : Bool := false
  /-- The receiver of a method. -/
  bound : Bool := false
  default : Option Literal := .none
  keywordOnly : Bool := false
  /-- The callee needs the elements of this array side by side. -/
  contiguous : Bool := false
deriving Repr, Inhabited

/-- A declared result of a function. -/
structure Result where
  name : String
  type : ValueType
  /-- The result is an argument that the function modifies in place. -/
  isArgument : Bool := false
  /-- The result is a reference, not a value of its own. -/
  isAlias : Bool := false
deriving Repr, Inhabited

/-- Where a function runs. -/
inductive FunctionKind where
  | host
  /-- Runs on the device and is launched from the host. -/
  | kernel
  /-- Runs on the device and is called from device code only. -/
  | device
deriving DecidableEq, Repr, Inhabited

/-- What a function is for inside a class. -/
inductive MethodRole where
  | plain
  | property
  | destructor
deriving DecidableEq, Repr, Inhabited

/-- A function or method. -/
structure Function where
  name : String
  arguments : List Argument
  results : List Result := []
  isPrivate : Bool := false
  isInline : Bool := false
  kind : FunctionKind := .host
  role : MethodRole := .plain
  docstring : Option String := none
  span : Span := {}
deriving Repr, Inhabited

namespace Function

/-- The receiver of a method. -/
def boundArgument? (f : Function) : Option Argument := f.arguments.head?.filter (·.bound)

/-- Callable from the other side of a foreign-call boundary. -/
def isHostCallable (f : Function) : Bool := f.kind == .host

end Function

/-- A named overload set; it names functions of the module or class it stands in. -/
structure Interface where
  name : String
  functions : List String
  isInline : Bool := false
deriving DecidableEq, Repr, Inhabited

/-- A data member of a class. -/
structure Attribute where
  name : String
  type : ValueType
  isPrivate : Bool := false
  /-- The member holds a reference. -/
  isAlias : Bool := false
deriving Repr, Inhabited

structure Class where
  name : String
  methods : List Function := []
  interfaces : List Interface := []
  attributes : List Attribute := []
  docstring : Option String := none
  span : Span := {}
deriving Repr, Inhabited

/-- The type of the receiver of the methods of a class. -/
def Class.type (c : Class) : ValueType := .object c.name

/-- A variable of a module. -/
structure Variable where
  name : String
  type : ValueType
  isPrivate : Bool := false
  span : Span := {}
deriving Repr, Inhabited

structure Module where
  name : String
  globals : List Variable := []
  functions : List Function := []
  interfaces : List Interface := []
  classes : List Class := []
  /-- The function that sets up the state of the module. -/
  initFunction : Option String := none
  /-- The function that releases the state of the module. -/
  freeFunction : Option String := none
  span : Span := {}
deriving Repr, Inhabited

/-- The names a module already uses at its top level. -/
def Module.usedSymbols (m : Module) : List String :=
  m.name :: (m.globals.map (·.name) ++ m.functions.map (·.name) ++ m.interfaces.map (·.name)
    ++ m.classes.map (·.name))

end AbiBridge.Semantic
