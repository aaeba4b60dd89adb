import AbiBridge.Target
import AbiBridge.Wrapper.Abi

/-! # Wrapper modules

The functions, variables, overload sets and classes of a wrapper module, each of which knows what it
wraps. -/

namespace AbiBridge

/-- A scope of a wrapper module, by its place in the scope tree. -/
abbrev ScopeId := Nat

namespace Wrapper

/-- A member of a class. -/
structure MemberKey where
  className : String
  member : String
deriving DecidableEq, Repr, Inhabited

/-- What a wrapper function exposes. -/
inductive Origin where
  | function (name : String)
  | method (key : MemberKey)
  | getter (key : MemberKey)
  | setter (key : MemberKey)
  /-- Makes an instance of a class. -/
  | allocator (className : String)
  /-- Gives access to an array variable of the module. -/
  | variableAccessor (name : String)
deriving DecidableEq, Repr, Inhabited

/-- A wrapper function. -/
structure Function where
  name : String
  origin : Origin
  arguments : List Argument
  results : List Result
  body : List Stmt
  /-- The locals of the wrapper's scope and of the blocks in it; a direct argument is a parameter and
  not among them. -/
  locals : List Local
  scope : ScopeId
  docstring : Option String

namespace Function

/-- The flattened signature: one result is returned by value, several are output parameters. -/
def signature (f : Function) : Signature :=
  let inputs := f.arguments.flatMap Argument.params
  match f.results with
  | [] => ⟨f.name, inputs, .void⟩
  | [r] => ⟨f.name, inputs ++ r.shapeParams, .direct r.slot.1 r.slot.2⟩
  | rs => ⟨f.name, inputs ++ rs.flatMap Result.outputs, .status⟩

/-- The declaration of a local, or of the argument of that name. -/
def local? (f : Function) (name : String) : Option Local :=
  (f.locals.find? (·.name == name)).or
    ((f.arguments.map (·.native)).find? (·.name == name))

end Function

/-- A variable of the module as it is exposed. -/
inductive Variable where
  /-- A scalar crosses unchanged. -/
  | scalar (name : String) (kind : ScalarKind)
  /-- An array is reached through an accessor without parameters. -/
  | array (name : String) (type : ValueType) (accessor : Function)

namespace Variable

def name : Variable → String
  | .scalar name _ => name
  | .array name _ _ => name

def accessor? : Variable → Option Function
  | .scalar .. => none
  | .array _ _ accessor => some accessor

end Variable

/-- An overload set, by the wrapper names of the overloads that could be wrapped. -/
structure Interface where
  name : String
  functions : List String
deriving DecidableEq, Repr, Inhabited

/-- A property of a class. -/
structure Property where
  key : MemberKey
  getter : Function
  setter : Option Function
  docstring : Option String

def Property.functions (p : Property) : List Function := p.getter :: p.setter.toList

structure Class where
  name : String
  allocator : Function
  methods : List Function
  interfaces : List Interface
  properties : List Property
  docstring : Option String

namespace Class

def property? (c : Class) (member : String) : Option Property :=
  c.properties.find? (·.key.member == member)

def functions (c : Class) : List Function :=
  c.allocator :: (c.methods ++ c.properties.flatMap Property.functions)

end Class

structure Module where
  name : String
  /-- The name of the wrapped module. -/
  wraps : String
  target : Target
  globals : List Variable
  functions : List Function
  initFunction : Option String
  freeFunction : Option String
  interfaces : List Interface
  classes : List Class
  /-- The functions that could not be wrapped. -/
  removedFunctions : List String

namespace Module

variable (m : Module)

def variableAccessors : List Function := m.globals.filterMap Variable.accessor?

/-- Every wrapper function of the module. -/
def allFunctions : List Function :=
  m.functions ++ m.variableAccessors ++ m.classes.flatMap Class.functions

def function? (name : String) : Option Function := m.allFunctions.find? (·.name == name)

/-- The wrapper of a given origin. -/
def wrapperOf? (origin : Origin) : Option Function := m.allFunctions.find? (·.origin == origin)

def class? (name : String) : Option Class := m.classes.find? (·.name == name)

end Module

end Wrapper

end AbiBridge
