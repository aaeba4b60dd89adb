import AbiBridge.Wrap.Interface

/-! # Wrapping classes

A class gets an allocator, a wrapper for each public method, and a property for each method that acts as
one and for each public attribute. -/

namespace AbiBridge

open Wrapper

/-- What a step of the work made, and what it had to report. -/
structure Reported (α : Type) where
  value : α
  reports : List Diagnostic

/-- Makes an instance and returns its handle. -/
def wrapAllocator (c : Semantic.Class) : Alloc Wrapper.Function := do
  let (name, scope) ← Alloc.openFunction (Text.lowercase (c.name ++ "_bind_c_alloc"))
  let object ← Alloc.freshName scope (c.name ++ "_obj")
  let native := Local.aliased object c.type
  Alloc.declare scope native
  let ptr ← Alloc.freshName scope ("bound_" ++ c.name)
  return {
    name
    origin := .allocator c.name
    arguments := []
    results := [⟨{ name := object, type := c.type }, native, .pointer ptr []⟩]
    body := [.allocate object [], .addressOf object ptr]
    locals := ← Alloc.locals scope
    scope
    docstring := none }

/-! ### Methods -/

/-- The name a method is called by: the last overload set that lists it, else its own. -/
def methodCallName (c : Semantic.Class) (method : String) : String :=
  match c.interfaces.reverse.find? (·.functions.contains method) with
  | some i => i.name
  | none => method

def methodJob (c : Semantic.Class) (m : Semantic.Function) : Job where
  function := m
  hint := "bind_c_" ++ c.name ++ "_" ++ m.name
  origin := .method ⟨c.name, m.name⟩
  callName := methodCallName c m.name

def publicMethods (c : Semantic.Class) : List Semantic.Function := c.methods.filter (!·.isPrivate)

def wrapMethods (target : Target) (c : Semantic.Class) : Alloc (List Outcome) :=
  (publicMethods c).mapM fun m => do return ⟨m, ← (methodJob c m).run target⟩

/-- The wrappers of methods that do not act as properties. -/
def plainMethods (outcomes : List Outcome) : List Wrapper.Function :=
  (outcomes.filter (·.function.role != .property)).filterMap (·.wrapper?)

/-- The property that a wrapped method acts as. -/
def methodProperty (c : Semantic.Class) (o : Outcome) : Option Property :=
  if o.function.role = .property then
    o.wrapper?.map fun f => ⟨⟨c.name, o.function.name⟩, f, none, f.docstring⟩
  else none

/-! ### Attributes -/

/-- The receiver of an accessor. -/
def marshalReceiver (target : Target) (scope : ScopeId) (c : Semantic.Class) :
    Alloc MarshalledArgument :=
  marshalArgument target scope { name := "self", type := c.type, bound := true } .handle false

/-- The lower-case name of an accessor, before collisions. -/
def accessorLabel (c : Semantic.Class) (a : Semantic.Attribute) (kind : String) : String :=
  Text.lowercase (c.name ++ "_" ++ a.name ++ "_" ++ kind)

/-- The value of an attribute as the result of its getter. -/
def attributeValue (a : Semantic.Attribute) : Semantic.Result :=
  { name := a.name, type := a.type, isAlias := a.isAlias }

def wrapGetter (target : Target) (c : Semantic.Class) (a : Semantic.Attribute) (delivery : Delivery) :
    Alloc Wrapper.Function := do
  let (name, scope) ← Alloc.openFunction (accessorLabel c a "getter")
  let value ← marshalResult target scope (attributeValue a) delivery .field
  let receiver ← marshalReceiver target scope c
  let held := value.result.native.var
  let stored := Expr.field receiver.argument.callValue a.name
  let read := if delivery = .direct then Stmt.assign held stored else Stmt.aliasAssign held stored
  return {
    name
    origin := .getter ⟨c.name, a.name⟩
    arguments := [receiver.argument]
    results := [value.result]
    body := receiver.rebuild.toList ++ read :: value.deferred
    locals := ← Alloc.locals scope
    scope
    docstring := none }

def wrapSetter (target : Target) (c : Semantic.Class) (a : Semantic.Attribute) (passing : Passing) :
    Alloc Wrapper.Function := do
  let (name, scope) ← Alloc.openFunction (accessorLabel c a "setter")
  let receiver ← marshalReceiver target scope c
  let value ← marshalArgument target scope { name := a.name, type := a.type } passing false
  let stored := Expr.field receiver.argument.callValue a.name
  let given := value.argument.callValue
  let write := if a.isAlias then Stmt.aliasAssign stored given else Stmt.assign stored given
  return {
    name
    origin := .setter ⟨c.name, a.name⟩
    arguments := [receiver.argument, value.argument]
    results := []
    body := receiver.rebuild.toList ++ value.rebuild.toList ++ [write]
    locals := ← Alloc.locals scope
    scope
    docstring := none }

/-- How the value of an attribute crosses in the getter and in the setter. -/
def attributeForms (c : Semantic.Class) (a : Semantic.Attribute) :
    Except WrapFailure (Delivery × Passing) :=
  if a.type.isTuple then .error (.unsupportedAttribute c.name a.name a.type)
  else
    match Delivery.of? a.type with
    | none => .error (.unsupportedResult (accessorLabel c a "getter") a.name a.type)
    | some delivery =>
      match Passing.of? a.type false with
      | none => .error (.unsupportedArgument (accessorLabel c a "setter") a.name a.type)
      | some passing => .ok (delivery, passing)

def wrapAttribute (target : Target) (c : Semantic.Class) (a : Semantic.Attribute) :
    Alloc (Except WrapFailure Property) :=
  match attributeForms c a with
  | .error e => pure (.error e)
  | .ok (delivery, passing) => do
    let getter ← wrapGetter target c a delivery
    let setter ← wrapSetter target c a passing
    return .ok ⟨⟨c.name, a.name⟩, getter, some setter, none⟩

/-- Wraps attributes in turn. One whose name is already that of a property is passed over. -/
def wrapAttributes (target : Target) (moduleName : String) (c : Semantic.Class) (taken : List String) :
    List Semantic.Attribute → Alloc (Reported (List Property))
  | [] => return ⟨[], []⟩
  | a :: rest => do
    if taken.contains a.name then
      wrapAttributes target moduleName c taken rest
    else
      match ← wrapAttribute target c a with
      | .ok p =>
        let more ← wrapAttributes target moduleName c (a.name :: taken) rest
        return ⟨p :: more.value, more.reports⟩
      | .error e =>
        let more ← wrapAttributes target moduleName c taken rest
        return ⟨more.value,
          reportAt moduleName (some (c.name ++ "." ++ a.name)) c.span e :: more.reports⟩

def publicAttributes (c : Semantic.Class) : List Semantic.Attribute :=
  c.attributes.filter (!·.isPrivate)

/-! ### Classes -/

def wrapClass (target : Target) (moduleName : String) (c : Semantic.Class) :
    Alloc (Reported Wrapper.Class) := do
  let allocator ← wrapAllocator c
  let outcomes ← wrapMethods target c
  let fromMethods := outcomes.filterMap (methodProperty c)
  let fromAttributes ← wrapAttributes target moduleName c (fromMethods.map (·.key.member))
    (publicAttributes c)
  return {
    value := {
      name := c.name
      allocator
      methods := plainMethods outcomes
      interfaces := c.interfaces.filterMap (restrictInterface outcomes)
      properties := fromMethods ++ fromAttributes.value
      docstring := c.docstring }
    reports :=
      reportOutcomes moduleName (fun m => c.name ++ "." ++ m.name) outcomes
        ++ fromAttributes.reports }

end AbiBridge
