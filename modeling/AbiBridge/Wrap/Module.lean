import AbiBridge.Wrap.Class

/-! # Wrapping modules

Functions come first, then overload sets, classes and variables, and last the name of the wrapper module.
What cannot be wrapped is left out and reported; only a module whose name is no identifier is refused. -/

namespace AbiBridge

open Wrapper

/-- A wrapper module with the scopes its names were allocated in. -/
structure WrappedModule where
  module : Wrapper.Module
  scopes : ScopeTree

def WrappedModule.toJson (w : WrappedModule) : Json :=
  .obj [("module", w.module.toJson), ("scopes", w.scopes.toJson)]

/-! ### Functions -/

/-- The functions that a module exposes. -/
def exposedFunctions (m : Semantic.Module) : List Semantic.Function :=
  m.functions.filter fun f => f.isHostCallable && !f.isInline && !f.isPrivate

def functionJob (f : Semantic.Function) : Job where
  function := f
  hint := "bind_c_" ++ f.name
  origin := .function f.name
  callName := f.name

def wrapFunctions (target : Target) (m : Semantic.Module) : Alloc (List Outcome) :=
  (exposedFunctions m).mapM fun f => do return ⟨f, ← (functionJob f).run target⟩

/-! ### Variables -/

/-- Gives the address and the extents of an array variable. -/
def wrapAccessor (target : Target) (v : Semantic.Variable) : Alloc Wrapper.Function := do
  let (name, scope) ← Alloc.openFunction ("bind_c_" ++ Text.lowercase v.name)
  let ptr ← Alloc.freshName scope ("bound_" ++ v.name)
  let shape ← Alloc.series scope (v.name ++ "_shape") v.type.rank
  return {
    name
    origin := .variableAccessor v.name
    arguments := []
    results := [⟨{ name := v.name, type := v.type }, .aliased v.name v.type, .pointer ptr shape⟩]
    body := assignShapes v.type.order target.storageOrder v.name shape ++ [.addressOf v.name ptr]
    locals := ← Alloc.locals scope
    scope
    docstring := none }

def wrapVariable (target : Target) (v : Semantic.Variable) :
    Alloc (Except WrapFailure Wrapper.Variable) :=
  match v.type with
  | .scalar kind => return .ok (.scalar v.name kind)
  | .array .. => do return .ok (.array v.name v.type (← wrapAccessor target v))
  | _ => return .error (.unsupportedVariable v.name v.type)

def publicVariables (m : Semantic.Module) : List Semantic.Variable :=
  m.globals.filter (!·.isPrivate)

def wrapVariables (target : Target) (moduleName : String) :
    List Semantic.Variable → Alloc (Reported (List Wrapper.Variable))
  | [] => return ⟨[], []⟩
  | v :: rest => do
    let one ← wrapVariable target v
    let more ← wrapVariables target moduleName rest
    match one with
    | .ok w => return ⟨w :: more.value, more.reports⟩
    | .error e => return ⟨more.value, reportAt moduleName (some v.name) v.span e :: more.reports⟩

/-! ### Sections that a target may lack -/

/-- The report that a section is left out, if there is anything in it. -/
def sectionReport (target : Target) (m : Semantic.Module) (feature : Feature) (isEmpty : Bool) :
    List Diagnostic :=
  if isEmpty then [] else [reportAt m.name none m.span (.unsupportedFeature feature target)]

/-- The overload sets of a module. -/
def wrapInterfaces (target : Target) (m : Semantic.Module) (outcomes : List Outcome) :
    Reported (List Wrapper.Interface) :=
  if target.supportsInterfaces then
    ⟨(m.interfaces.filter (!·.isInline)).filterMap (restrictInterface outcomes), []⟩
  else ⟨[], sectionReport target m .interfaces m.interfaces.isEmpty⟩

def wrapClassList (target : Target) (moduleName : String) :
    List Semantic.Class → Alloc (Reported (List Wrapper.Class))
  | [] => return ⟨[], []⟩
  | c :: rest => do
    let one ← wrapClass target moduleName c
    let more ← wrapClassList target moduleName rest
    return ⟨one.value :: more.value, one.reports ++ more.reports⟩

/-- The classes of a module. -/
def wrapClasses (target : Target) (m : Semantic.Module) : Alloc (Reported (List Wrapper.Class)) :=
  if target.supportsClasses then wrapClassList target m.name m.classes
  else return ⟨[], sectionReport target m .classes m.classes.isEmpty⟩

/-! ### Modules -/

/-- Wraps the parts of a module in turn. -/
def wrapParts (target : Target) (m : Semantic.Module) : Alloc (Reported Wrapper.Module) := do
  let outcomes ← wrapFunctions target m
  let interfaces := wrapInterfaces target m outcomes
  let classes ← wrapClasses target m
  let globals ← wrapVariables target m.name (publicVariables m)
  let name ← Alloc.freshName ScopeTree.root ("bind_c_" ++ m.name)
  return {
    value := {
      name
      wraps := m.name
      target
      globals := globals.value
      functions := outcomes.filterMap (·.wrapper?)
      initFunction := m.initFunction.bind (wrapperName? outcomes)
      freeFunction := m.freeFunction.bind (wrapperName? outcomes)
      interfaces := interfaces.value
      classes := classes.value
      removedFunctions := (outcomes.filter (·.failure?.isSome)).map (·.function.name) }
    reports :=
      reportOutcomes m.name (·.name) outcomes ++ interfaces.reports ++ classes.reports
        ++ globals.reports }

/-- A letter of ASCII or an underscore, then such or digits. -/
def isIdentifier (name : String) : Bool :=
  match name.toList with
  | [] => false
  | c :: rest => (c.isAlpha || c = '_') && rest.all fun c => c.isAlphanum || c = '_'

/-- Wraps a module for a target. -/
def wrapModule (target : Target) (m : Semantic.Module) :
    Except WrapFailure (Reported WrappedModule) :=
  if isIdentifier m.name then
    let (made, scopes) := (wrapParts target m).run (ScopeTree.new target m.name m.usedSymbols)
    .ok ⟨⟨made.value, scopes⟩, made.reports⟩
  else .error (.moduleNameUnavailable m.name)

end AbiBridge
