import AbiBridge.Diagnostic.Sink
import AbiBridge.Semantic.Module
import AbiBridge.Target

/-! # Why something cannot be wrapped

A failure concerns one unit (a function, an attribute, a variable, a section of the module) and becomes
a diagnostic; only a module that cannot be named fails as a whole. -/

namespace AbiBridge

/-- A section of a module that a target may not support. -/
inductive Feature where
  | interfaces
  | classes
deriving DecidableEq, Repr

def Feature.text : Feature → String
  | .interfaces => "Interface"
  | .classes => "Class"

inductive WrapFailure where
  /-- An argument whose type has no form at the boundary. -/
  | unsupportedArgument (function argument : String) (type : ValueType)
  /-- A result that cannot be delivered. -/
  | unsupportedResult (function result : String) (type : ValueType)
  /-- An attribute that cannot be exposed. -/
  | unsupportedAttribute (className member : String) (type : ValueType)
  /-- A section the target has no counterpart for. -/
  | unsupportedFeature (feature : Feature) (target : Target)
  /-- A variable that is neither a scalar nor an array. -/
  | unsupportedVariable (variableName : String) (type : ValueType)
  /-- A module whose name is no identifier. -/
  | moduleNameUnavailable (moduleName : String)
deriving Repr

namespace WrapFailure

def message : WrapFailure → String
  | .unsupportedArgument function argument type =>
    "function '" ++ function ++ "' cannot be wrapped: argument '" ++ argument ++ "' of type "
      ++ type.text ++ " has no ABI representation"
  | .unsupportedResult function result type =>
    "don't know how to return an object of type " ++ type.text ++ " ('" ++ result ++ "' of '"
      ++ function ++ "') to C code"
  | .unsupportedAttribute className member type =>
    "attribute '" ++ member ++ "' of class '" ++ className ++ "' has type " ++ type.text
      ++ ", which cannot be exposed yet"
  | .unsupportedFeature feature target =>
    feature.text ++ " wrapping is not yet supported for " ++ target.name
  | .unsupportedVariable variableName type =>
    "module variable '" ++ variableName ++ "' of type " ++ type.text ++ " cannot be wrapped yet"
  | .moduleNameUnavailable moduleName =>
    "module name '" ++ moduleName ++ "' cannot produce a wrapper module name"

def code : WrapFailure → Nat
  | .unsupportedArgument .. => 100
  | .unsupportedResult .. => 200
  | .unsupportedAttribute .. => 300
  | .unsupportedFeature .. => 400
  | .unsupportedVariable .. => 401
  | .moduleNameUnavailable _ => 500

def severity : WrapFailure → Severity
  | .unsupportedResult .. | .moduleNameUnavailable _ => .fatal
  | _ => .warning

def diagnostic (e : WrapFailure) (location : Location) : Diagnostic :=
  .make e.code e.severity e.message location

end WrapFailure

end AbiBridge
