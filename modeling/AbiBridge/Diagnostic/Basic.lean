import AbiBridge.Semantic.Span

/-! # Diagnostics

What went wrong where. The code decides the category: a hundred codes for each part of the work. -/

namespace AbiBridge

/-- A fatal diagnostic drops the function, attribute or class it concerns, never the rest of the module. -/
inductive Severity where
  | warning
  | fatal
deriving DecidableEq, Repr, Inhabited

namespace Severity

def text : Severity → String
  | .warning => "warning"
  | .fatal => "fatal"

/-- The letter before a code. -/
def letter : Severity → String
  | .warning => "W"
  | .fatal => "F"

def decode : Decoder Severity := fun room j =>
  match Json.caseName? room j with
  | some "warning" => some .warning
  | some "fatal" => some .fatal
  | _ => none

end Severity

inductive Category where
  | arguments
  | results
  | attributes
  | module
  | naming
deriving DecidableEq, Repr, Inhabited

namespace Category

def text : Category → String
  | .arguments => "argument"
  | .results => "result"
  | .attributes => "attribute"
  | .module => "module"
  | .naming => "naming"

def decode : Decoder Category := fun room j =>
  match Json.caseName? room j with
  | some "argument" => some .arguments
  | some "result" => some .results
  | some "attribute" => some .attributes
  | some "module" => some .module
  | some "naming" => some .naming
  | _ => none

/-- The category of a code. -/
def ofCode (code : Nat) : Category :=
  match code / 100 with
  | 1 => .arguments
  | 2 => .results
  | 3 => .attributes
  | 4 => .module
  | _ => .naming

end Category

/-- Where a diagnostic was raised. -/
structure Location where
  module : String
  symbol : Option String
  span : Semantic.Span
deriving DecidableEq, Repr, Inhabited

namespace Location

def text (l : Location) : String :=
  match l.symbol with
  | some symbol => l.module ++ "::" ++ symbol ++ " (" ++ l.span.text ++ ")"
  | none => l.module ++ " (" ++ l.span.text ++ ")"

/-- The members of the span stand beside those of the location. -/
def toJson (l : Location) : Json :=
  .obj ([("module", .str l.module)]
    ++ (match l.symbol with
        | none => []
        | some s => [("symbol", .str s)])
    ++ l.span.members)

/-- A location is always read by the names of its members. -/
def decode : Decoder Location := fun room j =>
  match j with
  | .arr _ => none
  | j => do
    let f ← Json.fields? (["module", "symbol"] ++ Semantic.Span.fieldNames) false room j
    let module ← f.required "module" .string
    let symbol ← f.optional "symbol" .string
    let span ← Semantic.Span.ofFields? f
    return ⟨module, symbol, span⟩

end Location

structure Diagnostic where
  code : Nat
  severity : Severity
  category : Category
  message : String
  location : Location
deriving DecidableEq, Repr, Inhabited

namespace Diagnostic

/-- A diagnostic in the category of its code. -/
def make (code : Nat) (severity : Severity) (message : String) (location : Location) : Diagnostic :=
  ⟨code, severity, .ofCode code, message, location⟩

def text (d : Diagnostic) : String :=
  d.location.text ++ ": " ++ d.severity.text ++ " " ++ d.severity.letter ++ Nat.repr d.code ++ " ["
    ++ d.category.text ++ "] " ++ d.message

def toJson (d : Diagnostic) : Json :=
  .obj [("code", .nat d.code), ("severity", .str d.severity.text), ("category", .str d.category.text),
    ("message", .str d.message), ("location", d.location.toJson)]

def decode : Decoder Diagnostic := fun room j => do
  let f ← Json.fields? ["code", "severity", "category", "message", "location"] false room j
  let code ← f.required "code" (.natBits 16)
  let severity ← f.required "severity" Severity.decode
  let category ← f.required "category" Category.decode
  let message ← f.required "message" .string
  let location ← f.required "location" Location.decode
  return ⟨code, severity, category, message, location⟩

end Diagnostic

end AbiBridge
