import AbiBridge.Digest.Sha256
import AbiBridge.Json.Printer
import AbiBridge.Pipeline.Options
import AbiBridge.Semantic.Codec
import AbiBridge.Text.Blank
import AbiBridge.Wrap.Module

/-! # Runs over several modules

Modules are wrapped one by one, each with a scope tree and a sink of its own. The fingerprint of a run is
the digest of the JSON text of what was made, so equal texts have equal fingerprints. -/

namespace AbiBridge

/-- Why a run could not start. -/
inductive InputFailure where
  | invalidOptions
  | invalidModules
deriving DecidableEq, Repr

def InputFailure.message : InputFailure → String
  | .invalidOptions => "invalid options"
  | .invalidModules => "invalid module input"

/-- What a run delivers. -/
structure Output where
  /-- No fatal diagnostic, and no warning where warnings are denied. -/
  success : Bool
  modules : List WrappedModule
  diagnostics : Sink
  fingerprint : String
  error : Option InputFailure := none

/-- The JSON text that the fingerprint is taken of. -/
def canonicalText (modules : List WrappedModule) : String :=
  (Json.list WrappedModule.toJson modules).render

def fingerprint (modules : List WrappedModule) : String := Sha256.hexDigest (canonicalText modules)

namespace Output

/-- A run that could not start. -/
def failed (e : InputFailure) : Output :=
  { success := false, modules := [], diagnostics := {}, fingerprint := "", error := some e }

/-- The exit status of a run. -/
def exitCode (o : Output) : Nat := if o.success then 0 else 1

/-- The wrapper of the first module of that name. -/
def module? (o : Output) (name : String) : Option WrappedModule :=
  o.modules.find? (·.module.wraps == name)

def toJson (o : Output) : Json :=
  .obj ([("success", .bool o.success), ("modules", .list WrappedModule.toJson o.modules),
    ("diagnostics", o.diagnostics.toJson), ("fingerprint", .str o.fingerprint)]
    ++ match o.error with
      | none => []
      | some e => [("error", .str e.message)])

end Output

/-- What wrapping one module made, if anything, and all that it had to report. -/
def wrapReported (target : Target) (m : Semantic.Module) : Option WrappedModule × List Diagnostic :=
  match wrapModule target m with
  | .ok made => (some made.value, made.reports)
  | .error e => (none, [e.diagnostic ⟨m.name, none, m.span⟩])

/-- Wraps modules in turn, collecting the diagnostics of each in a sink of its own first. -/
def wrapEach (options : Options) (sink : Sink) : List Semantic.Module → List WrappedModule × Sink
  | [] => ([], sink)
  | m :: rest =>
    let (made, reports) := wrapReported options.target m
    let own := (Sink.withCap options.maxDiagnostics).reportAll reports
    let (more, sink) := wrapEach options (sink.collect own) rest
    (made.toList ++ more, sink)

/-- Wraps every module on its own, in the order given. -/
def wrapAll (modules : List Semantic.Module) (options : Options) : Output :=
  let (made, sink) := wrapEach options (Sink.withCap options.maxDiagnostics) modules
  { success := !sink.hasFatal && !(options.denyWarnings && sink.hasWarnings)
    modules := made
    diagnostics := sink
    fingerprint := fingerprint made }

/-- The options of a text; a blank one stands for the defaults. -/
def readOptions (text : String) : Option Options :=
  if Text.isBlankText text then some {} else Options.parse? text

/-- The modules of a text. -/
def readModules (text : String) : Option (List Semantic.Module) :=
  (Json.parse? text).bind (Decoder.list (Semantic.Module.decode true) Json.maxDepth)

/-- Wraps the modules of a JSON text under the options of another. Options are read first. -/
def wrapText (modules options : String) : Output :=
  match readOptions options with
  | none => .failed .invalidOptions
  | some options =>
    match readModules modules with
    | none => .failed .invalidModules
    | some modules => wrapAll modules options

/-- Wraps the modules of a JSON text under the options of another, and delivers a JSON text as well. -/
def wrapDocument (modules options : String) : String := (wrapText modules options).toJson.render

end AbiBridge
