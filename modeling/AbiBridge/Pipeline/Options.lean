import AbiBridge.Diagnostic.Sink
import AbiBridge.Json.Reader
import AbiBridge.Target

/-! # Options of a run -/

namespace AbiBridge

structure Options where
  target : Target := .fortran
  /-- A warning makes the run fail. -/
  denyWarnings : Bool := false
  /-- How many diagnostics of each severity are kept. -/
  maxDiagnostics : Nat := Sink.defaultCap
deriving DecidableEq, Repr, Inhabited

namespace Options

def toJson (o : Options) : Json :=
  .obj [("target", o.target.toJson), ("deny_warnings", .bool o.denyWarnings),
    ("max_diagnostics", .nat o.maxDiagnostics)]

/-- Reads options. All have defaults, and there must be no others. -/
def decode : Decoder Options := fun room j => do
  let f ← Json.fields? ["target", "deny_warnings", "max_diagnostics"] true room j
  let target ← f.defaulted "target" Target.fortran Target.decode
  let denyWarnings ← f.defaulted "deny_warnings" false .bool
  let maxDiagnostics ← f.defaulted "max_diagnostics" Sink.defaultCap (.natBits 64)
  return { target, denyWarnings, maxDiagnostics }

def parse? (text : String) : Option Options := (Json.parse? text).bind (decode Json.maxDepth)

end Options

end AbiBridge
