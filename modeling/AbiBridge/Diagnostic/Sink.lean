import AbiBridge.Diagnostic.Basic
import AbiBridge.Storage.Word

/-! # Diagnostic sinks

A sink stores the first diagnostics of each severity up to a cap and counts all of them. The totals are words. In a
run they count diagnostics that exist, for which words never run out; totals that were read can say anything, and
their sums wrap around. -/

namespace AbiBridge

structure Sink where
  fatal : List Diagnostic := []
  warnings : List Diagnostic := []
  totalFatal : Nat := 0
  totalWarnings : Nat := 0
  /-- How many diagnostics of each severity are stored. -/
  cap : Nat := 20
deriving DecidableEq, Repr, Inhabited

namespace Sink

/-- The cap of a sink that was given none. -/
def defaultCap : Nat := 20

/-- An empty sink. -/
def withCap (cap : Nat) : Sink := { cap }

variable (s : Sink)

/-- Stores a diagnostic of the run while there is room for it, and counts it. -/
def note (d : Diagnostic) : Sink :=
  match d.severity with
  | .fatal =>
    { s with
      fatal := if s.fatal.length < s.cap then s.fatal ++ [d] else s.fatal
      totalFatal := s.totalFatal + 1 }
  | .warning =>
    { s with
      warnings := if s.warnings.length < s.cap then s.warnings ++ [d] else s.warnings
      totalWarnings := s.totalWarnings + 1 }

/-- Reports the diagnostics of a run. -/
def reportAll (ds : List Diagnostic) : Sink := ds.foldl note s

def hasFatal : Bool := decide (0 < s.totalFatal)

def hasWarnings : Bool := decide (0 < s.totalWarnings)

def isEmpty : Bool := s.totalFatal == 0 && s.totalWarnings == 0

/-- The sink with its totals as words. -/
def inWords : Sink :=
  { s with totalFatal := Word.wrap s.totalFatal, totalWarnings := Word.wrap s.totalWarnings }

/-- Reports a diagnostic to a sink whose totals can say anything. -/
def report (d : Diagnostic) : Sink := (s.note d).inWords

/-- Takes over a sink of the same run: what it stored as far as there is room, and its totals, of which none
is taken to be less than what it stored. -/
def collect (other : Sink) : Sink :=
  { s with
    totalFatal := s.totalFatal + max other.totalFatal other.fatal.length
    totalWarnings := s.totalWarnings + max other.totalWarnings other.warnings.length
    fatal := s.fatal ++ other.fatal.take (s.cap - s.fatal.length)
    warnings := s.warnings ++ other.warnings.take (s.cap - s.warnings.length) }

/-- Takes over a sink when the totals of the two can say anything. -/
def extend (other : Sink) : Sink := (s.collect other).inWords

def toJson : Json :=
  .obj [("fatal", .list Diagnostic.toJson s.fatal), ("warnings", .list Diagnostic.toJson s.warnings),
    ("total_fatal", .nat s.totalFatal), ("total_warnings", .nat s.totalWarnings)]

/-- Reads a sink; the cap is not part of its JSON form. -/
def decode : Decoder Sink := fun room j => do
  let f ← Json.fields? ["fatal", "warnings", "total_fatal", "total_warnings"] false room j
  let fatal ← f.required "fatal" (.list Diagnostic.decode)
  let warnings ← f.required "warnings" (.list Diagnostic.decode)
  let totalFatal ← f.required "total_fatal" (.natBits 64)
  let totalWarnings ← f.required "total_warnings" (.natBits 64)
  return { fatal, warnings, totalFatal, totalWarnings }

end Sink

end AbiBridge
