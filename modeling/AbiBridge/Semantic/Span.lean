import AbiBridge.Json.Decode

/-! # Source spans

Lines and columns count from one; a span that starts at line zero marks a node made without a source
position. -/

namespace AbiBridge.Semantic

/-- The stretch of source text a node comes from. -/
structure Span where
  line : Nat := 0
  column : Nat := 0
  endLine : Nat := 0
  endColumn : Nat := 0
deriving DecidableEq, Repr, Inhabited

namespace Span

/-- The empty span at one position. -/
def point (line column : Nat) : Span := ⟨line, column, line, column⟩

def isSynthetic (s : Span) : Bool := s.line == 0

def text (s : Span) : String :=
  if s.isSynthetic then "<synthesized>" else s!"{s.line}:{s.column}"

/-- The members of a span, which also stand beside other members where a span is part of a place. -/
def members (s : Span) : List (String × Json) :=
  [("line", .nat s.line), ("column", .nat s.column), ("end_line", .nat s.endLine),
    ("end_column", .nat s.endColumn)]

def toJson (s : Span) : Json := .obj s.members

def fieldNames : List String := ["line", "column", "end_line", "end_column"]

def ofFields? (f : Json.Fields) : Option Span := do
  let line ← f.required "line" (.natBits 32)
  let column ← f.required "column" (.natBits 32)
  let endLine ← f.required "end_line" (.natBits 32)
  let endColumn ← f.required "end_column" (.natBits 32)
  return ⟨line, column, endLine, endColumn⟩

def decode : Decoder Span := fun room j =>
  (Json.fields? fieldNames false room j).bind ofFields?

end Span

end AbiBridge.Semantic
