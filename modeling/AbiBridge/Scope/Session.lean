import AbiBridge.Scope.Tree

/-! # Sessions on a scope tree

A session is a list of requests to one tree. A request for a scope that does not exist ends the session
without an answer. -/

namespace AbiBridge.ScopeTree

/-- A request that concerns one scope. -/
inductive Request where
  | child (name : String) (kind : ScopeKind)
  | fresh (hint : String)
  | symbol (name : String)
  | expected (name : String)
  | declare (l : Wrapper.Local)
  | find (name : String)
  | info

/-- What can be told about a scope. -/
structure Info where
  scope : Scope
  locals : List Wrapper.Local

inductive Answer where
  | opened (id : ScopeId)
  | named (name : String)
  | expected (name : Option String)
  | declared (l : Wrapper.Local)
  | found (l : Option Wrapper.Local)
  | info (i : Info)

/-- Serves a request for an existing scope. -/
def serve (t : ScopeTree) (id : ScopeId) : Request → Option (Answer × ScopeTree) := fun request =>
  match t.scope? id with
  | none => none
  | some s =>
    match request with
    | .child name kind => let (c, t') := t.newChild id name kind; some (.opened c, t')
    | .fresh hint => let (n, t') := t.freshName id hint; some (.named n, t')
    | .symbol name => let (n, t') := t.insertSymbol id name; some (.named n, t')
    | .expected name => some (.expected (t.expectedName? id name), t)
    | .declare l => some (.declared l, t.insertVariable id l)
    | .find name => some (.found (t.find? id name), t)
    | .info => some (.info ⟨s, t.locals id⟩, t)

end AbiBridge.ScopeTree
