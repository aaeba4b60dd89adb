import AbiBridge.Scope.Tree

/-! # Allocating names

Marshalling is a computation that allocates names in a scope tree. -/

namespace AbiBridge

/-- A computation that allocates names. -/
abbrev Alloc := StateM ScopeTree

namespace Alloc

def freshName (id : ScopeId) (hint : String) : Alloc String := fun t => t.freshName id hint

def insertSymbol (id : ScopeId) (name : String) : Alloc String := fun t => t.insertSymbol id name

def newChild (parent : ScopeId) (name : String) (kind : ScopeKind) : Alloc ScopeId :=
  fun t => t.newChild parent name kind

def declare (id : ScopeId) (l : Wrapper.Local) : Alloc Unit := fun t => ((), t.insertVariable id l)

def locals (id : ScopeId) : Alloc (List Wrapper.Local) := fun t => (t.locals id, t)

/-- One name per dimension, `stem_1` up to `stem_rank` before collisions. -/
def series (id : ScopeId) (stem : String) (rank : Nat) : Alloc (List String) :=
  (List.range' 1 rank).mapM fun i => freshName id (stem ++ "_" ++ Nat.repr i)

/-- A wrapper function's name and the scope of its body. -/
def openFunction (hint : String) : Alloc (String × ScopeId) := do
  let name ← freshName ScopeTree.root hint
  let scope ← newChild ScopeTree.root name .function
  return (name, scope)

end Alloc

end AbiBridge
