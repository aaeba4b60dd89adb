import AbiBridge.Naming.Free
import AbiBridge.Wrapper.Codec

/-! # Scope trees

The scopes of a wrapper module follow the nesting of its code: the module, the wrapper functions in it,
the fill loops in them. Every scope knows the symbols it owns, the names that stand for declared ones,
and the locals declared in it. A scope is addressed by its place in the list of scopes; a child comes
after its parent, so a walk outwards visits at most as many scopes as there are.

A new name must differ from what the scope can see: everything its ancestors own and everything used
inside it. -/

namespace AbiBridge

/-- The kind of code a scope stands for. -/
inductive ScopeKind where
  | module
  | function
  | loop
deriving DecidableEq, Repr, Inhabited

def ScopeKind.tag : ScopeKind → String
  | .module => "module"
  | .function => "function"
  | .loop => "loop"

def ScopeKind.decode : Decoder ScopeKind := fun room j =>
  match Json.caseName? room j with
  | some "module" => some .module
  | some "function" => some .function
  | some "loop" => some .loop
  | _ => none

/-! ### Ascending lists

Symbols are listed in ascending order of their code points, without repetition. -/

namespace Ascending

/-- Inserts a string into an ascending list, unless it is there. -/
def insert (s : String) : List String → List String
  | [] => [s]
  | x :: rest => if s < x then s :: x :: rest else if s = x then x :: rest else x :: insert s rest

def ofList (l : List String) : List String := l.foldl (fun acc s => insert s acc) []

/-- Inserts a pair into a list that ascends by its first components, replacing one with the same. -/
def insertPair {α : Type} (k : String) (v : α) : List (String × α) → List (String × α)
  | [] => [(k, v)]
  | x :: rest =>
    if k < x.1 then (k, v) :: x :: rest
    else if k = x.1 then (k, v) :: rest
    else x :: insertPair k v rest

end Ascending

structure Scope where
  name : String
  kind : ScopeKind
  parent : Option ScopeId
  children : List ScopeId
  /-- The names the scope owns, ascending. -/
  symbols : List String
  /-- Declared names with the names used for them, ascending. -/
  expected : List (String × String)
  locals : List Wrapper.Local

def Scope.toJson (s : Scope) : Json :=
  .obj [("name", .str s.name), ("kind", .str s.kind.tag), ("parent", .ofOption .nat s.parent),
    ("children", .list .nat s.children), ("symbols", .list .str s.symbols),
    ("expected", .obj (s.expected.map fun p => (p.1, .str p.2))),
    ("locals", .list Wrapper.Local.toJson s.locals)]

/-- The scopes of one wrapper module. The first is the root. -/
structure ScopeTree where
  target : Target
  scopes : List Scope

namespace ScopeTree

def toJson (t : ScopeTree) : Json :=
  .obj [("target", t.target.toJson), ("scopes", .list Scope.toJson t.scopes)]

/-- A tree whose root owns the names `used`. -/
def new (target : Target) (name : String) (used : List String) : ScopeTree :=
  ⟨target, [⟨name, .module, none, [], Ascending.ofList used, [], []⟩]⟩

def root : ScopeId := 0

variable (t : ScopeTree)

def size : Nat := t.scopes.length

def scope? (id : ScopeId) : Option Scope := t.scopes[id]?

def modifyScope (id : ScopeId) (f : Scope → Scope) : ScopeTree :=
  { t with scopes := t.scopes.modify id f }

/-- Opens a scope inside `parent`. -/
def newChild (parent : ScopeId) (name : String) (kind : ScopeKind) : ScopeId × ScopeTree :=
  let opened : ScopeTree := { t with scopes := t.scopes ++ [⟨name, kind, some parent, [], [], [], []⟩] }
  (t.size, opened.modifyScope parent fun s => { s with children := s.children ++ [t.size] })

/-! ### Walks -/

def parent? (id : ScopeId) : Option ScopeId := (t.scope? id).bind (·.parent)

def children (id : ScopeId) : List ScopeId := ((t.scope? id).map (·.children)).getD []

/-- A scope and at most `fuel - 1` of its ancestors. -/
def chainWithin (id : ScopeId) : Nat → List ScopeId
  | 0 => []
  | fuel + 1 =>
    id :: match t.parent? id with
      | none => []
      | some p => chainWithin p fuel

/-- A scope and its ancestors, the root last. -/
def chain (id : ScopeId) : List ScopeId := t.chainWithin id t.size

/-- A scope and its descendants down to `fuel - 1` levels below it. -/
def subtreeWithin : Nat → ScopeId → List ScopeId
  | 0, _ => []
  | fuel + 1, id => id :: (t.children id).flatMap (subtreeWithin fuel)

/-- A scope and its descendants, each before its children. -/
def subtree (id : ScopeId) : List ScopeId := t.subtreeWithin t.size id

def symbolsOf (id : ScopeId) : List String := ((t.scope? id).map (·.symbols)).getD []

def localsOf (id : ScopeId) : List Wrapper.Local := ((t.scope? id).map (·.locals)).getD []

def expectedOf (id : ScopeId) : List (String × String) := ((t.scope? id).map (·.expected)).getD []

/-- What a new name in the scope must differ from. -/
def visibleSymbols (id : ScopeId) : List String :=
  (t.chain id).tail.flatMap t.symbolsOf ++ (t.subtree id).flatMap t.symbolsOf

/-! ### Names -/

/-- A name made from `hint` that is unique along the scope's chain and not reserved. -/
def freshName (id : ScopeId) (hint : String) : String × ScopeTree :=
  let name := t.target.freeName (t.visibleSymbols id) hint
  (name, t.modifyScope id fun s => { s with symbols := Ascending.insert name s.symbols })

/-- The name used in a scope for a declared one; the first request makes it. -/
def insertSymbol (id : ScopeId) (name : String) : String × ScopeTree :=
  match (t.expectedOf id).lookup name with
  | some existing => (existing, t)
  | none =>
    let (actual, t') := t.freshName id name
    (actual, t'.modifyScope id fun s =>
      { s with expected := Ascending.insertPair name actual s.expected })

/-- The name used for a declared one, in the scope or the nearest ancestor that has one. -/
def expectedName? (id : ScopeId) (name : String) : Option String :=
  (t.chain id).findSome? fun s => (t.expectedOf s).lookup name

/-- Declares a local. -/
def insertVariable (id : ScopeId) (l : Wrapper.Local) : ScopeTree :=
  t.modifyScope id fun s =>
    { s with symbols := Ascending.insert l.name s.symbols, locals := s.locals ++ [l] }

/-- The local of a name, in the scope or the nearest ancestor that declares one. -/
def find? (id : ScopeId) (name : String) : Option Wrapper.Local :=
  (t.chain id).findSome? fun s => (t.localsOf s).find? (·.name == name)

/-- The locals of a scope and of the scopes inside it. -/
def locals (id : ScopeId) : List Wrapper.Local := (t.subtree id).flatMap t.localsOf

end ScopeTree

end AbiBridge
