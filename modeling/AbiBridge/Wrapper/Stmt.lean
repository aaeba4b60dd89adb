import AbiBridge.Wrapper.Expr

/-! # Statements of wrapper bodies

The body of a wrapper tests which optional arguments are present, and at each leaf of that tree of tests
reinterprets the pointers that were given and makes the call. `leafBlocks` and `countConditionals`
describe the tree. -/

namespace AbiBridge.Wrapper

inductive Stmt where
  /-- Reinterprets the pointer `ptr` as the native local `target` with the given extents, of which
  scalars and class instances have none. -/
  | reinterpret (ptr target : String) (sizes : List Expr)
  | branch (condition : Expr) (body orelse : List Stmt)
  /-- Copies into an array or object, rebinds any other variable. -/
  | assign (lhs rhs : Expr)
  /-- Rebinds without copying. -/
  | aliasAssign (lhs rhs : Expr)
  | allocate (var : String) (shape : List Expr)
  /-- Runs over the elements of a collection; `counter`, if there is one, holds the position of
  `element` from zero. -/
  | forEach (element iterable : String) (counter : Option String) (body : List Stmt)
  /-- Binds the address of `source` to the pointer `ptr`. -/
  | addressOf (source ptr : String)
  | deallocate (var : String)
  | eval (e : Expr)

instance : Inhabited Stmt := ⟨.eval default⟩

namespace Stmt

def isConditional : Stmt → Bool
  | .branch .. => true
  | _ => false

mutual

/-- How many tests a statement holds, at any depth. -/
def conditionals : Stmt → Nat
  | .branch _ body orelse => 1 + countConditionals body + countConditionals orelse
  | .forEach _ _ _ body => countConditionals body
  | _ => 0

/-- How many tests a block holds, at any depth. -/
def countConditionals : List Stmt → Nat
  | [] => 0
  | s :: rest => s.conditionals + countConditionals rest

end

mutual

/-- The leaves below a test, none for any other statement. -/
def leaves : Stmt → List (List Stmt)
  | .branch _ body orelse =>
    (if body.any isConditional then branchLeaves body else [body])
      ++ (if orelse.any isConditional then branchLeaves orelse else [orelse])
  | _ => []

/-- The leaves below the tests of a block. -/
def branchLeaves : List Stmt → List (List Stmt)
  | [] => []
  | s :: rest => s.leaves ++ branchLeaves rest

end

/-- The blocks without a test at the leaves of the tree of tests: a block with a test is split into its
branches, any other is a leaf. -/
def leafBlocks (block : List Stmt) : List (List Stmt) :=
  if block.any isConditional then branchLeaves block else [block]

end Stmt

end AbiBridge.Wrapper
