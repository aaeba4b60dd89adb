import AbiBridge.Machine.Host

/-! # Scripted hosts

A small language to write hosts in: steps that change what the arguments refer to, and expressions for the
values that are returned. A script reaches the heap through the operations of the heap only. -/

namespace AbiBridge.Script

inductive Expr where
  | value (v : Value)
  | arg (name : String)
  /-- The argument, or a value where it is absent. -/
  | argOr (name : String) (v : Value)
  | present (name : String)
  | argCount
  | noArgs
  /-- How many items an argument has. -/
  | count (name : String)
  /-- The sum of the items of an argument, from the left. -/
  | sum (name : String)
  | element (name : String) (index : List Nat)
  /-- An attribute of an object; one it lacks is `none`. -/
  | field (name member : String)
  /-- A new array, of the given items or of zeros, in native order unless an order is given. -/
  | array (extents : List Nat) (order : Option StorageOrder) (data : Option (List Value))
  /-- A dense native copy of an array. -/
  | copy (name : String)
  /-- A new object with fields that are set in turn. -/
  | new (className : String) (fields : List (String × Expr))
  | list (items : List Expr)
  | set (items : List Expr)
  | tuple (items : List Expr)

inductive Step where
  | fail (message : String)
  | setElement (name : String) (index : List Nat) (e : Expr)
  /-- Copies a value into an array. -/
  | assign (name : String) (e : Expr)
  | setField (name member : String) (e : Expr)
  /-- Frees the buffer of an array, or an object. -/
  | free (name : String)

/-- The array that an argument must be. -/
def arrayArg (args : CallArgs) (name : String) : Except Trap View :=
  match args.require name with
  | .error e => .error e
  | .ok (.array v) => .ok v
  | .ok other => .error (.host ("expected array, got " ++ other.kind.text))

/-- The handle of the object that a value must be. -/
def objectHandle (v : Value) : Except Trap Handle :=
  match v.handle? with
  | some h => .ok h
  | none => .error (.host ("expected object, got " ++ v.kind.text))

/-- The handle of the object that an argument must be. -/
def objectArg (args : CallArgs) (name : String) : Except Trap Handle :=
  match args.require name with
  | .error e => .error e
  | .ok v => objectHandle v

/-- The items of an argument. -/
def argItems (args : CallArgs) (name : String) : HeapM (List Value) := do
  let v ← Run.ofExcept (args.require name)
  Run.read (·.itemsOf v)

/-- The sum of numbers, from the left. -/
def sumItems : Binary64 → List Value → Except Trap Binary64
  | total, [] => .ok total
  | total, v :: rest =>
    match v.asFloat with
    | .error e => .error e
    | .ok x => sumItems (total.add x) rest

variable (native : StorageOrder) (args : CallArgs)

mutual

def evalExpr : Expr → HeapM Value
  | .value v => return v
  | .arg name => Run.ofExcept (args.require name)
  | .argOr name v => return (args.get? name).getD v
  | .present name => return .bool (args.isPresent name)
  | .argCount => return .int args.count
  | .noArgs => return .bool args.isEmpty
  | .count name => do
    let items ← argItems args name
    return .int items.length
  | .sum name => do
    let items ← argItems args name
    return .float (← Run.ofExcept (sumItems .zero items))
  | .element name index => do
    let v ← Run.ofExcept (arrayArg args name)
    HeapM.element v index
  | .field name member => do
    let h ← Run.ofExcept (objectArg args name)
    let o ← HeapM.object h
    return (o.fields.get? member).getD .none
  | .array extents order data => do
    let order := order.getD native
    match data with
    | some items => return .array (.contiguous (← HeapM.allocBuffer items) extents order)
    | none => return .array (← HeapM.newArray extents order)
  | .copy name => do
    let v ← Run.ofExcept (arrayArg args name)
    let dense ← HeapM.newArray v.extents native
    HeapM.copyInto dense (.array v)
    return .array dense
  | .new className fields => do
    let h ← HeapM.allocObject className
    storeFields h fields
    return .object h
  | .list items => do return .list (← evalItems items)
  | .set items => do return .set (← evalItems items)
  | .tuple items => do return .tuple (← evalItems items)

def evalItems : List Expr → HeapM (List Value)
  | [] => return []
  | e :: rest => do
    let v ← evalExpr e
    let vs ← evalItems rest
    return v :: vs

def storeFields (h : Handle) : List (String × Expr) → HeapM Unit
  | [] => return ()
  | (name, e) :: rest => do
    let v ← evalExpr e
    HeapM.setField h name v
    storeFields h rest

end

/-- Runs a step. The argument is fetched before the expression is evaluated. -/
def runStep : Step → HeapM Unit
  | .fail message => Run.trap (.host message)
  | .setElement name index e => do
    let view ← Run.ofExcept (arrayArg args name)
    let v ← evalExpr native args e
    HeapM.setElement view index v
  | .assign name e => do
    let view ← Run.ofExcept (arrayArg args name)
    let v ← evalExpr native args e
    HeapM.copyInto view v
  | .setField name member e => do
    let h ← Run.ofExcept (objectArg args name)
    let v ← evalExpr native args e
    HeapM.setField h member v
  | .free name => do
    match ← Run.ofExcept (args.require name) with
    | .array view => HeapM.free view.buffer
    | v =>
      let h ← Run.ofExcept (objectHandle v)
      HeapM.free h

def runSteps : List Step → HeapM Unit
  | [] => return ()
  | s :: rest => do
    runStep native args s
    runSteps rest

/-- The host that runs steps and returns values. -/
def host (native : StorageOrder) (steps : List Step) (returns : List Expr) : Host := fun args => do
  runSteps native args steps
  evalItems native args returns

end AbiBridge.Script
