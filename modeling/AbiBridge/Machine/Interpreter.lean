import AbiBridge.Machine.Host
import AbiBridge.Wrapper.Module

/-! # Executing wrapper bodies

The interpreter runs the body of a wrapper function for a target. Expressions are evaluated in a frame of
locals over the globals of the module; they change the heap only through the hosts they call. Statements
give a new frame. A call delivers the return slot and the output parameters. -/

namespace AbiBridge

open Wrapper

/-- What the execution of wrappers needs to know. -/
structure Interpreter where
  module : Wrapper.Module
  /-- The target whose storage order and index base count as native. -/
  target : Target
  hosts : Hosts := []
  globals : Bindings Value := []

/-- What an execution works on: the heap, and the log of the host calls it made. -/
structure Machine where
  heap : Heap := {}
  calls : List HostCall := []

/-- A step of an execution. -/
abbrev Exec := Run Machine

/-- The locals of one activation of a wrapper. -/
structure Frame where
  function : Wrapper.Function
  locals : Bindings Value

namespace Frame

/-- The type that a local was declared with. -/
def declaredType? (f : Frame) (name : String) : Option ValueType :=
  (f.function.local? name).bind Local.valueType?

def set (f : Frame) (name : String) (v : Value) : Frame :=
  { f with locals := f.locals.set name v }

/-- The class whose method the wrapper wraps. -/
def owner? (f : Frame) : Option String :=
  match f.function.origin with
  | .method key => some key.className
  | _ => none

end Frame

/-- What a call delivers. -/
structure CallOutcome where
  returned : Option Value
  outputs : List Value

/-- The pointer that a call returned, unless it was null. -/
def CallOutcome.pointer? (o : CallOutcome) : Option Handle :=
  match o.returned with
  | some (.ptr h) => h
  | _ => none

/-- The value of a call: nothing, the one result, or the tuple of several. -/
def resultValue : List Value → Value
  | [] => .none
  | [v] => v
  | vs => .tuple vs

namespace Exec

/-- A computation on the heap as a step. -/
def onHeap {α : Type} (x : HeapM α) : Exec α :=
  Run.within (·.heap) (fun m heap => { m with heap }) x

def mismatch {α : Type} (cause : Mismatch) : Exec α := Run.trap (.typeMismatch cause)

end Exec

namespace Interpreter

open Exec

variable (it : Interpreter)

/-- The index base of the target. -/
def base : Int := it.target.indexBase

/-- The value of a local, or else of a global. -/
def lookup (f : Frame) (name : String) : Except Trap Value :=
  match (f.locals.get? name).or (it.globals.get? name) with
  | some v => .ok v
  | none => .error (.undefinedVariable name)

def lookupArray (f : Frame) (name : String) : Exec View := do
  match ← Run.ofExcept (it.lookup f name) with
  | .array v => return v
  | other => mismatch (.notIndexable other.kind)

/-- A position from zero, given one that counts from the index base; `extents` go into the report. -/
def position (extents : List Nat) (n : Int) : Except Trap Nat :=
  if 0 ≤ n then .ok n.toNat else .error (.outOfBounds [n + it.base] extents)

/-- Calls the host of a function, after noting the call. -/
def callHost (f : Frame) (name : String) (args : CallArgs) : Exec Value := do
  match it.hosts.resolve? f.owner? name with
  | none => Run.trap (.unknownCallable name)
  | some (callee, host) =>
    Run.modify fun m => { m with calls := m.calls ++ [⟨callee, args, m.heap⟩] }
    return resultValue (← onHeap (host args))

/-- The extent of a dimension of an array, or the length of a collection. -/
def extent? (v : Value) (dim : Nat) : Option Int :=
  match v with
  | .array view => view.extents[dim]?.map signed64
  | v => if dim = 0 then v.items?.map fun items => items.length else none

/-- The value of an attribute. -/
def fieldOf (v : Value) (name : String) : Exec Value :=
  match v with
  | .object h => do
    let o ← onHeap (HeapM.object h)
    match o.fields.get? name with
    | some x => return x
    | none => Run.trap (.missingAttribute o.className name)
  | v => mismatch (.noAttribute v.kind name)

/-! ### Expressions -/

mutual

def eval (f : Frame) : Expr → Exec Value
  | .var name => Run.ofExcept (it.lookup f name)
  | .int n => return .int n
  | .bool b => return .bool b
  | .null => return .ptr none
  | .isNotNull e => do
    let v ← eval f e
    return .bool (!v.isNull)
  | .add a b => do
    let x ← Run.ofExcept (← eval f a).asInt
    let y ← Run.ofExcept (← eval f b).asInt
    return .int (Word.signed (x + y))
  | .mul a b => do
    let x ← Run.ofExcept (← eval f a).asInt
    let y ← Run.ofExcept (← eval f b).asInt
    return .int (Word.signed (x * y))
  | .shape name dim => do
    let v ← Run.ofExcept (it.lookup f name)
    match extent? v dim with
    | some n => return .int n
    | none => mismatch (.noDimension name dim)
  | .index name subscripts => do
    let v ← it.lookupArray f name
    if subscripts.all (!·.isSlice) then
      let index ← evalPositions f subscripts
      onHeap (HeapM.element v index)
    else if subscripts.length = v.rank then
      return .array (← evalSlices f 0 v subscripts)
    else mismatch (.subscriptCount subscripts.length v.rank)
  | .field e name => do
    let v ← eval f e
    fieldOf v name
  | .call name arguments => do
    let args ← evalActuals f 0 arguments
    it.callHost f name ⟨args⟩
  | .tuple items => do
    return .tuple (← evalAll f items)

def evalAll (f : Frame) : List Expr → Exec (List Value)
  | [] => return []
  | e :: rest => do
    let v ← eval f e
    let vs ← evalAll f rest
    return v :: vs

/-- The position from zero that subscripts of single elements denote. -/
def evalPositions (f : Frame) : List Subscript → Exec (List Nat)
  | [] => return []
  | .element e :: rest => do
    let n ← Run.ofExcept (← eval f e).asInt
    let i ← Run.ofExcept (it.position [] (Word.signed (n - it.base)))
    let is ← evalPositions f rest
    return i :: is
  | .slice .. :: _ => mismatch .sliceAsElement

/-- Narrows a view by one slice per dimension, from `dim` on. -/
def evalSlices (f : Frame) (dim : Nat) (v : View) : List Subscript → Exec View
  | [] => return v
  | .slice start stop step :: rest => do
    let first ← Run.ofExcept (← eval f start).asInt
    let last ← match stop with
      | none => pure none
      | some e => do
        let n ← Run.ofExcept (← eval f e).asInt
        pure (some (Word.signed (n - it.base + 1)))
    let by' ← Run.ofExcept (← eval f step).asExtent
    let low ← Run.ofExcept (it.position v.extents (Word.signed (first - it.base)))
    let high ← match last with
      | none => pure none
      | some n => do
        let n ← Run.ofExcept (it.position v.extents n)
        pure (some n)
    evalSlices f (dim + 1) (v.slice dim low high by') rest
  | .element _ :: _ => mismatch .elementAmongSlices

/-- The arguments of a call; one without a keyword is named by its place. -/
def evalActuals (f : Frame) (place : Nat) : List Actual → Exec (List (String × Value))
  | [] => return []
  | .mk keyword e :: rest => do
    let v ← eval f e
    let vs ← evalActuals f (place + 1) rest
    return (keyword.getD ("#" ++ Nat.repr place), v) :: vs

end

/-- Evaluates sizes in turn. -/
def evalExtents (f : Frame) : List Expr → Exec (List Nat)
  | [] => return []
  | e :: rest => do
    let n ← Run.ofExcept (← it.eval f e).asExtent
    let ns ← evalExtents f rest
    return n :: ns

/-! ### Memory -/

/-- The native value behind a pointer: an object as it is; of a buffer, the scalar or the items that the
declared type of the local asks for, else a dense array. -/
def reinterpret (heap : Heap) (f : Frame) (name : String) (h : Handle) (extents : List Nat) :
    Except Trap Value :=
  if heap.isObject h then .ok (.object h)
  else
    match heap.buffer h with
    | .error e => .error e
    | .ok items =>
      let needed := Layout.size extents
      if items.length < needed then .error (.outOfBounds [signed64 needed] [items.length])
      else
        match f.declaredType? name with
        | some (.list _) => .ok (.list (items.take needed))
        | some (.set _) => .ok (.set (items.take needed))
        | some (.uniformTuple ..) => .ok (.tuple (items.take needed))
        | some (.scalar _) =>
          match items with
          | [] => .error (.nullPointer name)
          | x :: _ => .ok x
        | _ => .ok (.array (.contiguous h extents it.target.storageOrder))

/-- A dense native copy of a view. -/
def denseCopy (v : View) : HeapM View := do
  let dense ← HeapM.newArray v.extents it.target.storageOrder
  HeapM.copyInto dense (.array v)
  return dense

/-- The address of a value as it is handed back. An array that is a dense native layout of its whole
buffer is handed back itself, any other as a dense copy. -/
def addressOf (v : Value) : HeapM Handle :=
  match v with
  | .object h => return h
  | .ptr (some h) => return h
  | .array view => do
    let items ← HeapM.buffer view.buffer
    if view.covers items.length it.target.storageOrder then return view.buffer
    else return (← it.denseCopy view).buffer
  | .list items | .set items | .tuple items => HeapM.allocBuffer items
  | .ptr none => Run.trap (.nullPointer v.text)
  | .none => Run.trap (.nullPointer v.text)
  | v => HeapM.allocBuffer [v]

/-- Gives an object the fields of another. -/
def copyObject (dest : Handle) (v : Value) : HeapM Unit :=
  match v with
  | .object src => do
    let o ← HeapM.object src
    Run.update (·.modifyObject dest fun _ => o.fields)
  | v => Run.trap (.typeMismatch (.notAnObject v.kind))

/-! ### Assignments -/

/-- Assigns to a local. A copying assignment writes into the array or object that the local holds; any
other binds the local anew. -/
def assignVar (copying : Bool) (f : Frame) (name : String) (v : Value) : Exec Frame :=
  match f.locals.get? name, copying with
  | some (.array dest), true =>
    match v with
    | .ptr _ => return f.set name v
    | v => do
      onHeap (HeapM.copyInto dest v)
      return f
  | some (.object dest), true => do
    onHeap (copyObject dest v)
    return f
  | _, _ => return f.set name v

/-- What is stored in an attribute: a copying assignment stores a dense copy of an array. -/
def storedValue (copying : Bool) (v : Value) : HeapM Value :=
  match v, copying with
  | .array view, true => do return .array (← it.denseCopy view)
  | v, _ => return v

mutual

def assign (copying : Bool) (f : Frame) : Expr → Value → Exec Frame
  | .var name, v => assignVar copying f name v
  | .tuple targets, v =>
    match v with
    | .tuple items =>
      if items.length = targets.length then assignAll copying f targets items
      else mismatch (.notUnpackable v.kind targets.length)
    | v => mismatch (.notUnpackable v.kind targets.length)
  | .index name subscripts, v => do
    let view ← it.lookupArray f name
    let index ← it.evalPositions f subscripts
    onHeap (HeapM.setElement view index v)
    return f
  | .field e name, v => do
    match ← it.eval f e with
    | .object h =>
      let stored ← onHeap (it.storedValue copying v)
      onHeap (HeapM.setField h name stored)
      return f
    | other => mismatch (.noAttributes other.kind)
  | other, _ => mismatch (.notAssignable other)

def assignAll (copying : Bool) (f : Frame) : List Expr → List Value → Exec Frame
  | e :: es, v :: vs => do
    let f ← assign copying f e v
    assignAll copying f es vs
  | _, _ => return f

end

/-! ### Statements -/

/-- The values that a loop runs over. -/
def iterated (heap : Heap) (v : Value) : Except Trap (List Value) :=
  match v with
  | .array view => heap.elements view
  | v =>
    match v.items? with
    | some items => .ok items
    | none => .error (.typeMismatch (.notIterable v.kind))

/-- Runs a loop body for each item, after setting the counter and the element. -/
def iterate (body : Frame → Exec Frame) (element : String) (counter : Option String) :
    Nat → List Value → Frame → Exec Frame
  | _, [], f => return f
  | place, v :: rest, f => do
    let f := match counter with
      | none => f
      | some c => f.set c (.int place)
    let f ← body (f.set element v)
    iterate body element counter (place + 1) rest f

/-- The address of a variable, none if it is not bound. -/
def variableAddress (f : Frame) (name : String) : Exec (Option Handle) :=
  match it.lookup f name with
  | .error _ => return none
  | .ok v => do return some (← onHeap (it.addressOf v))

/-- Frees what a variable holds. -/
def deallocate (v : Value) : HeapM Unit :=
  match v with
  | .object h => HeapM.free h
  | .array view => HeapM.free view.buffer
  | v => Run.trap (.typeMismatch (.notDeallocatable v.kind))

/-- Storage for a local: an object for a class instance, else a native array. -/
def allocate (f : Frame) (name : String) (extents : List Nat) : HeapM Value :=
  match f.declaredType? name with
  | some (.object className) => do return .object (← HeapM.allocObject className)
  | _ => do return .array (← HeapM.newArray extents it.target.storageOrder)

mutual

def exec (f : Frame) : Stmt → Exec Frame
  | .reinterpret ptr name sizes => do
    match (← Run.ofExcept (it.lookup f ptr)).handle? with
    | none => Run.trap (.nullPointer ptr)
    | some h =>
      let extents ← it.evalExtents f sizes
      let v ← Run.read fun m => it.reinterpret m.heap f name h extents
      return f.set name v
  | .branch condition body orelse => do
    match ← it.eval f condition with
    | .bool true => execBlock f body
    | .bool false => execBlock f orelse
    | other => mismatch (.conditionNotBool other.kind)
  | .assign lhs rhs => do
    let v ← it.eval f rhs
    it.assign true f lhs v
  | .aliasAssign lhs rhs => do
    let v ← it.eval f rhs
    it.assign false f lhs v
  | .allocate name shape => do
    let extents ← it.evalExtents f shape
    let v ← onHeap (it.allocate f name extents)
    return f.set name v
  | .forEach element iterable counter body => do
    let v ← Run.ofExcept (it.lookup f iterable)
    let items ← Run.read fun m => iterated m.heap v
    iterate (fun f => execBlock f body) element counter 0 items f
  | .addressOf source ptr => do
    let address ← it.variableAddress f source
    return f.set ptr (.ptr address)
  | .deallocate name => do
    let v ← Run.ofExcept (it.lookup f name)
    onHeap (deallocate v)
    return f
  | .eval e => do
    let _ ← it.eval f e
    return f

def execBlock (f : Frame) : List Stmt → Exec Frame
  | [] => return f
  | s :: rest => do
    let f ← exec f s
    execBlock f rest

end

/-! ### Calls -/

/-- Looks up names in turn. -/
def lookupAll (f : Frame) (names : List String) : Except Trap (List Value) :=
  names.mapM (it.lookup f)

/-- The value of the return slot. -/
def returned (f : Frame) (signature : Signature) : Except Trap (Option Value) :=
  match signature.returns with
  | .void => .ok none
  | .direct name _ => (it.lookup f name).map some
  | .status => .ok (some (.int f.function.results.length))

/-- Calls a wrapper function with the values of its input parameters. -/
def callFunction (function : Wrapper.Function) (args : List Value) : Exec CallOutcome := do
  let signature := function.signature
  let inputs := signature.inputs.map (·.name)
  if inputs.length = args.length then
    let f ← it.execBlock ⟨function, Bindings.ofPairs (inputs.zip args)⟩ function.body
    let outputs ← Run.ofExcept (it.lookupAll f (signature.outputs.map (·.name)))
    let value ← Run.ofExcept (it.returned f signature)
    return ⟨value, outputs⟩
  else Run.trap (.arityMismatch function.name inputs.length args.length)

/-- Calls a wrapper by name. -/
def call (wrapper : String) (args : List Value) : Exec CallOutcome :=
  match it.module.function? wrapper with
  | none => Run.trap (.unknownWrapper wrapper)
  | some function => it.callFunction function args

end Interpreter

end AbiBridge
