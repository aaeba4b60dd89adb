import AbiBridge.Machine.Interpreter

/-! # Sessions

A session applies actions one after the other, to a heap alone or to an interpreter with its heap. An
action that traps leaves behind what it did before, and the session goes on from there. -/

namespace AbiBridge

/-- An action on a heap. -/
inductive HeapAction where
  | allocBuffer (items : List Value)
  | allocObject (className : String)
  | newArray (extents : List Nat) (order : StorageOrder)
  | isLive (h : Handle)
  | isObject (h : Handle)
  | buffer (h : Handle)
  | object (h : Handle)
  | setField (h : Handle) (name : String) (v : Value)
  | free (h : Handle)
  | element (v : View) (index : List Nat)
  | setElement (v : View) (index : List Nat) (x : Value)
  | elements (v : View)
  | copyInto (dest : View) (source : Value)

/-- What an action gives. -/
inductive HeapAnswer where
  | done
  | handle (h : Handle)
  | view (v : View)
  | flag (b : Bool)
  | value (v : Value)
  | values (vs : List Value)
  | object (o : Instance)

def HeapAction.run : HeapAction → HeapM HeapAnswer
  | .allocBuffer items => do return .handle (← HeapM.allocBuffer items)
  | .allocObject className => do return .handle (← HeapM.allocObject className)
  | .newArray extents order => do return .view (← HeapM.newArray extents order)
  | .isLive h => do return .flag ((← Run.get).isLive h)
  | .isObject h => do return .flag ((← Run.get).isObject h)
  | .buffer h => do return .values (← HeapM.buffer h)
  | .object h => do return .object (← HeapM.object h)
  | .setField h name v => do HeapM.setField h name v; return .done
  | .free h => do HeapM.free h; return .done
  | .element v index => do return .value (← HeapM.element v index)
  | .setElement v index x => do HeapM.setElement v index x; return .done
  | .elements v => do return .values (← HeapM.elements v)
  | .copyInto dest source => do HeapM.copyInto dest source; return .done

/-- An interpreter between calls. -/
structure Session where
  interpreter : Interpreter
  heap : Heap := {}

/-- An action on a session. -/
inductive Action where
  | onHeap (a : HeapAction)
  | setGlobal (name : String) (v : Value)
  | call (wrapper : String) (args : List Value)

/-- What an action on a session gives. -/
inductive ActionAnswer where
  | heap (a : HeapAnswer)
  | done
  | outcome (o : CallOutcome)

namespace ActionAnswer

/-- The handle that an action made or a call returned. -/
def handle? : ActionAnswer → Option Handle
  | .heap (.handle h) => some h
  | .heap (.view v) => some v.buffer
  | .outcome o => o.pointer?
  | _ => none

end ActionAnswer

/-- The trace of one action: what it gave, and the host calls it made. -/
structure ActionTrace where
  result : Except Trap ActionAnswer
  calls : List HostCall

/-- Applies an action. -/
def Session.step (s : Session) : Action → ActionTrace × Session
  | .onHeap a =>
    let (r, heap) := a.run s.heap
    (⟨r.map .heap, []⟩, { s with heap })
  | .setGlobal name v =>
    (⟨.ok .done, []⟩,
      { s with interpreter := { s.interpreter with globals := s.interpreter.globals.set name v } })
  | .call wrapper args =>
    let (r, m) := s.interpreter.call wrapper args ⟨s.heap, []⟩
    (⟨r.map .outcome, m.calls⟩, { s with heap := m.heap })

end AbiBridge
