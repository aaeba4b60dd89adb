import AbiBridge.Machine.Heap

/-! # Hosts

A host implements a wrapped function. It receives the arguments of the call by name, works on the heap,
and returns the results of the function in their order. -/

namespace AbiBridge

/-- The arguments of a call, in call order. -/
structure CallArgs where
  values : List (String × Value) := []
deriving Repr, Inhabited

namespace CallArgs

variable (args : CallArgs)

/-- The first argument of a name. -/
def get? (name : String) : Option Value := Bindings.get? args.values name

/-- An optional argument that is absent is not passed at all. -/
def isPresent (name : String) : Bool := (args.get? name).isSome

/-- An argument that the host cannot do without. -/
def require (name : String) : Except Trap Value :=
  match args.get? name with
  | some v => .ok v
  | none => .error (.host ("missing argument " ++ name))

def names : List String := args.values.map (·.1)

def count : Nat := args.values.length

def isEmpty : Bool := args.values.isEmpty

end CallArgs

/-- An implementation of a wrapped function. -/
abbrev Host := CallArgs → HeapM (List Value)

/-- What a host is registered for: a function of the module or a method of a class. -/
structure Callee where
  owner : Option String
  name : String
deriving DecidableEq, Repr, Inhabited

def Callee.text (c : Callee) : String :=
  match c.owner with
  | some owner => owner ++ "." ++ c.name
  | none => c.name

/-- A call that was made, with the heap as the host found it. -/
structure HostCall where
  callee : Callee
  args : CallArgs
  heap : Heap

/-- The hosts of a module; of two with one callee the later counts. -/
abbrev Hosts := List (Callee × Host)

namespace Hosts

def get? (hosts : Hosts) (callee : Callee) : Option Host :=
  (hosts.reverse.find? (·.1 == callee)).map (·.2)

/-- The host that a call reaches: inside a method of a class, a method of that class if there is one,
else a function of the module. -/
def resolve? (hosts : Hosts) (owner : Option String) (name : String) : Option (Callee × Host) :=
  let own : Option (Callee × Host) :=
    if owner.isSome then (hosts.get? ⟨owner, name⟩).map fun h => (⟨owner, name⟩, h) else none
  own.or ((hosts.get? ⟨none, name⟩).map fun h => (⟨none, name⟩, h))

end Hosts

end AbiBridge
