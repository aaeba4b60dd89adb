import AbiBridge.Machine.Value
import AbiBridge.Wrapper.Outline

/-! # Traps

Why the execution of a wrapper stops. -/

namespace AbiBridge

/-- A value of the wrong kind, or a construct used where it has no meaning. -/
inductive Mismatch where
  | expectedInt (found : ValueKind)
  | expectedFloat (found : ValueKind)
  | negativeExtent (n : Int)
  /-- A cell that is read as a buffer holds an instance of a class. -/
  | instanceRead (h : Handle) (className : String)
  /-- A cell that is written as a buffer holds an object. -/
  | objectWritten (h : Handle)
  /-- A cell that is used as an object holds a buffer. -/
  | bufferUsed (h : Handle)
  | lengthDiffers (count : Nat) (extents : List Nat)
  | conditionNotBool (found : ValueKind)
  | notIterable (found : ValueKind)
  | notDeallocatable (found : ValueKind)
  | notAnObject (found : ValueKind)
  | notUnpackable (found : ValueKind) (targets : Nat)
  | notIndexable (found : ValueKind)
  | noAttributes (found : ValueKind)
  | noAttribute (found : ValueKind) (name : String)
  | notAssignable (target : Wrapper.Expr)
  | sliceAsElement
  | elementAmongSlices
  | subscriptCount (count rank : Nat)
  | noDimension (name : String) (dim : Nat)

def Mismatch.message : Mismatch → String
  | .expectedInt found => "expected int, got " ++ found.text
  | .expectedFloat found => "expected float, got " ++ found.text
  | .negativeExtent n => "negative extent " ++ n.repr
  | .instanceRead h className =>
    handleText h ++ " is a " ++ className ++ " instance, not a buffer"
  | .objectWritten h => handleText h ++ " is an object, not a buffer"
  | .bufferUsed h => handleText h ++ " is a buffer, not an object"
  | .lengthDiffers count extents =>
    "cannot copy " ++ Nat.repr count ++ " elements into an array of extents "
      ++ bracketed (extents.map Nat.repr)
  | .conditionNotBool found => "condition evaluated to " ++ found.text
  | .notIterable found => "cannot iterate over " ++ found.text
  | .notDeallocatable found => "cannot deallocate " ++ found.text
  | .notAnObject found => "cannot copy " ++ found.text ++ " into an object"
  | .notUnpackable found targets =>
    "cannot unpack " ++ found.text ++ " into " ++ Nat.repr targets ++ " targets"
  | .notIndexable found => "cannot index into " ++ found.text
  | .noAttributes found => found.text ++ " has no attributes"
  | .noAttribute found name => found.text ++ " has no attribute " ++ name
  | .notAssignable target => "cannot assign to " ++ target.outline
  | .sliceAsElement => "slice used as an element index"
  | .elementAmongSlices => "element index mixed with slices"
  | .subscriptCount count rank =>
    Nat.repr count ++ " indices for an array of rank " ++ Nat.repr rank
  | .noDimension name dim => name ++ " has no dimension " ++ Nat.repr dim

/-- Why an execution stopped. -/
inductive Trap where
  | unknownWrapper (name : String)
  /-- No host implements the called function. -/
  | unknownCallable (name : String)
  | arityMismatch (wrapper : String) (expected found : Nat)
  | undefinedVariable (name : String)
  | nullPointer (name : String)
  /-- The use of a cell that was freed or never allocated. -/
  | danglingHandle (h : Handle)
  | outOfBounds (index : List Int) (extents : List Nat)
  | typeMismatch (cause : Mismatch)
  | missingAttribute (className member : String)
  /-- Raised by a host. -/
  | host (message : String)

def Trap.message : Trap → String
  | .unknownWrapper name => "unknown wrapper function: " ++ name
  | .unknownCallable name => "no host implementation for " ++ name
  | .arityMismatch wrapper expected found =>
    wrapper ++ " takes " ++ Nat.repr expected ++ " ABI arguments, got " ++ Nat.repr found
  | .undefinedVariable name => "undefined variable: " ++ name
  | .nullPointer name => "null pointer dereferenced through " ++ name
  | .danglingHandle h => "dangling handle " ++ handleText h
  | .outOfBounds index extents =>
    "index " ++ bracketed (index.map Int.repr) ++ " out of bounds for extents "
      ++ bracketed (extents.map Nat.repr)
  | .typeMismatch cause => "type mismatch: " ++ cause.message
  | .missingAttribute className member => className ++ " has no attribute " ++ member
  | .host message => "host error: " ++ message

namespace Value

def asInt : Value → Except Trap Int
  | .int n => .ok n
  | v => .error (.typeMismatch (.expectedInt v.kind))

/-- Integers count as floating-point numbers. -/
def asFloat : Value → Except Trap Binary64
  | .float x => .ok x
  | .int n => .ok (.ofInt n)
  | v => .error (.typeMismatch (.expectedFloat v.kind))

/-- An extent is an integer that is not negative. -/
def asExtent (v : Value) : Except Trap Nat :=
  match v.asInt with
  | .error e => .error e
  | .ok n => if 0 ≤ n then .ok n.toNat else .error (.typeMismatch (.negativeExtent n))

end Value

end AbiBridge
