import AbiBridge.Marshal.Allocation
import AbiBridge.Marshal.Failure

/-! # Marshalling arguments

An argument becomes a scalar parameter or a pointer, with shapes and strides for an array and a length
for a sequence. The statement that rebuilds the native value is made here, once; the body runs it on the
paths where the argument is live. -/

namespace AbiBridge

open Wrapper

/-- How an argument crosses the boundary. -/
inductive Passing where
  /-- A scalar by value. -/
  | direct
  /-- A pointer with shapes and strides. -/
  | array
  /-- A pointer with a length. -/
  | sequence
  /-- A bare pointer: an optional scalar or an object. -/
  | handle
deriving DecidableEq, Repr

/-- The form in which an argument of a type crosses, if there is one. -/
def Passing.of? (type : ValueType) (optional : Bool) : Option Passing :=
  match type with
  | .scalar _ => some (if optional then .handle else .direct)
  | .array .. => some .array
  | .uniformTuple .. | .list _ | .set _ => some .sequence
  | .object _ => some .handle
  | .functionRef | .tuple _ => none

/-- A wrapper's argument with what the body needs to use it. -/
structure MarshalledArgument where
  argument : Wrapper.Argument
  /-- Rebuilds the native value from the pointer; a direct scalar needs nothing. -/
  rebuild : Option Stmt
  /-- A temporary that the strided view is bound to right before the call. -/
  viewAlias : Option String

namespace MarshalledArgument

def name (a : MarshalledArgument) : String := a.argument.declared.name

/-- What the wrapped function receives on a path where the argument is live. -/
def passedValue (a : MarshalledArgument) : Expr :=
  match a.viewAlias with
  | some temporary => .var temporary
  | none => a.argument.callValue

/-- The shape parameters in declared order. -/
def shapeParams (a : MarshalledArgument) : List String :=
  match a.argument.abi with
  | .pointer _ shape _ => shape
  | .direct => []

end MarshalledArgument

/-- The extents of the caller's buffer: each dimension spans its shape times its stride. -/
def spanSizes (shape strides : List String) : List Expr :=
  List.zipWith (fun sh st => .mul (.var sh) (.var st)) shape strides

/-- The view of a whole array by steps of its strides. -/
def stridedView (target : Target) (array : String) (strides : List String) : Expr :=
  .index array (strides.map fun st => .slice (.int target.indexBase) none (.var st))

/-- Marshals an argument in a scope. `temporary` asks for a temporary that holds the view of an array. -/
def marshalArgument (target : Target) (scope : ScopeId) (a : Semantic.Argument) (passing : Passing)
    (temporary : Bool) : Alloc MarshalledArgument := do
  let actual ← Alloc.insertSymbol scope a.name
  if passing = .direct then
    let native := Local.owned actual a.type
    return ⟨⟨a, native, .direct, native.var⟩, none, none⟩
  let ptr ← Alloc.freshName scope ("bound_" ++ a.name)
  let native := Local.aliased actual a.type
  Alloc.declare scope native
  match passing with
  | .array =>
    let shape ← Alloc.series scope (a.name ++ "_shape") a.type.rank
    let strides ← Alloc.series scope (a.name ++ "_stride") a.type.rank
    let nativeShape := a.type.order.reorder target.storageOrder shape
    let nativeStrides := a.type.order.reorder target.storageOrder strides
    let viewAlias ←
      if temporary then do
        let name ← Alloc.freshName scope a.name
        Alloc.declare scope (.aliased name a.type)
        pure (some name)
      else pure none
    return ⟨⟨a, native, .pointer ptr shape strides, stridedView target actual nativeStrides⟩,
      some (.reinterpret ptr actual (spanSizes nativeShape nativeStrides)), viewAlias⟩
  | .sequence =>
    let length ← Alloc.freshName scope (a.name ++ "_shape_1")
    return ⟨⟨a, native, .pointer ptr [length] [], .var actual⟩,
      some (.reinterpret ptr actual [.var length]), none⟩
  | .handle | .direct =>
    return ⟨⟨a, native, .pointer ptr [] [], .var actual⟩, some (.reinterpret ptr actual []), none⟩

end AbiBridge
