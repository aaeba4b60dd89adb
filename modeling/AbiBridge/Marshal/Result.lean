import AbiBridge.Marshal.Argument

/-! # Marshalling results

A scalar is returned by value. Anything else is delivered by a pointer with one shape output per
dimension, and by statements that run after the call: they assign the shapes, allocate and copy the value
or fill it element by element, and bind its address. -/

namespace AbiBridge

open Wrapper

/-- How a result is delivered. -/
inductive Delivery where
  | direct
  /-- Into a native copy. -/
  | copy
  /-- Into an array that is filled element by element; a set has no positions of its own. -/
  | fill (isSet : Bool)
deriving DecidableEq, Repr

/-- How a result of a type is delivered, if it can be. -/
def Delivery.of? : ValueType → Option Delivery
  | .scalar _ => some .direct
  | .array .. | .object _ | .uniformTuple _ (some _) => some .copy
  | .list _ => some (.fill false)
  | .set _ => some (.fill true)
  | .uniformTuple _ none | .tuple _ | .functionRef => none

/-- Where the value of a result comes from. -/
inductive ResultSource where
  /-- The call. -/
  | call
  /-- An attribute of an object; such a value is never copied. -/
  | field
  /-- An argument that the call modifies. -/
  | inPlace (a : MarshalledArgument)

/-- A local that the call binds. -/
structure CallTarget where
  name : String
  aliased : Bool
deriving DecidableEq, Repr

/-- A wrapper's result with what the body needs to deliver it. -/
structure MarshalledResult where
  result : Wrapper.Result
  /-- What runs after the call. -/
  deferred : List Stmt
  target : Option CallTarget

/-- Assigns the extents of a native value to the shape outputs, which are in declared order. -/
def assignShapes (order native : StorageOrder) (value : String) (shape : List String) : List Stmt :=
  List.zipWith (fun out dim => .assign (.var out) (.shape value dim)) shape
    (order.reorder native (List.range shape.length))

/-- The position of an element in a native array, given the variable that counts from zero. -/
def nativePosition (target : Target) (counter : String) : Expr :=
  if target.indexBase = 0 then .var counter else .add (.var counter) (.int target.indexBase)

/-- Fills an array from a collection. The loop keeps the position in a list itself; in a set the body
counts. -/
def fillLoop (target : Target) (scope : ScopeId) (type : ValueType) (source array : String)
    (isSet : Bool) : Alloc (List Stmt) := do
  let counter ← Alloc.freshName scope "idx"
  Alloc.declare scope (.index counter)
  let loop ← Alloc.newChild scope "for" .loop
  let element ← Alloc.freshName loop "elem"
  Alloc.declare loop (.owned element (type.element?.getD type))
  let store := Stmt.assign (.index array [.element (nativePosition target counter)]) (.var element)
  let advance := Stmt.assign (.var counter) (.add (.var counter) (.int 1))
  return [.assign (.var counter) (.int 0),
    .forEach element source (if isSet then none else some counter)
      (if isSet then [store, advance] else [store])]

/-- Marshals a result in a scope. -/
def marshalResult (target : Target) (scope : ScopeId) (r : Semantic.Result) (delivery : Delivery)
    (source : ResultSource) : Alloc MarshalledResult := do
  let native ← match source with
    | .inPlace a => pure a.argument.native
    | .call => do
      let actual ← Alloc.insertSymbol scope r.name
      let native : Local := ⟨actual, .value r.type r.isAlias⟩
      Alloc.declare scope native
      pure native
    | .field => do
      let actual ← Alloc.insertSymbol scope r.name
      let native : Local := ⟨actual, .value r.type (r.isAlias || delivery != .direct)⟩
      Alloc.declare scope native
      pure native
  let callTarget : Option CallTarget := match source with
    | .call => some ⟨native.name, r.isAlias⟩
    | _ => none
  if delivery = .direct then
    return ⟨⟨r, native, .direct⟩, [], callTarget⟩
  let ptr ← Alloc.freshName scope ("bound_" ++ r.name)
  let shape ← Alloc.series scope (r.name ++ "_shape") r.type.rank
  let order := target.storageOrder
  let measured := assignShapes r.type.order order native.name shape
  let shapes := match source with
    | .inPlace a =>
      if a.shapeParams.length = r.type.rank then
        List.zipWith (fun out declared => .assign (.var out) (.var declared)) shape a.shapeParams
      else measured
    | _ => measured
  let copies := match source with
    | .call => !r.isAlias
    | _ => false
  if copies then
    let held ← Alloc.freshName scope (r.name ++ "_ptr")
    Alloc.declare scope (.aliased held r.type)
    let allocate := Stmt.allocate held ((r.type.order.reorder order shape).map .var)
    let copy ← match delivery with
      | .fill isSet => fillLoop target scope r.type native.name held isSet
      | _ => pure [.assign (.var held) native.var]
    return ⟨⟨r, native, .pointer ptr shape⟩,
      shapes ++ allocate :: copy ++ [.addressOf held ptr], callTarget⟩
  return ⟨⟨r, native, .pointer ptr shape⟩, shapes ++ [.addressOf native.name ptr], callTarget⟩

end AbiBridge
