import AbiBridge.Storage.Order
import AbiBridge.Storage.Word

/-! # Dense layouts

The extents of a dense array with its storage order, and where each element lies in its buffer. The size, the
strides and the positions are words. -/

namespace AbiBridge

/-- The extents of a dense array together with its storage order. -/
structure Layout where
  extents : List Nat
  order : StorageOrder
deriving DecidableEq, Repr

namespace Layout

/-- The product of the extents. -/
def volume (extents : List Nat) : Nat := extents.foldr (· * ·) 1

/-- How many elements an array has: the product of its extents, as a word. -/
def size (extents : List Nat) : Nat := Word.wrap (volume extents)

/-- The distances of neighbours in a dense array whose last index varies fastest. -/
def rowSpans : List Nat → List Nat
  | [] => []
  | _ :: rest => volume rest :: rowSpans rest

/-- The distances of neighbours in a dense array whose first index varies fastest, at the distance `span`. -/
def columnSpans (span : Nat) : List Nat → List Nat
  | [] => []
  | e :: rest => span :: columnSpans (span * e) rest

/-- The distance of neighbours along each dimension, as a number. -/
def spans (order : StorageOrder) (extents : List Nat) : List Nat :=
  match order with
  | .rowMajor => rowSpans extents
  | .columnMajor => columnSpans 1 extents

/-- The distance in the buffer between neighbours along each dimension, as a word. -/
def stridesOf (order : StorageOrder) (extents : List Nat) : List Nat :=
  (spans order extents).map Word.wrap

/-- The sum of the products of an index with the strides. -/
def dot : List Nat → List Nat → Nat
  | i :: is, s :: ss => i * s + dot is ss
  | _, _ => 0

/-- An index has one component per dimension, each below its extent. -/
def inBounds : List Nat → List Nat → Bool
  | [], [] => true
  | e :: es, i :: is => decide (i < e) && inBounds es is
  | _, _ => false

variable (l : Layout)

def rank : Nat := l.extents.length

def length : Nat := size l.extents

def isEmpty : Bool := l.length == 0

def strides : List Nat := stridesOf l.order l.extents

/-- Where an index that counts from zero lies in the buffer. -/
def position (index : List Nat) : Nat := Word.wrap (dot index l.strides)

/-- The position of an index, if it is in bounds. -/
def offset? (index : List Nat) : Option Nat :=
  if inBounds l.extents index then some (l.position index) else none

/-- The same buffer as a consumer in another order describes it. -/
def reinterpret (order : StorageOrder) : Layout :=
  ⟨l.order.reorder order l.extents, order⟩

end Layout

end AbiBridge
