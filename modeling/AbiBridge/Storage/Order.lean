import AbiBridge.Json.Decode

/-! # Storage orders

Which index of an array varies fastest in memory. A list that has one entry per dimension and is
declared for one order is read in the other order back to front: `reorder` is the only place where
such a list crosses. -/

namespace AbiBridge

/-- Which array index varies fastest in memory. -/
inductive StorageOrder where
  /-- The last index varies fastest. -/
  | rowMajor
  /-- The first index varies fastest. -/
  | columnMajor
deriving DecidableEq, Repr, Inhabited

namespace StorageOrder

/-- Data in one order is consumed in another. -/
def crosses (source consumer : StorageOrder) : Bool := source != consumer

/-- A list with one entry per dimension, declared for `source`, as `consumer` reads it. -/
def reorder {α : Type} (source consumer : StorageOrder) (dims : List α) : List α :=
  if source.crosses consumer then dims.reverse else dims

def tag : StorageOrder → String
  | .rowMajor => "row_major"
  | .columnMajor => "column_major"

def toJson (o : StorageOrder) : Json := .str o.tag

def decode : Decoder StorageOrder := fun room j =>
  match Json.caseName? room j with
  | some "row_major" => some .rowMajor
  | some "column_major" => some .columnMajor
  | _ => none

/-! ### Crossing twice is going back -/

section
variable {α β : Type} (a b : StorageOrder) (dims : List α)

@[simp] theorem crosses_self : a.crosses a = false := by cases a <;> rfl

theorem crosses_comm : a.crosses b = b.crosses a := by cases a <;> cases b <;> rfl

@[simp] theorem reorder_reorder : reorder b a (reorder a b dims) = dims := by
  unfold reorder
  rw [crosses_comm b a]
  split <;> simp

@[simp] theorem length_reorder : (reorder a b dims).length = dims.length := by
  unfold reorder
  split <;> simp

@[simp] theorem map_reorder (f : α → β) : (reorder a b dims).map f = reorder a b (dims.map f) := by
  unfold reorder
  split <;> simp

end

end StorageOrder

end AbiBridge
