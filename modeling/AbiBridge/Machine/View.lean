import AbiBridge.Machine.Trap

/-! # Array views

A view is made dense and narrowed by slices. `logicalIndices` lists the indices of an array in the order
in which its elements are copied: the last component runs fastest. They are the readings of an odometer
that starts with zeros and is moved on as often as the array has elements. -/

namespace AbiBridge

namespace Odometer

/-- Moves the last component on. One that reaches its extent starts again at zero and moves the one before
it. The flag says that the first component, too, has started again. -/
def tick : List Nat → List Nat → Bool × List Nat
  | e :: es, i :: is =>
    match tick es is with
    | (false, is') => (false, i :: is')
    | (true, is') => if i + 1 < e then (false, (i + 1) :: is') else (true, 0 :: is')
  | _, is => (true, is)

/-- The next `n` readings, from `index` on. -/
def readings (extents : List Nat) : Nat → List Nat → List (List Nat)
  | 0, _ => []
  | n + 1, index => index :: readings extents n (tick extents index).2

end Odometer

/-- Every index of an array of the given extents, in lexicographic order. -/
def logicalIndices (extents : List Nat) : List (List Nat) :=
  Odometer.readings extents (Layout.size extents) (extents.map fun _ => 0)

/-- How many of `start`, `start + step`, ... lie below `stop`. -/
def stepCount (start stop step : Nat) : Nat :=
  if start < stop then (stop - start + step - 1) / step else 0

namespace View

/-- A dense view of a buffer. -/
def contiguous (buffer : Handle) (extents : List Nat) (order : StorageOrder) : View :=
  ⟨buffer, 0, extents, Layout.stridesOf order extents⟩

variable (v : View)

def rank : Nat := v.extents.length

def length : Nat := Layout.size v.extents

def isEmpty : Bool := v.length == 0

/-- The trap for an index outside the view. -/
def outside (index : List Nat) : Trap := .outOfBounds (index.map signed64) v.extents

/-- Where the element at an index lies in the buffer. -/
def place (index : List Nat) : Nat := Word.wrap (v.offset + Layout.dot index v.strides)

/-- The position of an index in the buffer, if it is in bounds. -/
def flatIndex (index : List Nat) : Except Trap Nat :=
  if Layout.inBounds v.extents index then .ok (v.place index) else .error (v.outside index)

/-- Narrows a dimension to every `step`-th index from `start` up to `stop`; without `stop`, to its end. A
step is at least one. -/
def slice (dim start : Nat) (stop : Option Nat) (step : Nat) : View :=
  let extent := v.extents.getD dim 0
  let stride := v.strides.getD dim 0
  let last := match stop with
    | none => extent
    | some s => min s extent
  let step := max step 1
  { v with
    extents := v.extents.set dim (stepCount start last step)
    offset := Word.wrap (v.offset + start * stride)
    strides := v.strides.set dim (Word.wrap (stride * step)) }

/-- A slice of a dimension that the view has. -/
def slice? (dim start : Nat) (stop : Option Nat) (step : Nat) : Option View :=
  if dim < v.extents.length ∧ dim < v.strides.length then some (v.slice dim start stop step) else none

/-- The view is a dense layout of a whole buffer. -/
def covers (bufferLength : Nat) (order : StorageOrder) : Bool :=
  v.offset == 0 && v.length == bufferLength && v.strides == Layout.stridesOf order v.extents

end View

end AbiBridge
