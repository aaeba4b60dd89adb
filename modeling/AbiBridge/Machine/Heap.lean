import AbiBridge.Machine.Run
import AbiBridge.Machine.View

/-! # The heap

Cells hold buffers and class instances. A handle is the place of its cell; cells are only ever added or
freed, so a handle is never used twice and stays dangling once its cell is freed. -/

namespace AbiBridge

/-- A class instance. -/
structure Instance where
  className : String
  fields : Bindings Value
deriving Repr, Inhabited

inductive Cell where
  | buffer (items : List Value)
  | object (o : Instance)
  | freed
deriving Repr, Inhabited

structure Heap where
  cells : List Cell := []
deriving Repr, Inhabited

/-- A computation on the heap. -/
abbrev HeapM := Run Heap

namespace Heap

variable (heap : Heap)

/-- The handle of the next cell. -/
def next : Handle := heap.cells.length

def cell? (h : Handle) : Option Cell := heap.cells[h]?

def push (c : Cell) : Heap := ⟨heap.cells ++ [c]⟩

def setCell (h : Handle) (c : Cell) : Heap := ⟨heap.cells.set h c⟩

theorem setCell_setCell (h : Handle) (c d : Cell) : (heap.setCell h c).setCell h d = heap.setCell h d := by
  simp [setCell]

theorem cell?_setCell {h : Handle} {b : Cell} (hb : heap.cell? h = some b) (c : Cell) :
    (heap.setCell h c).cell? h = some c := by
  have hlt : h < heap.cells.length := (List.getElem?_eq_some_iff.1 hb).1
  simp [setCell, cell?, hlt]

def isObject (h : Handle) : Bool :=
  match heap.cell? h with
  | some (.object _) => true
  | _ => false

def isLive (h : Handle) : Bool :=
  match heap.cell? h with
  | some (.buffer _) | some (.object _) => true
  | _ => false

/-- The items of a buffer. -/
def buffer (h : Handle) : Except Trap (List Value) :=
  match heap.cell? h with
  | some (.buffer items) => .ok items
  | some (.object o) => .error (.typeMismatch (.instanceRead h o.className))
  | _ => .error (.danglingHandle h)

/-- The instance behind a handle. -/
def object (h : Handle) : Except Trap Instance :=
  match heap.cell? h with
  | some (.object o) => .ok o
  | some (.buffer _) => .error (.typeMismatch (.bufferUsed h))
  | _ => .error (.danglingHandle h)

/-- Changes the fields of an instance. -/
def modifyObject (h : Handle) (f : Bindings Value → Bindings Value) : Except Trap Heap :=
  match heap.object h with
  | .ok o => .ok (heap.setCell h (.object { o with fields := f o.fields }))
  | .error e => .error e

def free (h : Handle) : Except Trap Heap :=
  if heap.isLive h then .ok (heap.setCell h .freed) else .error (.danglingHandle h)

/-- The element of a view at an index. -/
def element (v : View) (index : List Nat) : Except Trap Value :=
  match v.flatIndex index with
  | .error e => .error e
  | .ok flat =>
    match heap.buffer v.buffer with
    | .error e => .error e
    | .ok items =>
      match items[flat]? with
      | some x => .ok x
      | none => .error (v.outside index)

/-- Writes the element of a view at an index. -/
def setElement (v : View) (index : List Nat) (x : Value) : Except Trap Heap :=
  match v.flatIndex index with
  | .error e => .error e
  | .ok flat =>
    match heap.cell? v.buffer with
    | some (.buffer items) =>
      if flat < items.length then .ok (heap.setCell v.buffer (.buffer (items.set flat x)))
      else .error (v.outside index)
    | some (.object _) => .error (.typeMismatch (.objectWritten v.buffer))
    | _ => .error (.danglingHandle v.buffer)

/-- The element of a view at an index, the items of its buffer being at hand. -/
def fetch (v : View) (cell : Except Trap (Array Value)) (index : List Nat) : Except Trap Value :=
  match v.flatIndex index with
  | .error e => .error e
  | .ok flat =>
    match cell with
    | .error e => .error e
    | .ok items =>
      match items[flat]? with
      | some x => .ok x
      | none => .error (v.outside index)

/-- The elements of a view, the last index running fastest. -/
def elements (v : View) : Except Trap (List Value) :=
  (logicalIndices v.extents).mapM (fetch v ((heap.buffer v.buffer).map List.toArray))

/-- The buffer is looked up once, and yet every element is the one at its index. -/
theorem elements_eq (v : View) :
    heap.elements v = (logicalIndices v.extents).mapM (heap.element v) := by
  have : fetch v ((heap.buffer v.buffer).map List.toArray) = heap.element v := by
    funext index
    unfold fetch element
    cases v.flatIndex index with
    | error e => rfl
    | ok flat => cases heap.buffer v.buffer <;> simp [Except.map]
  rw [elements, this]

/-- What a value consists of when it is copied into an array: the elements of an array, the items of a
collection, else the value itself. -/
def itemsOf (x : Value) : Except Trap (List Value) :=
  match x with
  | .array v => heap.elements v
  | x => .ok (x.items?.getD [x])

end Heap

/-- Writes items to indices of a buffer in turn, up to the first that lies outside it. -/
def View.store (v : View) : List (List Nat × Value) → Run (Array Value) Unit
  | [], items => (.ok (), items)
  | (index, x) :: rest, items =>
    match v.flatIndex index with
    | .error e => (.error e, items)
    | .ok flat =>
      if flat < items.size then v.store rest (items.setIfInBounds flat x)
      else (.error (v.outside index), items)

namespace HeapM

def allocBuffer (items : List Value) : HeapM Handle := fun heap =>
  (.ok heap.next, heap.push (.buffer items))

def allocObject (className : String) : HeapM Handle := fun heap =>
  (.ok heap.next, heap.push (.object ⟨className, []⟩))

/-- A dense array of zeros. -/
def newArray (extents : List Nat) (order : StorageOrder) : HeapM View := do
  let buffer ← allocBuffer (List.replicate (Layout.size extents) (.int 0))
  return .contiguous buffer extents order

def buffer (h : Handle) : HeapM (List Value) := .read (·.buffer h)

def object (h : Handle) : HeapM Instance := .read (·.object h)

def free (h : Handle) : HeapM Unit := .update (·.free h)

def element (v : View) (index : List Nat) : HeapM Value := .read (·.element v index)

def setElement (v : View) (index : List Nat) (x : Value) : HeapM Unit :=
  .update (·.setElement v index x)

def elements (v : View) : HeapM (List Value) := .read (·.elements v)

def setField (h : Handle) (name : String) (x : Value) : HeapM Unit :=
  .update (·.modifyObject h (·.set name x))

/-- Writes items to indices in turn, up to the first that fails. -/
def writeAll (v : View) (writes : List (List Nat × Value)) : HeapM Unit := fun heap =>
  match writes with
  | [] => (.ok (), heap)
  | (index, _) :: _ =>
    match v.flatIndex index with
    | .error e => (.error e, heap)
    | .ok _ =>
      match heap.cell? v.buffer with
      | some (.buffer items) =>
        let (outcome, items) := v.store writes items.toArray
        (outcome, heap.setCell v.buffer (.buffer items.toList))
      | some (.object _) => (.error (.typeMismatch (.objectWritten v.buffer)), heap)
      | _ => (.error (.danglingHandle v.buffer), heap)

theorem writeAll_nil (v : View) : writeAll v [] = pure () := rfl

/-- The buffer is looked up once, and yet the effect is that of one write after the other. -/
theorem writeAll_cons (v : View) (index : List Nat) (x : Value) (rest : List (List Nat × Value)) :
    writeAll v ((index, x) :: rest) = (do setElement v index x; writeAll v rest) := by
  funext heap
  simp only [Run.bind_apply, setElement, Run.update, Heap.setElement, writeAll, View.store]
  cases v.flatIndex index with
  | error e => rfl
  | ok flat =>
    cases hc : heap.cell? v.buffer with
    | none => rfl
    | some c =>
      cases c with
      | object o => rfl
      | freed => rfl
      | buffer items =>
        by_cases hf : flat < items.length
        · simp only [List.size_toArray, hf, if_true, List.setIfInBounds_toArray]
          cases rest with
          | nil => simp [View.store]
          | cons w rest =>
            simp only [heap.cell?_setCell hc, Heap.setCell_setCell]
            cases hw : v.flatIndex w.1 with
            | error e => simp [View.store, hw]
            | ok _ => rfl
        · simp only [List.size_toArray, hf, if_false]
          have hlt : v.buffer < heap.cells.length := (List.getElem?_eq_some_iff.1 hc).1
          have hset : heap.setCell v.buffer (.buffer items) = heap := by
            have := (List.getElem?_eq_some_iff.1 hc).2
            simp [Heap.setCell, ← this]
          simp [hset]

/-- Copies a value element by element into a view that has as many elements. -/
def copyInto (dest : View) (source : Value) : HeapM Unit := do
  let items ← Run.read (·.itemsOf source)
  let indices := logicalIndices dest.extents
  if indices.length = items.length then writeAll dest (indices.zip items)
  else .trap (.typeMismatch (.lengthDiffers items.length dest.extents))

end HeapM

end AbiBridge
