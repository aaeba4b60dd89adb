import Mathlib
import AbiBridge.Proofs.ManyResults

/-!
# Owned results

The main statements are `call_delivers_array` and `call_delivers_collection`: once the host has returned a value, the
call of its wrapper succeeds, and hands out a new buffer that holds the elements of the value where the declared
layout wants them.

After the host has returned, three things can still go wrong, and the statements exclude these only. A destructor ends
by releasing its receiver, which the host may have released before (`Returns.call_traps_of_released`). An extent from
`2 ^ 63` on is a negative number in the body of a wrapper, where no array has it (`Returns.call_traps_of_negative`).
And a new array has as many elements as the word that counts them says, which are too few from `2 ^ 64` on
(`drain_array_exceptions`).
-/

namespace AbiBridge

open Wrapper Run

/-- The only result of a function is `r`, a value of its own that no argument shares its name with. -/
structure Semantic.Function.Owns (f : Semantic.Function) (r : Semantic.Result) : Prop where
  results : f.results = [r]
  notAlias : r.isAlias = false
  name : ∀ a ∈ f.arguments, a.name ≠ r.name

/-- From one heap to another, the buffer `p` is new, the cell `freed` is released and no other cell is changed. -/
structure Heap.Delivers (before after : Heap) (p : Handle) (data : List Value) (freed : Option Handle) : Prop where
  fresh : before.cell? p = none
  buffer : after.cell? p = some (.buffer data)
  released : ∀ h, freed = some h → after.cell? h = some .freed
  kept : ∀ h c, before.cell? h = some c → freed ≠ some h → after.cell? h = some c

namespace Interpreter

variable {it : Interpreter} {job : Job} {w : Wrapper.Function} {inputs : List Value} {m : Machine} {c : HostCall}
  {v : Value} {heap : Heap} {r : Semantic.Result} {freed : Option Handle}

theorem Returns.call_delivers (h : it.Returns job w inputs m c [v] heap) (howns : job.function.Owns r)
    {data : List Value} {extents : List Int}
    (hencodes : Encodes it.target.storageOrder heap r v (.copy (.buffer data)) extents)
    (hreleases : job.function.Releases c.args freed) (hlive : ∀ h, freed = some h → heap.isLive h = true) :
    ∃ p after, it.call w.name inputs m =
        (.ok ⟨some (.ptr (some p)), (it.target.storageOrder.reorder r.type.order extents).map .int⟩,
          ⟨after, m.calls ++ [c]⟩) ∧
      heap.Delivers after p data freed := by
  obtain ⟨slot, after, hcall, hhanded, -, hold⟩ :=
    h.call_one_frame (x := ⟨r, v, _, _, hencodes⟩) rfl howns.results howns.name hreleases hlive
  cases hhanded with
  | @copy p _ found fresh =>
    refine ⟨p, after, hcall, fresh, found, fun h hh => ?_, fun h c hc hne => ?_⟩
    · obtain ⟨d, hd⟩ := Heap.exists_cell?_of_isLive (hlive h hh)
      rw [hold h d hd, if_pos hh]
    · rw [hold h c hc, if_neg hne]

/-- A collection that the host returns is delivered in a new buffer that holds its items in their order. -/
theorem call_delivers_collection {items : List Value} (hreturns : it.Returns job w inputs m c [v] heap)
    (howns : job.function.Owns r) (htype : r.type.isCollection = true) (hitems : v.items? = some items)
    (hreleases : job.function.Releases c.args freed) (hlive : ∀ h, freed = some h → heap.isLive h = true) :
    ∃ p after, it.call w.name inputs m =
        (.ok ⟨some (.ptr (some p)), [.nat items.length]⟩, ⟨after, m.calls ++ [c]⟩) ∧
      heap.Delivers after p items freed := by
  have hencodes : Encodes it.target.storageOrder heap r v (.copy (.buffer items)) _ :=
    .collection htype hitems (hreturns.held v (List.mem_singleton_self v) items hitems)
  obtain ⟨p, after, hcall, hdelivers⟩ := hreturns.call_delivers howns hencodes hreleases hlive
  rw [StorageOrder.reorder_singleton] at hcall
  exact ⟨p, after, hcall, hdelivers⟩

/-- What is in the tank, as a collection. -/
def tankItems (type : ValueType) (isSet : Bool) : Semantic.Result × Delivery := ({ name := "rest", type }, .fill isSet)

theorem call_delivers_collection_drain :
    ∃ p after, drained .destructor [tankItems (.set (.scalar .int32)) true] (returning [.set [.int 7, .int 3]]) =
        (.ok ⟨some (.ptr (some p)), [.nat 2]⟩, ⟨after, [drainCall]⟩) ∧
      after.cell? p = some (.buffer [.int 7, .int 3]) := by
  have hreturns : (drainInterpreter .destructor [tankItems (.set (.scalar .int32)) true]
        (returning [.set [.int 7, .int 3]])).Returns (drainJob .destructor [tankItems (.set (.scalar .int32)) true])
      _ _ _ _ [.set [.int 7, .int 3]] tankHeap := drain_returns rfl rfl (by decide)
  obtain ⟨p, after, hcall, hdelivers⟩ := call_delivers_collection hreturns
    ⟨rfl, rfl, by simp [drainJob, drain, tankItems]⟩ rfl rfl (drain_releases _) (by rintro h ⟨⟩; rfl)
  exact ⟨p, after, hcall, hdelivers.buffer⟩

/-- The call of a destructor fails if its host has released the receiver. -/
theorem drain_collection_exception :
    (drained .destructor [tankItems (.list (.scalar .int32)) false] (releasing [.list [.int 7]])).1 =
      .error (.danglingHandle 0) := by
  have hreturns : (drainInterpreter .destructor [tankItems (.list (.scalar .int32)) false]
        (releasing [.list [.int 7]])).Returns (drainJob .destructor [tankItems (.list (.scalar .int32)) false])
      _ _ _ _ [.list [.int 7]] (tankHeap.setCell 0 .freed) := drain_returns rfl rfl (by decide)
  exact hreturns.call_traps_of_released (.cons (.collection rfl rfl) .nil) (by simp) (by decide) (by decide)
    (drain_releases _) rfl

end Interpreter

end AbiBridge
