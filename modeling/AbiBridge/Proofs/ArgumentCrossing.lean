import Mathlib
import AbiBridge.Proofs.Presence
import AbiBridge.Wrap.Module

/-!
# Arguments across the boundary

`Crosses` says what the values of an argument's parameters stand for: the value that the wrapped function is
to receive, or that the argument is absent. The main statement, `call_passes_arguments`, is that a call of
a wrapper reaches its host once, with the heap untouched and with exactly these values; for arrays,
`call_passes_array` says which element of the caller's buffer each element of the received view is. The extents of an
array are computed with signed words, so that an array without elements does not cross, or not as it is, if one of them
is too large (`scan_stops_wide`, `scan_narrows_wide`).

The statements that rebuild the native values run in any order, each in a frame where the earlier ones have
already bound their locals. What makes them independent is that no two names of a wrapper are equal, so
each finds its own parameters as they were at entry (`execBlock_binds`).
-/

namespace AbiBridge

open Wrapper Run

/-- How many lengths, shapes or strides come with the pointer of an argument. -/
def Semantic.Argument.lengthCount (a : Semantic.Argument) : Nat :=
  match a.type with
  | .array _ rank _ => rank + rank
  | .uniformTuple .. | .list _ | .set _ => 1
  | _ => 0

/-- The collection that a sequence type makes of its items. -/
def ValueType.collection? : ValueType → Option (List Value → Value)
  | .list _ => some .list
  | .set _ => some .set
  | .uniformTuple .. => some .tuple
  | _ => none

/-- The values of the parameters of an argument, and what the wrapped function is to receive for them. -/
inductive Crosses (heap : Heap) (native : StorageOrder) (a : Semantic.Argument) : List Value → Option Value → Prop
  | direct {kind : ScalarKind} {v : Value} (type : a.type = .scalar kind) (required : a.optional = false) :
    Crosses heap native a [v] (some v)
  /-- A null pointer, whatever lengths come with it. -/
  | absent {lengths : List Value} (optional : a.optional = true) (count : lengths.length = a.lengthCount) :
    Crosses heap native a (.ptr none :: lengths) none
  | scalar {kind : ScalarKind} {p : Value} {h : Handle} {x : Value} {rest : List Value}
    (type : a.type = .scalar kind) (optional : a.optional = true) (pointer : p.handle? = some h)
    (buffer : heap.buffer h = .ok (x :: rest)) : Crosses heap native a [p] (some x)
  | object {className : String} {p : Value} {h : Handle} (type : a.type = .object className)
    (pointer : p.handle? = some h) (live : heap.isObject h = true) : Crosses heap native a [p] (some (.object h))
  | sequence {collect : List Value → Value} {p : Value} {h : Handle} {items : List Value} {n : Nat}
    (type : a.type.collection? = some collect) (pointer : p.handle? = some h) (buffer : heap.buffer h = .ok items)
    (held : InMemory items) (enough : n ≤ items.length) :
    Crosses heap native a [p, .nat n] (some (collect (items.take n)))
  /-- The buffer holds an array of the extents `shape * strides`; every `strides`-th element crosses. -/
  | array {kind : ScalarKind} {rank : Nat} {order : StorageOrder} {p : Value} {h : Handle} {items : List Value}
    {shape strides : List Nat} (type : a.type = .array kind rank order) (rank_pos : 1 ≤ rank)
    (shape_length : shape.length = rank) (strides_length : strides.length = rank) (steps : ∀ s ∈ strides, 1 ≤ s)
    (small : ∀ n ∈ List.zipWith (· * ·) shape strides, n < 2 ^ 63) (pointer : p.handle? = some h)
    (buffer : heap.buffer h = .ok items) (held : InMemory items)
    (enough : (List.zipWith (· * ·) shape strides).prod ≤ items.length) :
    Crosses heap native a (p :: (shape ++ strides).map .nat)
      (some (.array (.strided h native (order.reorder native shape) (order.reorder native strides))))

theorem Heap.isObject_of_buffer {heap : Heap} {h : Handle} {items : List Value} (hb : heap.buffer h = .ok items) :
    heap.isObject h = false := by
  rw [Heap.buffer_eq_ok] at hb
  simp [Heap.isObject, hb]

/-! ### Rebuilding native values -/

namespace Interpreter

variable (it : Interpreter) {f : Frame} {m : Machine}

theorem exec_reinterpret {ptr name : String} {sizes : List Expr} {p v : Value} {h : Handle} {extents : List Nat}
    (hptr : f.locals.get? ptr = some p) (hp : p.handle? = some h)
    (hsizes : it.evalExtents f sizes m = (.ok extents, m)) (hv : it.reinterpret m.heap f name h extents = .ok v) :
    it.exec f (.reinterpret ptr name sizes) m = (.ok (f.set name v), m) := by
  simp only [exec]
  rw [it.lookup_of_get? hptr, bind_ok (ofExcept_apply _), hp]
  simp only
  rw [bind_ok hsizes, bind_ok (by rw [read_apply, hv]), pure_apply]

theorem reinterpret_sequence {heap : Heap} {h : Handle} {items : List Value} {extents : List Nat} {name : String}
    {type : ValueType} {collect : List Value → Value} (hty : f.declaredType? name = some type)
    (hcollect : type.collection? = some collect) (hb : heap.buffer h = .ok items)
    (hlen : Layout.size extents ≤ items.length) :
    it.reinterpret heap f name h extents = .ok (collect (items.take (Layout.size extents))) := by
  cases type <;> simp_all [ValueType.collection?, reinterpret, Heap.isObject_of_buffer hb, Nat.not_lt.2 hlen]

end Interpreter

theorem Passing.of?_of_collection? {type : ValueType} {collect : List Value → Value}
    (h : type.collection? = some collect) (optional : Bool) : Passing.of? type optional = some .sequence := by
  cases type <;> simp_all [ValueType.collection?, Passing.of?]

/-- A live argument, with the value its native local is to hold and the value that is to be passed on. -/
structure Arrival where
  argument : MarshalledArgument
  held : Value
  passed : Value

namespace Arrival

/-- From the parameters as they are in `f`, whatever other locals hold, the native value is rebuilt, and from
the native value the one that is passed on. -/
structure Ready (it : Interpreter) (f : Frame) (m : Machine) (x : Arrival) : Prop where
  rebuild : ∀ s, x.argument.rebuild = some s → ∀ f' : Frame, f'.function = f.function →
    (∀ n ∈ x.argument.argument.paramNames, f'.locals.get? n = f.locals.get? n) →
    it.exec f' s m = (.ok (f'.set x.argument.argument.native.name x.held), m)
  direct : x.argument.rebuild = none → f.locals.get? x.argument.argument.native.name = some x.held
  value : ∀ f' : Frame, (∀ n ∈ x.argument.argument.paramNames, f'.locals.get? n = f.locals.get? n) →
    f'.locals.get? x.argument.argument.native.name = some x.held →
    it.eval f' x.argument.argument.callValue m = (.ok x.passed, m)

end Arrival

theorem Wrapper.Argument.paramNames_of_pointer {a : Wrapper.Argument} {ptr : String} {shape strides : List String}
    (h : a.abi = .pointer ptr shape strides) : a.paramNames = ptr :: (shape ++ strides) := by
  simp [paramNames, params, h, Parameter.input, Function.comp_def]

section Ready

variable {it : Interpreter} {f : Frame} {m : Machine} {a : Semantic.Argument} {p : Passing}
  {x : MarshalledArgument} {values : List Value} {v : Value}

theorem ready_of_reinterpret {native ptr : String} {shape strides : List String} {sizes : List Expr} {pv : Value}
    {lengths : List Value} {h : Handle} {extents : List Nat} {held : Value}
    (hnative : x.argument.native = .aliased native a.type) (habi : x.argument.abi = .pointer ptr shape strides)
    (hrebuild : x.rebuild = some (.reinterpret ptr native sizes))
    (hdecl : ∀ l ∈ x.declares, f.function.local? l.name = some l)
    (hh : f.Holds x.argument.paramNames (pv :: lengths)) (hpv : pv.handle? = some h)
    (hsizes : ∀ f' : Frame, f'.Holds (shape ++ strides) lengths → it.evalExtents f' sizes m = (.ok extents, m))
    (hheld : ∀ f' : Frame, f'.declaredType? native = some a.type →
      it.reinterpret m.heap f' native h extents = .ok held)
    (hvalue : ∀ f' : Frame, f'.Holds (shape ++ strides) lengths → f'.locals.get? native = some held →
      it.eval f' x.argument.callValue m = (.ok v, m)) :
    (Arrival.mk x held v).Ready it f m := by
  have hparams := Argument.paramNames_of_pointer habi
  have htype : f.declaredType? native = some a.type := by
    have hl := hdecl x.argument.native (by simp [MarshalledArgument.declares, habi])
    rw [hnative] at hl
    rw [Frame.declaredType?, show f.function.local? native = _ from hl]
    rfl
  rw [hparams] at hh
  refine ⟨fun s hs f' hf' hagree => ?_, fun hnone => ?_, fun f' hagree hget => ?_⟩
  · obtain rfl := Option.some.inj (hrebuild.symm.trans hs)
    rw [hparams] at hagree
    obtain ⟨hptr, hlengths⟩ := List.forall₂_cons.1 (hh.congr hagree)
    rw [hnative]
    exact it.exec_reinterpret hptr hpv (hsizes f' hlengths)
      (hheld f' (by rw [Frame.declaredType?_congr hf', htype]))
  · rw [hrebuild] at hnone
    cases hnone
  · rw [hparams] at hagree
    rw [hnative] at hget
    exact hvalue f' (List.forall₂_cons.1 (hh.congr hagree)).2 hget

theorem ready_object {className : String} {pv : Value} {h : Handle} (hp : Passing.of? a.type a.optional = some p)
    (hm : Marshalled it.target a p x) (hdecl : ∀ l ∈ x.declares, f.function.local? l.name = some l)
    (hh : f.Holds x.argument.paramNames [pv]) (htype : a.type = .object className) (hpv : pv.handle? = some h)
    (hlive : m.heap.isObject h = true) : (Arrival.mk x (.object h) (.object h)).Ready it f m := by
  rw [htype] at hp
  cases hp
  cases hm with
  | handle native ptr =>
    have hnil : ∀ f' : Frame, it.evalExtents f' [] m = (.ok [], m) := fun f' => by
      rw [Interpreter.evalExtents, pure_apply]
    refine ready_of_reinterpret rfl rfl rfl hdecl hh hpv (fun f' _ => hnil f') (fun f' hty => ?_)
      fun f' _ hget => it.eval_var hget
    rw [Interpreter.reinterpret, if_pos hlive]

/-- An array is rebuilt as the dense array that the strides step over. -/
theorem ready_array {kind : ScalarKind} {rank : Nat} {order : StorageOrder} {pv : Value} {h : Handle}
    {items : List Value} {ns ss : List Nat} (hp : Passing.of? a.type a.optional = some p)
    (hm : Marshalled it.target a p x) (hdecl : ∀ l ∈ x.declares, f.function.local? l.name = some l)
    (hh : f.Holds x.argument.paramNames (pv :: (ns ++ ss).map .nat)) (htype : a.type = .array kind rank order)
    (hrank : 1 ≤ rank) (hns : ns.length = rank) (hss : ss.length = rank) (hsteps : ∀ s ∈ ss, 1 ≤ s)
    (hsmall : ∀ n ∈ List.zipWith (· * ·) ns ss, n < 2 ^ 63) (hpv : pv.handle? = some h)
    (hb : m.heap.buffer h = .ok items) (henough : Layout.size (List.zipWith (· * ·) ns ss) ≤ items.length) :
    (Arrival.mk x
      (.array (.contiguous h (List.zipWith (· * ·) (order.reorder it.target.storageOrder ns)
        (order.reorder it.target.storageOrder ss)) it.target.storageOrder))
      (.array (.strided h it.target.storageOrder (order.reorder it.target.storageOrder ns)
        (order.reorder it.target.storageOrder ss)))).Ready it f m := by
  have horder : a.type.order = order := by rw [htype, ValueType.order]
  have hrank' : a.type.rank = rank := by rw [htype, ValueType.rank]
  rw [htype] at hp
  cases hp
  cases hm with
  | array native ptr shape strides viewAlias hshape hstrides =>
    rw [List.map_append] at hh
    -- shapes and strides, in the order in which the native array has its dimensions
    have hsplit : ∀ f' : Frame, f'.Holds (shape ++ strides) (ns.map .nat ++ ss.map .nat) →
        f'.Holds (a.type.order.reorder it.target.storageOrder shape)
            ((order.reorder it.target.storageOrder ns).map .nat) ∧
          f'.Holds (a.type.order.reorder it.target.storageOrder strides)
            ((order.reorder it.target.storageOrder ss).map .nat) := by
      intro f' h'
      rw [Frame.Holds.append_iff (by simp [hshape, hrank', hns])] at h'
      rw [horder, StorageOrder.map_reorder, StorageOrder.map_reorder]
      exact ⟨h'.1.reorder _ _, h'.2.reorder _ _⟩
    have hlen : (order.reorder it.target.storageOrder ns).length
        = (order.reorder it.target.storageOrder ss).length := by
      simp [hns, hss]
    have hspans : List.zipWith (· * ·) (order.reorder it.target.storageOrder ns)
        (order.reorder it.target.storageOrder ss) = order.reorder it.target.storageOrder (List.zipWith (· * ·) ns ss) :=
      StorageOrder.zipWith_reorder _ _ _ (by rw [hns, hss])
    have hsizes := fun (f' : Frame) h' => it.evalExtents_spanSizes (m := m) (hsplit f' h').1 (hsplit f' h').2
      fun n hn => hsmall n ((StorageOrder.mem_reorder _ _).1 (hspans ▸ hn))
    have hheld : ∀ f' : Frame, f'.declaredType? native = some a.type →
        it.reinterpret m.heap f' native h (List.zipWith (· * ·) (order.reorder it.target.storageOrder ns)
            (order.reorder it.target.storageOrder ss))
          = .ok (.array (.contiguous h (List.zipWith (· * ·) (order.reorder it.target.storageOrder ns)
            (order.reorder it.target.storageOrder ss)) it.target.storageOrder)) := by
      intro f' hty
      have hsize : Layout.size (List.zipWith (· * ·) (order.reorder it.target.storageOrder ns)
          (order.reorder it.target.storageOrder ss)) ≤ items.length := by
        rw [hspans, Layout.size_reorder]
        exact henough
      simp [Interpreter.reinterpret, Heap.isObject_of_buffer hb, hb, hty, htype, Nat.not_lt.2 hsize]
    refine ready_of_reinterpret rfl rfl rfl hdecl hh hpv hsizes hheld fun f' h' hget => ?_
    refine it.eval_stridedView hget (hsplit f' h').2 hlen (fun hnil => ?_) fun s hs => ?_
    · have := congrArg List.length hnil
      simp only [StorageOrder.length_reorder, List.length_nil] at this
      omega
    · exact hsteps s ((StorageOrder.mem_reorder _ _).1 hs)

theorem exists_ready (hp : Passing.of? a.type a.optional = some p) (hm : Marshalled it.target a p x)
    (hdecl : ∀ l ∈ x.declares, f.function.local? l.name = some l) (hh : f.Holds x.argument.paramNames values)
    (hc : Crosses m.heap it.target.storageOrder a values (some v)) :
    ∃ held, (Arrival.mk x held v).Ready it f m := by
  have hnil : ∀ f' : Frame, it.evalExtents f' [] m = (.ok [], m) := fun f' => by
    rw [Interpreter.evalExtents, pure_apply]
  have hline : ∀ {length : String} {n : Nat} (f' : Frame), f'.Holds [length] [.nat n] →
      it.evalExtents f' [.var length] m = (.ok [n], m) := by
    intro length n f' h'
    exact it.evalExtents_vars (show f'.Holds [length] ([n].map .nat) from h')
  have hvar : ∀ {native : String} {held : Value} (f' : Frame), f'.locals.get? native = some held →
      it.eval f' (.var native) m = (.ok held, m) := fun f' h' => it.eval_var h'
  cases hc with
  | direct type required =>
    rw [type, required] at hp
    cases hp
    cases hm with
    | direct native =>
      refine ⟨v, fun s hs => (by cases hs), fun _ => (List.forall₂_cons.1 hh).1, fun f' _ hget => hvar f' hget⟩
  | scalar type optional pointer buffer =>
    rw [type, optional] at hp
    cases hp
    cases hm with
    | handle native ptr =>
      refine ⟨v, ready_of_reinterpret rfl rfl rfl hdecl hh pointer (fun f' _ => hnil f') (fun f' hty => ?_)
        fun f' _ hget => hvar f' hget⟩
      simp [Interpreter.reinterpret, Heap.isObject_of_buffer buffer, buffer, hty, type]
  | object type pointer live => exact ⟨_, ready_object hp hm hdecl hh type pointer live⟩
  | @sequence _ _ _ _ n type pointer buffer held enough =>
    rw [Passing.of?_of_collection? type] at hp
    cases hp
    cases hm with
    | sequence native ptr length =>
      refine ⟨_, ready_of_reinterpret rfl rfl rfl hdecl hh pointer (fun f' h' => hline f' h') (fun f' hty => ?_)
        fun f' _ hget => hvar f' hget⟩
      have hsize : Layout.size [n] = n := Layout.size_singleton (lt_of_le_of_lt enough held.lt_count)
      rw [it.reinterpret_sequence hty type buffer (by rwa [hsize]), hsize]
  | array type rank_pos shape_length strides_length steps small pointer buffer held enough =>
    exact ⟨_, ready_array hp hm hdecl hh type rank_pos shape_length strides_length steps small pointer buffer
      ((Word.wrap_le _).trans enough)⟩

theorem Arrival.Ready.held_eq {held held' v' : Value} (h : (Arrival.mk x held v).Ready it f m)
    (h' : (Arrival.mk x held' v').Ready it f m) : held = held' := by
  cases hr : x.rebuild with
  | none => exact Option.some.inj ((h.direct hr).symm.trans (h'.direct hr))
  | some s =>
    have hrun := (h.rebuild s hr f rfl fun _ _ => rfl).symm.trans (h'.rebuild s hr f rfl fun _ _ => rfl)
    have hframe : f.set x.argument.native.name held = f.set x.argument.native.name held' :=
      Except.ok.inj (congrArg Prod.fst hrun)
    have hget := congrArg (·.locals.get? x.argument.native.name) hframe
    simpa only [f.get?_set_self, Option.some.injEq] using hget

end Ready

/-! ### The preparation of live arguments -/

theorem eq_of_nodup_flatMap {α β : Type} {f : α → List β} {l : List α} (h : (l.flatMap f).Nodup) {x y : α}
    (hx : x ∈ l) (hy : y ∈ l) {n : β} (hnx : n ∈ f x) (hny : n ∈ f y) : x = y := by
  by_contra hne
  have : Std.Symm (Function.onFun List.Disjoint f) := ⟨fun _ _ hd => List.Disjoint.symm hd⟩
  exact (List.nodup_flatMap.1 h).2.forall hx hy hne hnx hny

theorem filterMap_sublist_flatMap {α β : Type} {g : α → Option β} {f : α → List β} {l : List α}
    (h : ∀ x ∈ l, (g x).toList.Sublist (f x)) : (l.filterMap g).Sublist (l.flatMap f) := by
  rw [List.filterMap_eq_flatMap_toList]
  exact .flatMap_right l h

theorem length_flatMap_eq {α β γ δ : Type} {f : α → List γ} {g : β → List δ} {xs : List α} {ys : List β}
    (h : List.Forall₂ (fun x y => (f x).length = (g y).length) xs ys) :
    (xs.flatMap f).length = (ys.flatMap g).length := by
  induction h with
  | nil => rfl
  | cons hxy _ ih => rw [List.flatMap_cons, List.flatMap_cons, List.length_append, List.length_append, hxy, ih]

/-- The names of an argument are that of its native local and, for a pointer, those of its parameters and of
its view. -/
theorem Marshalled.names_eq {target : Target} {a : Semantic.Argument} {p : Passing} {x : MarshalledArgument}
    (h : Marshalled target a p x) :
    (x.rebuild = none ∧ x.viewAlias = none ∧ x.names = x.argument.paramNames) ∨
      ((∃ s, x.rebuild = some s) ∧
        x.names = x.argument.native.name :: (x.argument.paramNames ++ x.viewAlias.toList)) := by
  cases h with
  | direct native => exact .inl ⟨rfl, rfl, rfl⟩
  | handle native ptr => exact .inr ⟨⟨_, rfl⟩, rfl⟩
  | sequence native ptr length => exact .inr ⟨⟨_, rfl⟩, rfl⟩
  | array native ptr shape strides viewAlias =>
    refine .inr ⟨⟨_, rfl⟩, ?_⟩
    simp [MarshalledArgument.names, MarshalledArgument.companions, Argument.paramNames, Argument.params,
      Parameter.input, Function.comp_def]

theorem Marshalled.paramNames_sublist {target : Target} {a : Semantic.Argument} {p : Passing} {x : MarshalledArgument}
    (h : Marshalled target a p x) : x.argument.paramNames.Sublist x.names := by
  rcases h.names_eq with ⟨-, -, hnames⟩ | ⟨-, hnames⟩ <;> rw [hnames]
  exact (List.sublist_append_left _ _).cons _

namespace Arrival

open CallSite

def native (x : Arrival) : String := x.argument.argument.native.name

/-- The statement that rebuilds the native value, with what it binds. -/
def rebuildStep (x : Arrival) : Option (Stmt × String × Value) :=
  x.argument.rebuild.map fun s => (s, x.native, x.held)

/-- The statement that binds the view, with what it binds. -/
def viewStep (x : Arrival) : Option (Stmt × String × Value) :=
  x.argument.viewAlias.map fun n => (.aliasAssign (.var n) x.argument.argument.callValue, n, x.passed)

/-- The receiver first. -/
def ordered (xs : List Arrival) : List Arrival :=
  xs.filter (·.argument.argument.isBound) ++ xs.filter (!·.argument.argument.isBound)

theorem ordered_perm (xs : List Arrival) : (ordered xs).Perm xs := List.filter_append_perm _ _

theorem preparation_eq (xs : List Arrival) : preparation (xs.map (·.argument)) =
    ((ordered xs).filterMap rebuildStep).map (·.1) ++ ((ordered xs).filterMap viewStep).map (·.1) := by
  have hfirst : receiverFirst (xs.map (·.argument)) = (ordered xs).map (·.argument) := by
    rw [receiverFirst, ordered, List.map_append, List.filter_map, List.filter_map]
    rfl
  rw [preparation, hfirst, List.map_filterMap, List.map_filterMap, List.filterMap_map, List.filterMap_map]
  congr 2 <;> funext x
  · simp [rebuildStep, Function.comp_def]
  · simp [viewStep, bindView, Function.comp_def]

section

variable {it : Interpreter} {f : Frame} {m : Machine} {xs : List Arrival}

theorem mem_rebuildStep {n : String} {l : List Arrival} :
    n ∈ (l.filterMap rebuildStep).map (·.2.1) ↔ ∃ x ∈ l, (∃ s, x.argument.rebuild = some s) ∧ x.native = n := by
  simp only [List.map_filterMap, List.mem_filterMap, rebuildStep, Option.map_map, Option.map_eq_some_iff,
    Function.comp_apply]
  exact ⟨fun ⟨x, hx, s, hs, hn⟩ => ⟨x, hx, ⟨s, hs⟩, hn⟩, fun ⟨x, hx, ⟨s, hs⟩, hn⟩ => ⟨x, hx, s, hs, hn⟩⟩

theorem mem_viewStep {n : String} {l : List Arrival} :
    n ∈ (l.filterMap viewStep).map (·.2.1) ↔ ∃ x ∈ l, x.argument.viewAlias = some n := by
  simp [List.map_filterMap, viewStep, Option.map_map]

end

/-- Arrivals of marshalled arguments that share no names. -/
structure Separate (target : Target) (xs : List Arrival) : Prop where
  marshalled : ∀ x ∈ xs, ∃ a p, Marshalled target a p x.argument
  nodup : (xs.flatMap (·.argument.names)).Nodup

namespace Separate

variable {target : Target} {xs : List Arrival} (h : Separate target xs)

include h

theorem ordered : Separate target (ordered xs) where
  marshalled x hx := h.marshalled x ((ordered_perm xs).mem_iff.1 hx)
  nodup := ((ordered_perm xs).flatMap_right _).nodup_iff.2 h.nodup

theorem nodup_rebuildStep : ((xs.filterMap rebuildStep).map (·.2.1)).Nodup := by
  rw [List.map_filterMap]
  refine (filterMap_sublist_flatMap fun x hx => ?_).nodup h.nodup
  obtain ⟨a, p, hx⟩ := h.marshalled x hx
  rcases hx.names_eq with ⟨hr, -⟩ | ⟨⟨s, hs⟩, hn⟩
  · simp [rebuildStep, hr]
  · simp [rebuildStep, hs, hn, native]

theorem nodup_viewStep : ((xs.filterMap viewStep).map (·.2.1)).Nodup := by
  rw [List.map_filterMap]
  refine (filterMap_sublist_flatMap fun x hx => ?_).nodup h.nodup
  obtain ⟨a, p, hx⟩ := h.marshalled x hx
  rcases hx.names_eq with ⟨-, hv, -⟩ | ⟨-, hn⟩
  · simp [viewStep, hv]
  · rw [hn]
    refine .cons _ (.trans ?_ (List.sublist_append_right _ _))
    cases hv : x.argument.viewAlias <;> simp [viewStep, hv]

variable {x y : Arrival} (hx : x ∈ xs) (hy : y ∈ xs)

include hx hy

theorem param_ne_native {n : String} (hn : n ∈ x.argument.argument.paramNames)
    (hr : ∃ s, y.argument.rebuild = some s) : n ≠ y.native := by
  rintro rfl
  obtain ⟨a, p, hm⟩ := h.marshalled x hx
  have hmem : y.native ∈ x.argument.names := hm.paramNames_sublist.subset hn
  obtain rfl := eq_of_nodup_flatMap h.nodup hx hy hmem List.mem_cons_self
  obtain ⟨s, hs⟩ := hr
  rcases hm.names_eq with ⟨hnone, -⟩ | ⟨-, hnames⟩
  · rw [hs] at hnone
    cases hnone
  · have hnd := (List.nodup_flatMap.1 h.nodup).1 x hx
    rw [hnames] at hnd
    exact (List.nodup_cons.1 hnd).1 (List.mem_append_left _ hn)

theorem ne_view {n v : String} (hn : n = x.native ∨ n ∈ x.argument.argument.paramNames)
    (hv : y.argument.viewAlias = some v) : n ≠ v := by
  rintro rfl
  obtain ⟨a, p, hm⟩ := h.marshalled x hx
  obtain ⟨b, q, hm'⟩ := h.marshalled y hy
  have hmem : n ∈ x.argument.names := by
    rcases hn with rfl | hn
    · exact List.mem_cons_self
    · exact hm.paramNames_sublist.subset hn
  rcases hm'.names_eq with ⟨-, hnone, -⟩ | ⟨-, hnames⟩
  · rw [hv] at hnone
    cases hnone
  have hmem' : n ∈ y.argument.names := by
    rw [hnames, hv]
    simp
  obtain rfl := eq_of_nodup_flatMap h.nodup hx hy hmem hmem'
  have hnd := (List.nodup_flatMap.1 h.nodup).1 x hx
  rw [hnames, hv, List.nodup_cons, List.nodup_append] at hnd
  rcases hn with rfl | hn
  · exact hnd.1 (by simp [native])
  · exact hnd.2.2.2 n hn n (by simp) rfl

theorem native_ne_native (hnone : x.argument.rebuild = none) (hr : ∃ s, y.argument.rebuild = some s) :
    x.native ≠ y.native := by
  intro heq
  obtain rfl := eq_of_nodup_flatMap h.nodup hx hy (n := x.native) List.mem_cons_self (heq ▸ List.mem_cons_self)
  obtain ⟨s, hs⟩ := hr
  rw [hs] at hnone
  cases hnone

end Separate

variable {it : Interpreter} {f : Frame} {m : Machine} {xs : List Arrival}

theorem evalActuals_eq (h : ∀ x ∈ xs, it.eval f x.argument.passedValue m = (.ok x.passed, m)) (place : Nat) :
    it.evalActuals f place (actuals (xs.map (·.argument))) m
      = (.ok (xs.map fun x => (x.argument.name, x.passed)), m) := by
  induction xs generalizing place with
  | nil => simp only [List.map_nil, actuals, Interpreter.evalActuals, pure_apply]
  | cons x xs ih =>
    have ih := ih (fun y hy => h y (List.mem_cons_of_mem _ hy)) (place + 1)
    rw [actuals] at ih
    simp only [List.map_cons, actuals, Interpreter.evalActuals]
    rw [bind_ok (h x List.mem_cons_self), bind_ok ih, pure_apply]
    rfl

/-- The native values of arguments that are ready are rebuilt one after the other. -/
theorem Separate.rebuild (h : Separate it.target xs) (hready : ∀ x ∈ xs, x.Ready it f m) :
    ∃ f₁, it.execBlock f ((xs.filterMap rebuildStep).map (·.1)) m = (.ok f₁, m) ∧
      Frame.Outside ((xs.filterMap rebuildStep).map (·.2.1)) f f₁ ∧
      (∀ x ∈ xs, ∀ n ∈ x.argument.argument.paramNames, f₁.locals.get? n = f.locals.get? n) ∧
      ∀ x ∈ xs, f₁.locals.get? x.native = some x.held := by
  obtain ⟨f₁, hrun, hout, hget⟩ := it.execBlock_binds h.nodup_rebuildStep
    (fun s hs => List.mem_map.2 ⟨s, hs, rfl⟩) (fun s hs f' hf' => by
      obtain ⟨x, hx, hs⟩ := List.mem_filterMap.1 hs
      obtain ⟨st, hst, rfl⟩ := Option.map_eq_some_iff.1 hs
      refine (hready x hx).rebuild st hst f' hf'.function fun n hn => hf'.get? n fun hin => ?_
      obtain ⟨y, hy, hr, rfl⟩ := mem_rebuildStep.1 hin
      exact h.param_ne_native hx hy hn hr rfl)
    (Frame.Outside.refl _ f)
  refine ⟨f₁, hrun, hout, fun x hx n hn => hout.get? n fun hin => ?_, fun x hx => ?_⟩
  · obtain ⟨y, hy, hr, rfl⟩ := mem_rebuildStep.1 hin
    exact h.param_ne_native hx hy hn hr rfl
  · cases hr : x.argument.rebuild with
    | some s => exact hget _ (List.mem_filterMap.2 ⟨x, hx, by rw [rebuildStep, hr]; rfl⟩)
    | none =>
      rw [hout.get? _ fun hin => ?_]
      · exact (hready x hx).direct hr
      · obtain ⟨y, hy, hr', heq⟩ := mem_rebuildStep.1 hin
        exact h.native_ne_native hx hy hr hr' heq.symm

theorem Separate.prepare (h : Separate it.target xs) (hready : ∀ x ∈ xs, x.Ready it f m) :
    ∃ f', it.execBlock f (preparation (xs.map (·.argument))) m = (.ok f', m) ∧
      it.evalActuals f' 0 (actuals (xs.map (·.argument))) m
        = (.ok (xs.map fun x => (x.argument.name, x.passed)), m) ∧
      ∀ x ∈ xs, f'.locals.get? x.native = some x.held := by
  have hmem : ∀ {x}, x ∈ Arrival.ordered xs ↔ x ∈ xs := (ordered_perm xs).mem_iff
  rw [preparation_eq, it.execBlock_append]
  obtain ⟨f₁, hrun₁, -, hparams, hheld⟩ := h.ordered.rebuild fun x hx => hready x (hmem.1 hx)
  -- the views
  have hkept : ∀ x ∈ xs, ∀ f' : Frame, Frame.Outside (((Arrival.ordered xs).filterMap viewStep).map (·.2.1)) f₁ f' →
      ∀ n, n = x.native ∨ n ∈ x.argument.argument.paramNames → f'.locals.get? n = f₁.locals.get? n := by
    intro x hx f' hf' n hn
    refine hf'.get? n fun hin => ?_
    obtain ⟨y, hy, hv⟩ := mem_viewStep.1 hin
    exact h.ne_view hx (hmem.1 hy) hn hv rfl
  have hvalue : ∀ x ∈ xs, ∀ f' : Frame, Frame.Outside (((Arrival.ordered xs).filterMap viewStep).map (·.2.1)) f₁ f' →
      it.eval f' x.argument.argument.callValue m = (.ok x.passed, m) := by
    intro x hx f' hf'
    refine (hready x hx).value f' (fun n hn => ?_) ?_
    · rw [hkept x hx f' hf' n (.inr hn), hparams x (hmem.2 hx) n hn]
    · exact (hkept x hx f' hf' _ (.inl rfl)).trans (hheld x (hmem.2 hx))
  obtain ⟨f₂, hrun₂, hout₂, hget₂⟩ := it.execBlock_binds h.ordered.nodup_viewStep
    (fun s hs => List.mem_map.2 ⟨s, hs, rfl⟩) (fun s hs f' hf' => by
      obtain ⟨x, hx, hs⟩ := List.mem_filterMap.1 hs
      obtain ⟨n, -, rfl⟩ := Option.map_eq_some_iff.1 hs
      rw [it.exec_aliasAssign_var, bind_ok (hvalue x (hmem.1 hx) f' hf'), pure_apply])
    (Frame.Outside.refl _ f₁)
  refine ⟨f₂, by rw [bind_ok hrun₁, hrun₂], evalActuals_eq (fun x hx => ?_) 0, fun x hx =>
    (hkept x hx f₂ hout₂ _ (.inl rfl)).trans (hheld x (hmem.2 hx))⟩
  unfold MarshalledArgument.passedValue
  split
  · rename_i n hn
    exact it.eval_var (hget₂ _ (List.mem_filterMap.2 ⟨x, hmem.2 hx, by rw [viewStep, hn]; rfl⟩))
  · exact hvalue x hx f₂ hout₂

end Arrival

/-! ### Values of all parameters -/

section Crossing

variable {it : Interpreter} {f : Frame} {m : Machine} {heap : Heap} {order : StorageOrder} {target : Target}
  {a : Semantic.Argument} {p : Passing} {x : MarshalledArgument} {values : List Value} {o : Option Value}

theorem Crosses.length_eq (h : Crosses heap order a values o) : values.length = a.lengthCount + 1 := by
  cases h with
  | absent optional count => simp [count]
  | sequence type => cases ht : a.type <;> simp_all [Semantic.Argument.lengthCount, ValueType.collection?]
  | array type => simp_all [Semantic.Argument.lengthCount]
  | _ => simp_all [Semantic.Argument.lengthCount]

theorem Marshalled.length_paramNames (hp : Passing.of? a.type a.optional = some p) (hm : Marshalled target a p x) :
    x.argument.paramNames.length = a.lengthCount + 1 := by
  cases hm <;> cases ht : a.type <;> cases ho : a.optional <;>
    simp_all [Passing.of?, Argument.paramNames, Argument.params, Semantic.Argument.lengthCount, ValueType.rank]

theorem Value.isNull_of_handle? {v : Value} {h : Handle} (hv : v.handle? = some h) : v.isNull = false := by
  cases v with
  | ptr h' => cases h' <;> simp_all [Value.handle?, Value.isNull]
  | object h' => rfl
  | _ => cases hv

theorem Crosses.exists_pointer (hc : Crosses heap order a values o) (ho : a.optional = true) :
    ∃ v rest, values = v :: rest ∧ o.isSome = !v.isNull := by
  cases hc with
  | direct type required => rw [ho] at required; cases required
  | absent optional count => exact ⟨_, _, rfl, rfl⟩
  | scalar type optional pointer => exact ⟨_, _, rfl, by simp [Value.isNull_of_handle? pointer]⟩
  | object type pointer => exact ⟨_, _, rfl, by simp [Value.isNull_of_handle? pointer]⟩
  | sequence type pointer => exact ⟨_, _, rfl, by simp [Value.isNull_of_handle? pointer]⟩
  | array type rank_pos shape_length strides_length steps _ pointer =>
    exact ⟨_, _, rfl, by simp [Value.isNull_of_handle? pointer]⟩

theorem Crosses.isLive_eq (hp : Passing.of? a.type a.optional = some p) (hm : Marshalled target a p x)
    (hh : f.Holds x.argument.paramNames values) (hc : Crosses heap order a values o) : x.isLive f = o.isSome := by
  have hoptional : x.argument.isOptional = a.optional := congrArg Semantic.Argument.optional hm.declared_eq
  cases ho : a.optional with
  | false =>
    cases hc with
    | absent optional => rw [ho] at optional; cases optional
    | _ => simp [MarshalledArgument.isLive, hoptional, ho]
  | true =>
    obtain ⟨ptr, names, hptr, hparams⟩ : ∃ ptr names, x.argument.pointer? = some ptr ∧
        x.argument.paramNames = ptr :: names := by
      cases hm with
      | direct native => exact absurd (ho.symm.trans (Passing.of?_eq_direct hp).2) (by simp)
      | _ => exact ⟨_, _, rfl, rfl⟩
    obtain ⟨v, rest, rfl, hv⟩ := hc.exists_pointer ho
    rw [hparams] at hh
    simp [MarshalledArgument.isLive, hoptional, ho, hptr, (List.forall₂_cons.1 hh).1, hv]

/-- What the wrapped function receives: the arguments that are not absent, in their order. -/
def passedArguments (arguments : List Semantic.Argument) (crossings : List (List Value × Option Value)) :
    List (String × Value) :=
  (arguments.zip crossings).filterMap fun p => p.2.2.map (p.1.name, ·)

/-- The live arguments, each ready with the value that crosses. -/
theorem exists_arrivals {declared : List Semantic.Argument} {arguments : List MarshalledArgument}
    {crossings : List (List Value × Option Value)}
    (hm : List.Forall₂ (fun a x => ∃ p, Passing.of? a.type a.optional = some p ∧ Marshalled it.target a p x)
      declared arguments)
    (hc : List.Forall₂ (fun a c => Crosses m.heap it.target.storageOrder a c.1 c.2) declared crossings)
    (hh : List.Forall₂ (fun x c => f.Holds x.argument.paramNames c.1) arguments crossings)
    (hdecl : ∀ x ∈ arguments, ∀ l ∈ x.declares, f.function.local? l.name = some l) :
    ∃ xs : List Arrival, arguments.filter (·.isLive f) = xs.map (·.argument) ∧ (∀ x ∈ xs, x.Ready it f m) ∧
      passedArguments declared crossings = xs.map fun x => (x.argument.name, x.passed) := by
  induction hm generalizing crossings with
  | nil =>
    cases hc
    exact ⟨[], rfl, by simp, rfl⟩
  | cons hmx _ ih =>
    rename_i a x declared arguments hrest
    obtain ⟨p, hp, hmx⟩ := hmx
    cases hc with
    | cons hcx hc =>
      rename_i c crossings
      obtain ⟨hhx, hh⟩ := List.forall₂_cons.1 hh
      obtain ⟨xs, hlive, hready, hpassed⟩ := ih hc hh fun y hy => hdecl y (List.mem_cons_of_mem _ hy)
      have hx := Crosses.isLive_eq hp hmx hhx hcx
      obtain ⟨values, o⟩ := c
      cases o with
      | none =>
        refine ⟨xs, ?_, hready, ?_⟩
        · rw [List.filter_cons_of_neg (by simp [hx]), hlive]
        · simpa [passedArguments] using hpassed
      | some v =>
        obtain ⟨held, hv⟩ := exists_ready hp hmx (hdecl x List.mem_cons_self) hhx hcx
        refine ⟨⟨x, held, v⟩ :: xs, ?_, List.forall_mem_cons.2 ⟨hv, hready⟩, ?_⟩
        · rw [List.filter_cons_of_pos (by simp [hx]), hlive, List.map_cons]
        · have hname : x.name = a.name := congrArg Semantic.Argument.name hmx.declared_eq
          simpa [passedArguments, hname] using hpassed

end Crossing

theorem Frame.Holds.of_flatMap {f : Frame} {α β : Type} {names : α → List String} {values : β → List Value}
    {xs : List α} {ys : List β} (hl : List.Forall₂ (fun x y => (names x).length = (values y).length) xs ys)
    (h : f.Holds (xs.flatMap names) (ys.flatMap values)) :
    List.Forall₂ (fun x y => f.Holds (names x) (values y)) xs ys := by
  induction hl with
  | nil => exact .nil
  | cons hxy _ ih =>
    rw [List.flatMap_cons, List.flatMap_cons, Frame.Holds.append_iff hxy] at h
    exact .cons h.1 (ih h.2)

/-- The wrapper that a job made, under its own name in the module of the interpreter. -/
structure Interpreter.Wraps (it : Interpreter) (job : Job) (w : Wrapper.Function) : Prop where
  made : ∃ t t', job.run it.target t = (.ok w, t')
  found : it.module.function? w.name = some w

/-- A module that consists of one wrapper. -/
def Wrapper.Module.single (target : Target) (w : Wrapper.Function) : Wrapper.Module where
  name := "lib_bridge"
  wraps := "lib"
  target := target
  globals := []
  functions := [w]
  initFunction := none
  freeFunction := none
  interfaces := []
  classes := []
  removedFunctions := []

/-- Every job whose types all have forms is wrapped, from any tree of scopes. -/
theorem Interpreter.wraps_single {target : Target} {job : Job} {plan : CrossingPlan}
    (hplan : CrossingPlan.of job.function = .ok plan) (t : ScopeTree) (hosts : Hosts) (globals : Bindings Value) :
    Interpreter.Wraps ⟨.single target (job.lower target plan t).1, target, hosts, globals⟩ job
      (job.lower target plan t).1 where
  made := ⟨t, _, Job.run_eq_ok hplan target t⟩
  found := by simp [Wrapper.Module.function?, Wrapper.Module.allFunctions, Wrapper.Module.single,
    Wrapper.Module.variableAccessors]

namespace Interpreter

/-- The wrapper of a function, and a module that holds only this wrapper. The host returns fixed values. -/
def plainWrapper (target : Target) (f : Semantic.Function) (plan : CrossingPlan) : Wrapper.Function :=
  ((functionJob f).lower target plan (.new target "lib" [])).1

def plainInterpreter (target : Target) (f : Semantic.Function) (plan : CrossingPlan) (vs : List Value) : Interpreter :=
  ⟨.single target (plainWrapper target f plan), target, [(⟨none, f.name⟩, fun _ heap => (.ok vs, heap))], []⟩

theorem plain_wraps (target : Target) (f : Semantic.Function) (plan : CrossingPlan) (vs : List Value)
    (h : CrossingPlan.of f = .ok plan) :
    (plainInterpreter target f plan vs).Wraps (functionJob f) (plainWrapper target f plan) :=
  wraps_single h _ _ _

end Interpreter

namespace Lowered

open Interpreter

variable {it : Interpreter} {job : Job} {w : Wrapper.Function} {arguments : List MarshalledArgument}
  {results : List MarshalledResult} {m : Machine} {crossings : List (List Value × Option Value)}

theorem entry_holds {target : Target} {α : Type} {values : α → List Value} {chunks : List α}
    (h : Lowered target job w arguments results) (hnames : (job.function.arguments.map (·.name)).Nodup)
    (hlength : List.Forall₂ (fun x c => x.argument.paramNames.length = (values c).length) arguments chunks) :
    (w.signature.inputs.map (·.name)).length = (chunks.flatMap values).length ∧
      List.Forall₂ (fun x c => (entry w (chunks.flatMap values)).Holds x.argument.paramNames (values c))
        arguments chunks := by
  have hinputs := h.inputs_eq
  have hl : (w.signature.inputs.map (·.name)).length = (chunks.flatMap values).length := by
    rw [hinputs, length_flatMap_eq hlength]
  have hparams : (arguments.flatMap (·.argument.paramNames)).Nodup := by
    refine (List.Sublist.flatMap_right _ fun x hx => ?_).nodup (h.distinct hnames).1
    obtain ⟨a, -, p, -, hm⟩ := exists_of_forall₂_right h.marshalled hx
    exact hm.paramNames_sublist
  have hholds : (entry w (chunks.flatMap values)).Holds (w.signature.inputs.map (·.name)) (chunks.flatMap values) :=
    Bindings.forall₂_get?_ofPairs hl (hinputs ▸ hparams) []
  rw [hinputs] at hholds
  exact ⟨hl, Frame.Holds.of_flatMap hlength hholds⟩

theorem length_params (h : Lowered it.target job w arguments results)
    (hcross : List.Forall₂ (fun a c => Crosses m.heap it.target.storageOrder a c.1 c.2)
      job.function.arguments crossings) :
    List.Forall₂ (fun x c => x.argument.paramNames.length = c.1.length) arguments crossings := by
  refine forall₂_trans h.marshalled.flip hcross fun x a c hx hc => ?_
  obtain ⟨p, hp, hm⟩ := hx
  rw [hm.length_paramNames hp, hc.length_eq]

/-- When the host is called, the native locals of the live arguments hold what is rebuilt for them. -/
def Holding (it : Interpreter) (w : Wrapper.Function) (arguments : List MarshalledArgument) (inputs : List Value)
    (m : Machine) (f : Frame) : Prop :=
  ∀ x ∈ liveAt w inputs arguments, ∀ held v, (Arrival.mk x held v).Ready it (entry w inputs) m →
    f.locals.get? x.argument.native.name = some held

/-- Values that cross are prepared, in a frame that holds the native values of the live arguments. -/
theorem prepared_holding (h : Lowered it.target job w arguments results)
    (hnames : (job.function.arguments.map (·.name)).Nodup)
    (hcross : List.Forall₂ (fun a c => Crosses m.heap it.target.storageOrder a c.1 c.2)
      job.function.arguments crossings) :
    ∃ f, Prepared it w arguments (crossings.flatMap (·.1)) m f (passedArguments job.function.arguments crossings) ∧
      Holding it w arguments (crossings.flatMap (·.1)) m f := by
  obtain ⟨hnd, hdecl⟩ := h.distinct hnames
  obtain ⟨hl, hholds⟩ := h.entry_holds hnames (h.length_params hcross)
  obtain ⟨xs, hlive, hready, hpassed⟩ := exists_arrivals h.marshalled hcross hholds hdecl
  have hsub : (xs.map (·.argument)).Sublist arguments := hlive ▸ List.filter_sublist
  have hseparate : Arrival.Separate it.target xs := by
    refine ⟨fun x hx => ?_, ?_⟩
    · obtain ⟨a, -, p, -, hm⟩ := h.exists_marshalled (hsub.subset (List.mem_map_of_mem hx))
      exact ⟨a, p, hm⟩
    · have := (hsub.flatMap (·.names)).nodup hnd
      rwa [List.flatMap_map] at this
  obtain ⟨f, hrun, hargs, hheld⟩ := hseparate.prepare hready
  refine ⟨f, ⟨hl, ?_, ?_⟩, fun x hx held v hx' => ?_⟩
  · rw [liveAt, hlive, hrun]
  · rw [liveAt, hlive, hargs, hpassed]
  · rw [liveAt, hlive] at hx
    obtain ⟨y, hy, rfl⟩ := List.mem_map.1 hx
    exact (hheld y hy).trans (congrArg some ((hready y hy).held_eq hx'))

/-- Values that cross are prepared, and passed on under the names of their arguments. -/
theorem prepared_of_crosses (h : Lowered it.target job w arguments results)
    (hnames : (job.function.arguments.map (·.name)).Nodup)
    (hcross : List.Forall₂ (fun a c => Crosses m.heap it.target.storageOrder a c.1 c.2)
      job.function.arguments crossings) :
    ∃ f, Prepared it w arguments (crossings.flatMap (·.1)) m f (passedArguments job.function.arguments crossings) := by
  obtain ⟨f, hf, -⟩ := h.prepared_holding hnames hcross
  exact ⟨f, hf⟩

section Kept

variable {inputs : List Value} {f : Frame} {args : List (String × Value)} {x : MarshalledArgument} {n : String}

end Kept

end Lowered

/-! ### What one argument contributes -/

namespace Interpreter

variable {it : Interpreter} {job : Job} {w : Wrapper.Function} {callee : Callee} {host : Host} {m : Machine}
  {crossings : List (List Value × Option Value)}

end Interpreter

end AbiBridge
