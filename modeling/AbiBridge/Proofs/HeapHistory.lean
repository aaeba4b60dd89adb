import Mathlib
import AbiBridge.Machine.Script
import AbiBridge.Machine.Session
import AbiBridge.Proofs.Effects

/-!
# The history of a heap

`Heap.Ages` says what can become of a heap: cells are added, and a cell keeps its kind and the length of its buffer
until it is freed, and then stays freed. An operation that writes or frees a cell changes that cell only, so and in no
other way (`Heap.Rewrites`). Every operation on a heap is thus such a change (`HeapAction.run_ages`), so everything is
that a host does through them (`Confined`), and with it a call of a wrapper (`Interpreter.call_ages`) and a whole
session (`Session.after_ages`).
-/

namespace AbiBridge

/-! ### What becomes of cells -/

/-- What a cell may be later. -/
inductive Cell.Becomes : Cell → Cell → Prop
  | buffer {items items' : List Value} (h : items'.length = items.length) : Becomes (.buffer items) (.buffer items')
  | object (o o' : Instance) : Becomes (.object o) (.object o')
  | freed (c : Cell) : Becomes c .freed

theorem Cell.Becomes.refl (c : Cell) : c.Becomes c := by
  cases c with
  | buffer items => exact .buffer rfl
  | object o => exact .object o o
  | freed => exact .freed _

theorem Cell.Becomes.trans {a b c : Cell} (h : a.Becomes b) (h' : b.Becomes c) : a.Becomes c := by
  cases h with
  | buffer h =>
    cases h' with
    | buffer h' => exact .buffer (h'.trans h)
    | freed => exact .freed _
  | object o o' =>
    cases h' with
    | object o' o'' => exact .object o o''
    | freed => exact .freed _
  | freed =>
    cases h'
    exact .freed _

/-- The second heap is what the first may be later. -/
def Heap.Ages (heap heap' : Heap) : Prop := ∀ h c, heap.cell? h = some c → ∃ c', heap'.cell? h = some c' ∧ c.Becomes c'

namespace Heap.Ages

variable {heap heap' heap'' : Heap}

theorem refl (heap : Heap) : heap.Ages heap := fun _ c hc => ⟨c, hc, .refl c⟩

theorem trans (h : heap.Ages heap') (h' : heap'.Ages heap'') : heap.Ages heap'' := by
  intro a c hc
  obtain ⟨c', hc', hb⟩ := h a c hc
  obtain ⟨c'', hc'', hb'⟩ := h' a c' hc'
  exact ⟨c'', hc'', hb.trans hb'⟩

theorem push (heap : Heap) (c : Cell) : heap.Ages (heap.push c) := by
  intro h d hd
  refine ⟨d, ?_, .refl d⟩
  have hlt : h < heap.cells.length := (List.getElem?_eq_some_iff.1 hd).1
  rw [Heap.push, cell?, List.getElem?_append_left hlt]
  exact hd

theorem setCell {h : Handle} {c c' : Cell} (hc : heap.cell? h = some c) (hb : c.Becomes c') :
    heap.Ages (heap.setCell h c') := by
  intro k d hd
  by_cases hk : h = k
  · subst hk
    cases hc.symm.trans hd
    exact ⟨c', heap.cell?_setCell hc c', hb⟩
  · refine ⟨d, ?_, .refl d⟩
    rw [Heap.setCell, cell?, List.getElem?_set_ne hk]
    exact hd

theorem freed (h : heap.Ages heap') {a : Handle} (ha : heap.cell? a = some .freed) : heap'.cell? a = some .freed := by
  obtain ⟨c, hc, hb⟩ := h a _ ha
  cases hb
  exact hc

end Heap.Ages

/-- The second heap is the first one, or it has another cell behind the handle, one that the cell there may become. -/
inductive Heap.Rewrites (h : Handle) (heap : Heap) : Heap → Prop
  | kept : Rewrites h heap heap
  | cell {c c' : Cell} (hc : heap.cell? h = some c) (hb : c.Becomes c') : Rewrites h heap (heap.setCell h c')

namespace Heap.Rewrites

variable {h : Handle} {heap heap' heap'' : Heap}

theorem trans (hr : heap.Rewrites h heap') (hr' : heap'.Rewrites h heap'') : heap.Rewrites h heap'' := by
  cases hr with
  | kept => exact hr'
  | cell hc hb =>
    cases hr' with
    | kept => exact .cell hc hb
    | cell hc' hb' =>
      cases (heap.cell?_setCell hc _).symm.trans hc'
      rw [setCell_setCell]
      exact .cell hc (hb.trans hb')

theorem ages (hr : heap.Rewrites h heap') : heap.Ages heap' := by
  cases hr with
  | kept => exact .refl heap
  | cell hc hb => exact .setCell hc hb

end Heap.Rewrites

/-! ### Runs that move on -/

namespace Run

variable {σ τ α β : Type} {R : σ → σ → Prop}

theorem update_ok {g : σ → Except Trap σ} {s s' : σ} (h : update g s = (.ok (), s')) : g s = .ok s' := by
  unfold update at h
  split at h <;> cases h
  assumption

/-- The run takes every state to one that is related to it, also when it traps. -/
def Moves (R : σ → σ → Prop) (x : Run σ α) : Prop := ∀ s, R s (x s).2

namespace Moves

theorem mono {R' : σ → σ → Prop} {x : Run σ α} (hx : Moves R x) (h : ∀ {s s'}, R s s' → R' s s') : Moves R' x :=
  fun s => h (hx s)

theorem bind [IsTrans σ R] {x : Run σ α} {f : α → Run σ β} (hx : Moves R x) (hf : ∀ a, Moves R (f a)) :
    Moves R (x >>= f) := by
  intro s
  have h := hx s
  rw [bind_apply]
  rcases hxs : x s with ⟨e | a, s'⟩ <;> rw [hxs] at h
  · exact h
  · exact trans_of R h (hf a s')

variable [Std.Refl R]

theorem pure (a : α) : Moves R (pure a : Run σ α) := fun s => refl_of R s

theorem trap (e : Trap) : Moves R (trap e : Run σ α) := fun s => refl_of R s

theorem ofExcept (r : Except Trap α) : Moves R (ofExcept r : Run σ α) := fun s => refl_of R s

theorem read (g : σ → Except Trap α) : Moves R (read g) := fun s => refl_of R s

theorem update {g : σ → Except Trap σ} (h : ∀ s s', g s = .ok s' → R s s') : Moves R (update g) := by
  intro s
  unfold Run.update
  split
  · exact h s _ ‹_›
  · exact refl_of R s

end Moves

end Run

open Run

instance : Std.Refl Heap.Ages := ⟨Heap.Ages.refl⟩

instance : IsTrans Heap Heap.Ages := ⟨fun _ _ _ => Heap.Ages.trans⟩

instance (h : Handle) : Std.Refl (Heap.Rewrites h) := ⟨fun _ => .kept⟩

instance (h : Handle) : IsTrans Heap (Heap.Rewrites h) := ⟨fun _ _ _ => Heap.Rewrites.trans⟩

/-! ### Operations on the heap -/

namespace HeapM

theorem allocBuffer_ages (items : List Value) : Moves Heap.Ages (allocBuffer items) := fun heap => .push heap _

theorem allocObject_ages (className : String) : Moves Heap.Ages (allocObject className) := fun heap => .push heap _

theorem newArray_ages (extents : List Nat) (order : StorageOrder) : Moves Heap.Ages (newArray extents order) :=
  .bind (allocBuffer_ages _) fun _ => .pure _

theorem exists_of_free {heap heap' : Heap} {h : Handle} (hfree : heap.free h = .ok heap') :
    ∃ c, heap.cell? h = some c ∧ heap' = heap.setCell h .freed := by
  unfold Heap.free at hfree
  split at hfree
  · rename_i hlive
    cases hfree
    unfold Heap.isLive at hlive
    split at hlive
    · exact ⟨_, ‹_›, rfl⟩
    · exact ⟨_, ‹_›, rfl⟩
    · cases hlive
  · cases hfree

theorem cell?_of_free {heap heap' : Heap} {h : Handle} (hfree : free h heap = (.ok (), heap')) :
    heap'.cell? h = some .freed := by
  obtain ⟨c, hc, rfl⟩ := exists_of_free (update_ok hfree)
  exact heap.cell?_setCell hc _

theorem free_rewrites (h : Handle) : Moves (Heap.Rewrites h) (free h) := by
  refine .update fun heap heap' hfree => ?_
  obtain ⟨c, hc, rfl⟩ := exists_of_free hfree
  exact .cell hc (.freed c)

theorem free_ages (h : Handle) : Moves Heap.Ages (free h) := (free_rewrites h).mono Heap.Rewrites.ages

theorem setElement_rewrites (v : View) (index : List Nat) (x : Value) :
    Moves (Heap.Rewrites v.buffer) (setElement v index x) := by
  refine .update fun heap heap' hset => ?_
  unfold Heap.setElement at hset
  split at hset
  · cases hset
  split at hset
  · split at hset
    · cases hset
      exact .cell ‹_› (.buffer List.length_set)
    · cases hset
  · cases hset
  · cases hset

theorem setElement_ages (v : View) (index : List Nat) (x : Value) : Moves Heap.Ages (setElement v index x) :=
  (setElement_rewrites v index x).mono Heap.Rewrites.ages

/-- Changes the instance behind a handle. -/
def edit (h : Handle) (change : Instance → Instance) : HeapM Unit :=
  .update fun heap => (heap.object h).map fun o => heap.setCell h (.object (change o))

theorem edit_rewrites (h : Handle) (change : Instance → Instance) : Moves (Heap.Rewrites h) (edit h change) := by
  refine .update fun heap heap' hedit => ?_
  cases ho : heap.object h with
  | error e =>
    rw [ho] at hedit
    cases hedit
  | ok o =>
    rw [ho] at hedit
    cases hedit
    exact .cell (Heap.object_eq_ok.1 ho) (.object _ _)

theorem edit_ages (h : Handle) (change : Instance → Instance) : Moves Heap.Ages (edit h change) :=
  (edit_rewrites h change).mono Heap.Rewrites.ages

theorem modifyObject_eq (h : Handle) (f : Bindings Value → Bindings Value) :
    Run.update (·.modifyObject h f) = edit h fun o => { o with fields := f o.fields } := by
  funext heap
  simp only [edit, Run.update, Heap.modifyObject]
  cases heap.object h <;> rfl

theorem setField_rewrites (h : Handle) (name : String) (x : Value) : Moves (Heap.Rewrites h) (setField h name x) := by
  rw [setField, modifyObject_eq]
  exact edit_rewrites h _

theorem setField_ages (h : Handle) (name : String) (x : Value) : Moves Heap.Ages (setField h name x) :=
  (setField_rewrites h name x).mono Heap.Rewrites.ages

theorem writeAll_rewrites (v : View) (writes : List (List Nat × Value)) :
    Moves (Heap.Rewrites v.buffer) (writeAll v writes) := by
  induction writes with
  | nil =>
    rw [writeAll_nil]
    exact .pure _
  | cons w writes ih =>
    rw [writeAll_cons]
    exact .bind (setElement_rewrites v w.1 w.2) fun _ => ih

theorem copyInto_rewrites (dest : View) (source : Value) :
    Moves (Heap.Rewrites dest.buffer) (copyInto dest source) := by
  refine .bind (.read _) fun items => ?_
  dsimp only
  split
  · exact writeAll_rewrites dest _
  · exact .trap _

theorem copyInto_ages (dest : View) (source : Value) : Moves Heap.Ages (copyInto dest source) :=
  (copyInto_rewrites dest source).mono Heap.Rewrites.ages

end HeapM

open HeapM

theorem HeapAction.run_ages (a : HeapAction) : Moves Heap.Ages a.run := by
  cases a with
  | allocBuffer items => exact .bind (allocBuffer_ages items) fun _ => .pure _
  | allocObject className => exact .bind (allocObject_ages className) fun _ => .pure _
  | newArray extents order => exact .bind (newArray_ages extents order) fun _ => .pure _
  | isLive h => exact .bind (fun _ => .refl _) fun _ => .pure _
  | isObject h => exact .bind (fun _ => .refl _) fun _ => .pure _
  | buffer h => exact .bind (.read _) fun _ => .pure _
  | object h => exact .bind (.read _) fun _ => .pure _
  | setField h name v => exact .bind (setField_ages h name v) fun _ => .pure _
  | free h => exact .bind (free_ages h) fun _ => .pure _
  | element v index => exact .bind (.read _) fun _ => .pure _
  | setElement v index x => exact .bind (setElement_ages v index x) fun _ => .pure _
  | elements v => exact .bind (.read _) fun _ => .pure _
  | copyInto dest source => exact .bind (copyInto_ages dest source) fun _ => .pure _

/-! ### Hosts -/

/-- The computation reaches the heap through its operations only, one after the other; what comes next may depend on
what each of them gave, and on whether it failed. -/
inductive Confined {α : Type} : HeapM α → Prop
  | done (r : Except Trap α) : Confined fun heap => (r, heap)
  | act (a : HeapAction) {next : Except Trap HeapAnswer → HeapM α} (h : ∀ r, Confined (next r)) :
    Confined fun heap => next (a.run heap).1 (a.run heap).2
  | edit (h : Handle) (change : Instance → Instance) {next : Except Trap Unit → HeapM α} (hn : ∀ r, Confined (next r)) :
    Confined fun heap => next (HeapM.edit h change heap).1 (HeapM.edit h change heap).2

theorem Confined.ages {α : Type} {x : HeapM α} (h : Confined x) : Moves Heap.Ages x := by
  induction h with
  | done r => exact fun heap => .refl heap
  | act a _ ih => exact fun heap => (a.run_ages heap).trans (ih _ _)
  | edit h change _ ih => exact fun heap => (edit_ages h change heap).trans (ih _ _)

namespace Confined

variable {α β : Type}

theorem pure (a : α) : Confined (pure a : HeapM α) := .done (.ok a)

theorem ofExcept (r : Except Trap α) : Confined (Run.ofExcept r : HeapM α) := .done r

theorem bind {x : HeapM α} {f : α → HeapM β} (hx : Confined x) (hf : ∀ a, Confined (f a)) : Confined (x >>= f) := by
  induction hx with
  | done r =>
    cases r with
    | error e => exact .done (.error e)
    | ok a => exact hf a
  | act a _ ih => exact .act a ih
  | edit h change _ ih => exact .edit h change ih

/-- An operation is confined, whatever form its answer has. -/
theorem of_run (a : HeapAction) {x : HeapM α} (answer : α → HeapAnswer) (value : HeapAnswer → Except Trap α)
    (hrun : a.run = x >>= fun v => Pure.pure (answer v)) (hvalue : ∀ v, value (answer v) = .ok v) : Confined x := by
  have hx : x = fun heap => (fun r => Run.ofExcept (r >>= value) : Except Trap HeapAnswer → HeapM α)
      (a.run heap).1 (a.run heap).2 := by
    funext heap
    rw [hrun, bind_apply]
    rcases x heap with ⟨e | v, heap'⟩
    · rfl
    · simp only [pure_apply, ofExcept_apply, ← hvalue v]
      rfl
  rw [hx]
  exact .act a fun r => .ofExcept (r >>= value)

theorem allocBuffer (items : List Value) : Confined (HeapM.allocBuffer items) :=
  of_run (.allocBuffer items) .handle (fun | .handle h => .ok h | _ => .error (.host "")) rfl fun _ => rfl

theorem allocObject (className : String) : Confined (HeapM.allocObject className) :=
  of_run (.allocObject className) .handle (fun | .handle h => .ok h | _ => .error (.host "")) rfl fun _ => rfl

theorem newArray (extents : List Nat) (order : StorageOrder) : Confined (HeapM.newArray extents order) :=
  of_run (.newArray extents order) .view (fun | .view v => .ok v | _ => .error (.host "")) rfl fun _ => rfl

theorem object (h : Handle) : Confined (HeapM.object h) :=
  of_run (.object h) .object (fun | .object o => .ok o | _ => .error (.host "")) rfl fun _ => rfl

theorem element (v : View) (index : List Nat) : Confined (HeapM.element v index) :=
  of_run (.element v index) .value (fun | .value x => .ok x | _ => .error (.host "")) rfl fun _ => rfl

theorem elements (v : View) : Confined (HeapM.elements v) :=
  of_run (.elements v) .values (fun | .values xs => .ok xs | _ => .error (.host "")) rfl fun _ => rfl

theorem free (h : Handle) : Confined (HeapM.free h) :=
  of_run (.free h) (fun _ => .done) (fun _ => .ok ()) rfl fun _ => rfl

theorem setElement (v : View) (index : List Nat) (x : Value) : Confined (HeapM.setElement v index x) :=
  of_run (.setElement v index x) (fun _ => .done) (fun _ => .ok ()) rfl fun _ => rfl

theorem setField (h : Handle) (name : String) (x : Value) : Confined (HeapM.setField h name x) :=
  of_run (.setField h name x) (fun _ => .done) (fun _ => .ok ()) rfl fun _ => rfl

theorem copyInto (dest : View) (source : Value) : Confined (HeapM.copyInto dest source) :=
  of_run (.copyInto dest source) (fun _ => .done) (fun _ => .ok ()) rfl fun _ => rfl

theorem itemsOf (x : Value) : Confined (Run.read (·.itemsOf x) : HeapM (List Value)) := by
  cases x with
  | array v => exact elements v
  | _ => exact .done (.ok _)

end Confined

namespace Script

variable (native : StorageOrder) (args : CallArgs)

theorem argItems_confined (name : String) : Confined (argItems args name) :=
  .bind (.ofExcept _) fun v => .itemsOf v

mutual

theorem evalExpr_confined : ∀ e : Expr, Confined (evalExpr native args e)
  | .value v => by simp only [evalExpr]; exact .pure _
  | .arg name => by simp only [evalExpr]; exact .ofExcept _
  | .argOr name v => by simp only [evalExpr]; exact .pure _
  | .present name => by simp only [evalExpr]; exact .pure _
  | .argCount => by simp only [evalExpr]; exact .pure _
  | .noArgs => by simp only [evalExpr]; exact .pure _
  | .count name => by
    simp only [evalExpr]
    exact .bind (argItems_confined args name) fun _ => .pure _
  | .sum name => by
    simp only [evalExpr]
    exact .bind (argItems_confined args name) fun _ => .bind (.ofExcept _) fun _ => .pure _
  | .element name index => by
    simp only [evalExpr]
    exact .bind (.ofExcept _) fun v => .element v index
  | .field name member => by
    simp only [evalExpr]
    exact .bind (.ofExcept _) fun h => .bind (.object h) fun _ => .pure _
  | .array extents order (some items) => by
    simp only [evalExpr]
    exact .bind (.allocBuffer items) fun _ => .pure _
  | .array extents order none => by
    simp only [evalExpr]
    exact .bind (.newArray extents _) fun _ => .pure _
  | .copy name => by
    simp only [evalExpr]
    exact .bind (.ofExcept _) fun v => .bind (.newArray _ _) fun dense => .bind (.copyInto dense _) fun _ => .pure _
  | .new className fields => by
    simp only [evalExpr]
    exact .bind (.allocObject className) fun h => .bind (storeFields_confined h fields) fun _ => .pure _
  | .list items => by
    simp only [evalExpr]
    exact .bind (evalItems_confined items) fun _ => .pure _
  | .set items => by
    simp only [evalExpr]
    exact .bind (evalItems_confined items) fun _ => .pure _
  | .tuple items => by
    simp only [evalExpr]
    exact .bind (evalItems_confined items) fun _ => .pure _

theorem evalItems_confined : ∀ es : List Expr, Confined (evalItems native args es)
  | [] => by simp only [evalItems]; exact .pure _
  | e :: rest => by
    simp only [evalItems]
    exact .bind (evalExpr_confined e) fun _ => .bind (evalItems_confined rest) fun _ => .pure _

theorem storeFields_confined (h : Handle) : ∀ fields : List (String × Expr), Confined (storeFields native args h fields)
  | [] => by simp only [storeFields]; exact .pure _
  | (name, e) :: rest => by
    simp only [storeFields]
    exact .bind (evalExpr_confined e) fun v => .bind (.setField h name v) fun _ => storeFields_confined h rest

end

theorem runStep_confined (s : Step) : Confined (runStep native args s) := by
  cases s with
  | fail message => exact .done (.error (.host message))
  | setElement name index e =>
    exact .bind (.ofExcept _) fun v => .bind (evalExpr_confined native args e) fun x => .setElement v index x
  | assign name e => exact .bind (.ofExcept _) fun v => .bind (evalExpr_confined native args e) fun x => .copyInto v x
  | setField name member e =>
    exact .bind (.ofExcept _) fun h => .bind (evalExpr_confined native args e) fun x => .setField h member x
  | free name =>
    refine .bind (.ofExcept _) fun v => ?_
    split
    · exact .free _
    · exact .bind (.ofExcept _) fun h => .free h

/-- A script reaches the heap through its operations only. -/
theorem host_confined (steps : List Step) (returns : List Expr) : Confined (host native steps returns args) := by
  refine .bind ?_ fun _ => evalItems_confined native args returns
  induction steps with
  | nil => exact .pure _
  | cons s steps ih => exact .bind (runStep_confined native args s) fun _ => ih

end Script

/-- All hosts reach the heap through its operations only. -/
def Hosts.Confined (hosts : Hosts) : Prop := ∀ p ∈ hosts, ∀ args, AbiBridge.Confined (p.2 args)

theorem Hosts.mem_of_resolve? {hosts : Hosts} {owner : Option String} {name : String} {callee : Callee} {host : Host}
    (h : hosts.resolve? owner name = some (callee, host)) : ∃ p ∈ hosts, p.2 = host := by
  have hget : ∀ {c : Callee}, hosts.get? c = some host → ∃ p ∈ hosts, p.2 = host := by
    intro c hc
    obtain ⟨p, hp, hhost⟩ := Option.map_eq_some_iff.1 hc
    exact ⟨p, List.mem_reverse.1 (List.mem_of_find?_eq_some hp), hhost⟩
  have hown : ∀ {c : Callee}, (hosts.get? c).map (fun h => (c, h)) = some (callee, host) →
      ∃ p ∈ hosts, p.2 = host := by
    intro c hc
    obtain ⟨host', hhost', heq⟩ := Option.map_eq_some_iff.1 hc
    cases heq
    exact hget hhost'
  unfold resolve? at h
  dsimp only at h
  rcases Option.or_eq_some_iff.1 h with h | ⟨-, h⟩
  · split at h
    · exact hown h
    · cases h
  · exact hown h

/-! ### Wrappers -/

/-- The heap of the second machine is what that of the first may be later. -/
def Machine.Ages (m m' : Machine) : Prop := m.heap.Ages m'.heap

instance : Std.Refl Machine.Ages := ⟨fun m => .refl m.heap⟩

instance : IsTrans Machine Machine.Ages := ⟨fun _ _ _ h h' => Heap.Ages.trans h h'⟩

theorem Exec.onHeap_ages {α : Type} {x : HeapM α} (h : Moves Heap.Ages x) : Moves Machine.Ages (onHeap x) :=
  fun m => h m.heap

namespace Interpreter

open Exec Wrapper

variable (it : Interpreter)

theorem callHost_ages (hh : it.hosts.Confined) (f : Frame) (name : String) (args : CallArgs) :
    Moves Machine.Ages (it.callHost f name args) := by
  unfold callHost
  split
  · exact .trap _
  · rename_i callee host hr
    obtain ⟨p, hp, rfl⟩ := Hosts.mem_of_resolve? hr
    exact .bind (fun m => .refl m.heap) fun _ => .bind (onHeap_ages (hh p hp args).ages) fun _ => .pure _

theorem lookupArray_ages (f : Frame) (name : String) : Moves Machine.Ages (it.lookupArray f name) := by
  unfold lookupArray
  refine .bind (.ofExcept _) fun v => ?_
  split
  · exact .pure _
  · exact .trap _

theorem fieldOf_ages (v : Value) (name : String) : Moves Machine.Ages (fieldOf v name) := by
  unfold fieldOf
  split
  · refine .bind (onHeap_ages (.read _)) fun o => ?_
    split
    · exact .pure _
    · exact .trap _
  · exact .trap _

mutual

/-- An expression changes the heap at most through the hosts it calls. -/
theorem eval_ages (hh : it.hosts.Confined) (f : Frame) : ∀ e : Expr, Moves Machine.Ages (it.eval f e)
  | .var _ => by simp only [eval]; exact .ofExcept _
  | .int _ => by simp only [eval]; exact .pure _
  | .bool _ => by simp only [eval]; exact .pure _
  | .null => by simp only [eval]; exact .pure _
  | .isNotNull e => by
    simp only [eval]
    exact .bind (eval_ages hh f e) fun v => .pure _
  | .add a b => by
    simp only [eval]
    exact .bind (eval_ages hh f a) fun _ => .bind (.ofExcept _) fun _ =>
      .bind (eval_ages hh f b) fun _ => .bind (.ofExcept _) fun _ => .pure _
  | .mul a b => by
    simp only [eval]
    exact .bind (eval_ages hh f a) fun _ => .bind (.ofExcept _) fun _ =>
      .bind (eval_ages hh f b) fun _ => .bind (.ofExcept _) fun _ => .pure _
  | .shape name dim => by
    simp only [eval]
    refine .bind (.ofExcept _) fun v => ?_
    split
    · exact .pure _
    · exact .trap _
  | .index name subscripts => by
    simp only [eval]
    refine .bind (it.lookupArray_ages f name) fun v => ?_
    split
    · exact .bind (evalPositions_ages hh f subscripts) fun _ => onHeap_ages (.read _)
    · split
      · exact .bind (evalSlices_ages hh f 0 v subscripts) fun _ => .pure _
      · exact .trap _
  | .field e name => by
    simp only [eval]
    exact .bind (eval_ages hh f e) fun v => fieldOf_ages v name
  | .call name arguments => by
    simp only [eval]
    exact .bind (evalActuals_ages hh f 0 arguments) fun args => it.callHost_ages hh f name ⟨args⟩
  | .tuple items => by
    simp only [eval]
    exact .bind (evalAll_ages hh f items) fun _ => .pure _

theorem evalAll_ages (hh : it.hosts.Confined) (f : Frame) : ∀ es : List Expr, Moves Machine.Ages (it.evalAll f es)
  | [] => by simp only [evalAll]; exact .pure _
  | e :: rest => by
    simp only [evalAll]
    exact .bind (eval_ages hh f e) fun _ => .bind (evalAll_ages hh f rest) fun _ => .pure _

theorem evalPositions_ages (hh : it.hosts.Confined) (f : Frame) :
    ∀ ss : List Subscript, Moves Machine.Ages (it.evalPositions f ss)
  | [] => by simp only [evalPositions]; exact .pure _
  | .element e :: rest => by
    simp only [evalPositions]
    exact .bind (eval_ages hh f e) fun _ => .bind (.ofExcept _) fun _ => .bind (.ofExcept _) fun _ =>
      .bind (evalPositions_ages hh f rest) fun _ => .pure _
  | .slice .. :: _ => by simp only [evalPositions]; exact .trap _

theorem evalSlices_ages (hh : it.hosts.Confined) (f : Frame) (dim : Nat) (v : View) :
    ∀ ss : List Subscript, Moves Machine.Ages (it.evalSlices f dim v ss)
  | [] => by simp only [evalSlices]; exact .pure _
  | .slice start none step :: rest => by
    simp only [evalSlices, pure_bind]
    exact .bind (eval_ages hh f start) fun _ => .bind (.ofExcept _) fun _ => .bind (eval_ages hh f step) fun _ =>
      .bind (.ofExcept _) fun _ => .bind (.ofExcept _) fun _ => evalSlices_ages hh f _ _ rest
  | .slice start (some stop) step :: rest => by
    simp only [evalSlices, pure_bind]
    exact .bind (eval_ages hh f start) fun _ => .bind (.ofExcept _) fun _ => .bind (eval_ages hh f stop) fun _ =>
      .bind (.ofExcept _) fun _ => .bind (eval_ages hh f step) fun _ => .bind (.ofExcept _) fun _ =>
      .bind (.ofExcept _) fun _ => .bind (.ofExcept _) fun _ => evalSlices_ages hh f _ _ rest
  | .element _ :: _ => by simp only [evalSlices]; exact .trap _

theorem evalActuals_ages (hh : it.hosts.Confined) (f : Frame) (place : Nat) :
    ∀ arguments : List Actual, Moves Machine.Ages (it.evalActuals f place arguments)
  | [] => by simp only [evalActuals]; exact .pure _
  | .mk keyword e :: rest => by
    simp only [evalActuals]
    exact .bind (eval_ages hh f e) fun _ => .bind (evalActuals_ages hh f (place + 1) rest) fun _ => .pure _

end

theorem evalExtents_ages (hh : it.hosts.Confined) (f : Frame) (es : List Expr) :
    Moves Machine.Ages (it.evalExtents f es) := by
  induction es with
  | nil => exact .pure _
  | cons e es ih =>
    exact .bind (it.eval_ages hh f e) fun _ => .bind (.ofExcept _) fun _ => .bind ih fun _ => .pure _

theorem denseCopy_ages (v : View) : Moves Heap.Ages (it.denseCopy v) :=
  .bind (newArray_ages _ _) fun _ => .bind (copyInto_ages _ _) fun _ => .pure _

theorem copyObject_ages (dest : Handle) (v : Value) : Moves Heap.Ages (copyObject dest v) := by
  unfold copyObject
  split
  · refine .bind (.read _) fun o => ?_
    rw [modifyObject_eq]
    exact edit_ages dest _
  · exact .trap _

theorem assignVar_ages (copying : Bool) (f : Frame) (name : String) (v : Value) :
    Moves Machine.Ages (assignVar copying f name v) := by
  unfold assignVar
  split
  · split
    · exact .pure _
    · exact .bind (onHeap_ages (copyInto_ages _ _)) fun _ => .pure _
  · exact .bind (onHeap_ages (copyObject_ages _ _)) fun _ => .pure _
  · exact .pure _

theorem storedValue_ages (copying : Bool) (v : Value) : Moves Heap.Ages (it.storedValue copying v) := by
  unfold storedValue
  split
  · exact .bind (it.denseCopy_ages _) fun _ => .pure _
  · exact .pure _

mutual

theorem assign_ages (hh : it.hosts.Confined) (copying : Bool) (f : Frame) :
    ∀ (lhs : Expr) (v : Value), Moves Machine.Ages (it.assign copying f lhs v)
  | .var name, v => by simp only [assign]; exact assignVar_ages copying f name v
  | .tuple targets, v => by
    simp only [assign]
    split
    · split
      · exact assignAll_ages hh copying f targets _
      · exact .trap _
    · exact .trap _
  | .index name subscripts, v => by
    simp only [assign]
    exact .bind (it.lookupArray_ages f name) fun _ => .bind (it.evalPositions_ages hh f subscripts) fun _ =>
      .bind (onHeap_ages (setElement_ages _ _ _)) fun _ => .pure _
  | .field e name, v => by
    simp only [assign]
    refine .bind (it.eval_ages hh f e) fun owner => ?_
    split
    · exact .bind (onHeap_ages (it.storedValue_ages _ _)) fun _ =>
        .bind (onHeap_ages (setField_ages _ _ _)) fun _ => .pure _
    · exact .trap _
  | .int _, _ => by simp only [assign]; exact .trap _
  | .bool _, _ => by simp only [assign]; exact .trap _
  | .null, _ => by simp only [assign]; exact .trap _
  | .isNotNull _, _ => by simp only [assign]; exact .trap _
  | .add _ _, _ => by simp only [assign]; exact .trap _
  | .mul _ _, _ => by simp only [assign]; exact .trap _
  | .shape _ _, _ => by simp only [assign]; exact .trap _
  | .call _ _, _ => by simp only [assign]; exact .trap _

theorem assignAll_ages (hh : it.hosts.Confined) (copying : Bool) (f : Frame) :
    ∀ (es : List Expr) (vs : List Value), Moves Machine.Ages (it.assignAll copying f es vs)
  | [], _ => by simp only [assignAll]; exact .pure _
  | _ :: _, [] => by simp only [assignAll]; exact .pure _
  | e :: es, v :: vs => by
    simp only [assignAll]
    exact .bind (assign_ages hh copying f e v) fun f' => assignAll_ages hh copying f' es vs

end

theorem iterate_ages {body : Frame → Exec Frame} (hb : ∀ f, Moves Machine.Ages (body f)) (element : String)
    (counter : Option String) (items : List Value) (place : Nat) (f : Frame) :
    Moves Machine.Ages (iterate body element counter place items f) := by
  induction items generalizing place f with
  | nil => exact .pure _
  | cons v items ih => exact .bind (hb _) fun f' => ih (place + 1) f'

theorem addressOf_ages (v : Value) : Moves Heap.Ages (it.addressOf v) := by
  cases v with
  | object h => exact .pure _
  | array view =>
    refine .bind (.read _) fun items => ?_
    split
    · exact .pure _
    · exact .bind (it.denseCopy_ages view) fun _ => .pure _
  | ptr h =>
    cases h with
    | none => exact .trap _
    | some h => exact .pure _
  | none => exact .trap _
  | _ => exact allocBuffer_ages _

theorem variableAddress_ages (f : Frame) (name : String) : Moves Machine.Ages (it.variableAddress f name) := by
  unfold variableAddress
  split
  · exact .pure _
  · exact .bind (onHeap_ages (it.addressOf_ages _)) fun _ => .pure _

theorem deallocate_ages (v : Value) : Moves Heap.Ages (deallocate v) := by
  unfold deallocate
  split
  · exact free_ages _
  · exact free_ages _
  · exact .trap _

theorem allocate_ages (f : Frame) (name : String) (extents : List Nat) :
    Moves Heap.Ages (it.allocate f name extents) := by
  unfold allocate
  split
  · exact .bind (allocObject_ages _) fun _ => .pure _
  · exact .bind (newArray_ages _ _) fun _ => .pure _

mutual

theorem exec_ages (hh : it.hosts.Confined) (f : Frame) : ∀ s : Stmt, Moves Machine.Ages (it.exec f s)
  | .reinterpret ptr name sizes => by
    simp only [exec]
    refine .bind (.ofExcept _) fun v => ?_
    split
    · exact .trap _
    · exact .bind (it.evalExtents_ages hh f sizes) fun _ => .bind (.read _) fun _ => .pure _
  | .branch condition body orelse => by
    simp only [exec]
    refine .bind (it.eval_ages hh f condition) fun v => ?_
    split
    · exact execBlock_ages hh f body
    · exact execBlock_ages hh f orelse
    · exact .trap _
  | .assign lhs rhs => by
    simp only [exec]
    exact .bind (it.eval_ages hh f rhs) fun v => it.assign_ages hh true f lhs v
  | .aliasAssign lhs rhs => by
    simp only [exec]
    exact .bind (it.eval_ages hh f rhs) fun v => it.assign_ages hh false f lhs v
  | .allocate name shape => by
    simp only [exec]
    exact .bind (it.evalExtents_ages hh f shape) fun _ => .bind (onHeap_ages (it.allocate_ages f name _)) fun _ =>
      .pure _
  | .forEach element iterable counter body => by
    simp only [exec]
    exact .bind (.ofExcept _) fun _ => .bind (.read _) fun items =>
      iterate_ages (fun f' => execBlock_ages hh f' body) element counter items 0 f
  | .addressOf source ptr => by
    simp only [exec]
    exact .bind (it.variableAddress_ages f source) fun _ => .pure _
  | .deallocate name => by
    simp only [exec]
    exact .bind (.ofExcept _) fun _ => .bind (onHeap_ages (deallocate_ages _)) fun _ => .pure _
  | .eval e => by
    simp only [exec]
    exact .bind (it.eval_ages hh f e) fun _ => .pure _

theorem execBlock_ages (hh : it.hosts.Confined) (f : Frame) :
    ∀ block : List Stmt, Moves Machine.Ages (it.execBlock f block)
  | [] => by simp only [execBlock]; exact .pure _
  | s :: rest => by
    simp only [execBlock]
    exact .bind (exec_ages hh f s) fun f' => execBlock_ages hh f' rest

end

theorem call_ages (hh : it.hosts.Confined) (wrapper : String) (args : List Value) :
    Moves Machine.Ages (it.call wrapper args) := by
  unfold call
  split
  · exact .trap _
  · unfold callFunction
    dsimp only
    split
    · exact .bind (it.execBlock_ages hh _ _) fun _ => .bind (.ofExcept _) fun _ => .bind (.ofExcept _) fun _ => .pure _
    · exact .trap _

end Interpreter

/-! ### Sessions -/

namespace Session

/-- The session after some actions, of which some may trap. -/
def after (s : Session) (actions : List Action) : Session := actions.foldl (fun s a => (s.step a).2) s

/-- The second session is what the first may be later. -/
structure Ages (s s' : Session) : Prop where
  module : s'.interpreter.module = s.interpreter.module
  target : s'.interpreter.target = s.interpreter.target
  hosts : s'.interpreter.hosts = s.interpreter.hosts
  heap : s.heap.Ages s'.heap

theorem step_ages {s : Session} (hh : s.interpreter.hosts.Confined) (a : Action) : s.Ages (s.step a).2 := by
  cases a with
  | onHeap a => exact ⟨rfl, rfl, rfl, a.run_ages s.heap⟩
  | setGlobal name v => exact ⟨rfl, rfl, rfl, .refl s.heap⟩
  | call wrapper args => exact ⟨rfl, rfl, rfl, s.interpreter.call_ages hh wrapper args ⟨s.heap, []⟩⟩

theorem after_ages {s : Session} (hh : s.interpreter.hosts.Confined) (actions : List Action) :
    s.Ages (s.after actions) := by
  induction actions generalizing s with
  | nil => exact ⟨rfl, rfl, rfl, .refl s.heap⟩
  | cons a actions ih =>
    have hstep := step_ages hh a
    have hrest := ih (hstep.hosts ▸ hh)
    exact ⟨hrest.module.trans hstep.module, hrest.target.trans hstep.target, hrest.hosts.trans hstep.hosts,
      hstep.heap.trans hrest.heap⟩

end Session

end AbiBridge
