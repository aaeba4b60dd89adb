import Mathlib
import AbiBridge.Machine.Interpreter
import AbiBridge.Proofs.HeapCopy

/-!
# What an execution can change

Expressions without a call leave the machine as it is (`eval_keeps`), and statements without a call leave
the log of host calls as it is (`exec_keeps_calls`), whether they trap or not. A statement that does not
trap changes no local that it does not write (`exec_outside`), so statements that bind different locals and
do not read each other's can be run one by one (`execBlock_binds`).
-/

namespace AbiBridge

/-! ### Properties that a run preserves -/

namespace Run

variable {σ τ α β : Type}

/-- The run leaves a view of the state as it was, also when it traps. -/
def Keeps (view : σ → τ) (x : Run σ α) : Prop := ∀ s, view (x s).2 = view s

/-- Whatever the run returns satisfies `P`. -/
def Gives (P : α → Prop) (x : Run σ α) : Prop := ∀ s a s', x s = (.ok a, s') → P a

namespace Keeps

variable {view : σ → τ}

theorem state {x : Run σ α} (h : Keeps (fun s => s) x) (s : σ) : (x s).2 = s := h s

theorem bind {x : Run σ α} {f : α → Run σ β} (hx : Keeps view x) (hf : ∀ a, Keeps view (f a)) :
    Keeps view (x >>= f) := by
  intro s
  have h := hx s
  rw [bind_apply]
  rcases hxs : x s with ⟨_ | a, s'⟩
  · rw [hxs] at h; exact h
  · rw [hxs] at h; exact (hf a s').trans h

theorem pure (a : α) : Keeps view (pure a : Run σ α) := fun _ => rfl

theorem ofExcept (r : Except Trap α) : Keeps view (ofExcept r : Run σ α) := fun _ => rfl

theorem read (g : σ → Except Trap α) : Keeps view (read g) := fun _ => rfl

theorem trap (e : Trap) : Keeps view (trap e : Run σ α) := fun _ => rfl

end Keeps

namespace Gives

variable {P : α → Prop} {Q : β → Prop}

theorem bind {x : Run σ α} {f : α → Run σ β} (hx : Gives P x) (hf : ∀ a, P a → Gives Q (f a)) :
    Gives Q (x >>= f) := by
  intro s b s' h
  rw [bind_apply] at h
  rcases hxs : x s with ⟨e | a, s₁⟩
  · rw [hxs] at h; cases h
  · rw [hxs] at h
    exact hf a (hx s a s₁ hxs) s₁ b s' h

theorem bind_any {x : Run σ α} {f : α → Run σ β} (hf : ∀ a, Gives Q (f a)) : Gives Q (x >>= f) :=
  bind (P := fun _ => True) (fun _ _ _ _ => trivial) fun a _ => hf a

theorem pure {a : α} (ha : P a) : Gives P (pure a : Run σ α) := by
  intro s b s' h
  rw [pure_apply] at h
  cases h
  exact ha

theorem trap (e : Trap) : Gives P (trap e : Run σ α) := fun _ _ _ h => by cases h

theorem mono {P' : α → Prop} {x : Run σ α} (hx : Gives P x) (h : ∀ a, P a → P' a) : Gives P' x :=
  fun s a s' hs => h a (hx s a s' hs)

end Gives

end Run

namespace Exec

open Run

variable {α : Type}

theorem onHeap_apply (x : HeapM α) (m : Machine) :
    onHeap x m = ((x m.heap).1, { m with heap := (x m.heap).2 }) := rfl

theorem onHeap_ok {x : HeapM α} {m : Machine} {a : α} {heap : Heap} (h : x m.heap = (.ok a, heap)) :
    onHeap x m = (.ok a, { m with heap }) := by
  rw [onHeap_apply, h]

theorem onHeap_keeps_calls (x : HeapM α) : Keeps Machine.calls (onHeap x) := fun _ => rfl

theorem onHeap_read_keeps {τ : Type} {view : Machine → τ} (g : Heap → Except Trap α) :
    Keeps view (onHeap (Run.read g)) := fun _ => rfl

theorem mismatch_keeps {τ : Type} {view : Machine → τ} (cause : Mismatch) :
    Keeps view (mismatch cause : Exec α) := Keeps.trap _

end Exec

/-! ### Calls in a body -/

namespace Wrapper

mutual

/-- How many calls an expression holds, at any depth. -/
def Expr.callCount : Expr → Nat
  | .isNotNull e => e.callCount
  | .add a b => a.callCount + b.callCount
  | .mul a b => a.callCount + b.callCount
  | .index _ subscripts => subscriptCalls subscripts
  | .field e _ => e.callCount
  | .call _ arguments => 1 + actualCalls arguments
  | .tuple items => exprCalls items
  | _ => 0

def Subscript.callCount : Subscript → Nat
  | .slice start stop step =>
    start.callCount + step.callCount + match stop with
      | none => 0
      | some e => e.callCount
  | .element e => e.callCount

def Actual.callCount : Actual → Nat
  | .mk _ e => e.callCount

def exprCalls : List Expr → Nat
  | [] => 0
  | e :: rest => e.callCount + exprCalls rest

def subscriptCalls : List Subscript → Nat
  | [] => 0
  | s :: rest => s.callCount + subscriptCalls rest

def actualCalls : List Actual → Nat
  | [] => 0
  | a :: rest => a.callCount + actualCalls rest

end

mutual

/-- How many calls a statement holds, at any depth. -/
def Stmt.callCount : Stmt → Nat
  | .reinterpret _ _ sizes => exprCalls sizes
  | .branch condition body orelse => condition.callCount + blockCalls body + blockCalls orelse
  | .assign lhs rhs => lhs.callCount + rhs.callCount
  | .aliasAssign lhs rhs => lhs.callCount + rhs.callCount
  | .allocate _ shape => exprCalls shape
  | .forEach _ _ _ body => blockCalls body
  | .addressOf _ _ => 0
  | .deallocate _ => 0
  | .eval e => e.callCount

/-- How many calls a block holds, at any depth. -/
def blockCalls : List Stmt → Nat
  | [] => 0
  | s :: rest => s.callCount + blockCalls rest

end

theorem blockCalls_append (xs ys : List Stmt) : blockCalls (xs ++ ys) = blockCalls xs + blockCalls ys := by
  induction xs with
  | nil => simp [blockCalls]
  | cons s xs ih => rw [List.cons_append, blockCalls, ih, blockCalls]; omega

theorem blockCalls_eq_zero {xs : List Stmt} : blockCalls xs = 0 ↔ ∀ s ∈ xs, s.callCount = 0 := by
  induction xs with
  | nil => simp [blockCalls]
  | cons s xs ih => simp [blockCalls, ih]

theorem exprCalls_eq_zero {es : List Expr} : exprCalls es = 0 ↔ ∀ e ∈ es, e.callCount = 0 := by
  induction es with
  | nil => simp [exprCalls]
  | cons e es ih => simp [exprCalls, ih]

/-! ### Names that a body writes -/

mutual

/-- The locals that an assignment to an expression binds anew. -/
def Expr.targets : Expr → List String
  | .var name => [name]
  | .tuple items => targetsAll items
  | _ => []

def targetsAll : List Expr → List String
  | [] => []
  | e :: rest => e.targets ++ targetsAll rest

end

mutual

/-- The locals that a statement may bind. -/
def Stmt.writes : Stmt → List String
  | .reinterpret _ name _ => [name]
  | .branch _ body orelse => writesAll body ++ writesAll orelse
  | .assign lhs _ => lhs.targets
  | .aliasAssign lhs _ => lhs.targets
  | .allocate name _ => [name]
  | .forEach element _ counter body => element :: (counter.toList ++ writesAll body)
  | .addressOf _ ptr => [ptr]
  | .deallocate _ => []
  | .eval _ => []

/-- The locals that a block may bind. -/
def writesAll : List Stmt → List String
  | [] => []
  | s :: rest => s.writes ++ writesAll rest

end

theorem mem_writesAll {n : String} {xs : List Stmt} : n ∈ writesAll xs ↔ ∃ s ∈ xs, n ∈ s.writes := by
  induction xs with
  | nil => simp [writesAll]
  | cons s xs ih => simp [writesAll, ih]

end Wrapper

namespace Interpreter

open Run Exec Wrapper

variable (it : Interpreter) {τ : Type} {view : Machine → τ}

/-! ### Expressions without a call -/

theorem lookupArray_keeps (f : Frame) (name : String) : Keeps view (it.lookupArray f name) := by
  unfold lookupArray
  refine .bind (.ofExcept _) fun v => ?_
  split
  · exact .pure _
  · exact mismatch_keeps _

theorem fieldOf_keeps (v : Value) (name : String) : Keeps view (fieldOf v name) := by
  unfold fieldOf
  split
  · refine .bind (onHeap_read_keeps _) fun o => ?_
    split
    · exact .pure _
    · exact .trap _
  · exact mismatch_keeps _

mutual

/-- An expression without a call leaves the machine as it is. -/
theorem eval_keeps (f : Frame) : ∀ e : Expr, e.callCount = 0 → Keeps view (it.eval f e)
  | .var _, _ => by simp only [eval]; exact .ofExcept _
  | .int _, _ => by simp only [eval]; exact .pure _
  | .bool _, _ => by simp only [eval]; exact .pure _
  | .null, _ => by simp only [eval]; exact .pure _
  | .isNotNull e, h => by
    simp only [Expr.callCount] at h
    simp only [eval]
    exact .bind (eval_keeps f e h) fun v => .pure _
  | .add a b, h => by
    simp only [Expr.callCount, Nat.add_eq_zero_iff] at h
    simp only [eval]
    exact .bind (eval_keeps f a h.1) fun _ => .bind (.ofExcept _) fun _ =>
      .bind (eval_keeps f b h.2) fun _ => .bind (.ofExcept _) fun _ => .pure _
  | .mul a b, h => by
    simp only [Expr.callCount, Nat.add_eq_zero_iff] at h
    simp only [eval]
    exact .bind (eval_keeps f a h.1) fun _ => .bind (.ofExcept _) fun _ =>
      .bind (eval_keeps f b h.2) fun _ => .bind (.ofExcept _) fun _ => .pure _
  | .shape name dim, _ => by
    simp only [eval]
    refine .bind (.ofExcept _) fun v => ?_
    split
    · exact .pure _
    · exact mismatch_keeps _
  | .index name subscripts, h => by
    simp only [Expr.callCount] at h
    simp only [eval]
    refine .bind (it.lookupArray_keeps f name) fun v => ?_
    split
    · exact .bind (evalPositions_keeps f subscripts h) fun _ => onHeap_read_keeps _
    · split
      · exact .bind (evalSlices_keeps f 0 v subscripts h) fun _ => .pure _
      · exact mismatch_keeps _
  | .field e name, h => by
    simp only [Expr.callCount] at h
    simp only [eval]
    exact .bind (eval_keeps f e h) fun v => fieldOf_keeps v name
  | .call _ _, h => by simp [Expr.callCount] at h
  | .tuple items, h => by
    simp only [Expr.callCount] at h
    simp only [eval]
    exact .bind (evalAll_keeps f items h) fun _ => .pure _

theorem evalAll_keeps (f : Frame) : ∀ es : List Expr, exprCalls es = 0 → Keeps view (it.evalAll f es)
  | [], _ => by simp only [evalAll]; exact .pure _
  | e :: rest, h => by
    simp only [exprCalls, Nat.add_eq_zero_iff] at h
    simp only [evalAll]
    exact .bind (eval_keeps f e h.1) fun _ => .bind (evalAll_keeps f rest h.2) fun _ => .pure _

theorem evalPositions_keeps (f : Frame) :
    ∀ ss : List Subscript, subscriptCalls ss = 0 → Keeps view (it.evalPositions f ss)
  | [], _ => by simp only [evalPositions]; exact .pure _
  | .element e :: rest, h => by
    simp only [subscriptCalls, Subscript.callCount, Nat.add_eq_zero_iff] at h
    simp only [evalPositions]
    exact .bind (eval_keeps f e h.1) fun _ => .bind (.ofExcept _) fun _ => .bind (.ofExcept _) fun _ =>
      .bind (evalPositions_keeps f rest h.2) fun _ => .pure _
  | .slice .. :: _, _ => by simp only [evalPositions]; exact mismatch_keeps _

theorem evalSlices_keeps (f : Frame) (dim : Nat) (v : View) :
    ∀ ss : List Subscript, subscriptCalls ss = 0 → Keeps view (it.evalSlices f dim v ss)
  | [], _ => by simp only [evalSlices]; exact .pure _
  | .slice start none step :: rest, h => by
    simp only [subscriptCalls, Subscript.callCount, Nat.add_eq_zero_iff] at h
    simp only [evalSlices, pure_bind]
    exact .bind (eval_keeps f start h.1.1.1) fun _ => .bind (.ofExcept _) fun _ =>
      .bind (eval_keeps f step h.1.1.2) fun _ => .bind (.ofExcept _) fun _ => .bind (.ofExcept _) fun _ =>
      evalSlices_keeps f _ _ rest h.2
  | .slice start (some stop) step :: rest, h => by
    simp only [subscriptCalls, Subscript.callCount, Nat.add_eq_zero_iff] at h
    simp only [evalSlices, pure_bind]
    exact .bind (eval_keeps f start h.1.1.1) fun _ => .bind (.ofExcept _) fun _ =>
      .bind (eval_keeps f stop h.1.2) fun _ => .bind (.ofExcept _) fun _ =>
      .bind (eval_keeps f step h.1.1.2) fun _ => .bind (.ofExcept _) fun _ => .bind (.ofExcept _) fun _ =>
      .bind (.ofExcept _) fun _ => evalSlices_keeps f _ _ rest h.2
  | .element _ :: _, _ => by simp only [evalSlices]; exact mismatch_keeps _

end

theorem evalExtents_keeps (f : Frame) {es : List Expr} (h : exprCalls es = 0) :
    Keeps view (it.evalExtents f es) := by
  induction es with
  | nil => exact .pure _
  | cons e es ih =>
    simp only [exprCalls, Nat.add_eq_zero_iff] at h
    exact .bind (it.eval_keeps f e h.1) fun _ => .bind (.ofExcept _) fun _ => .bind (ih h.2) fun _ => .pure _

theorem evalActuals_keeps (f : Frame) {arguments : List Actual} (h : actualCalls arguments = 0) (place : Nat) :
    Keeps view (it.evalActuals f place arguments) := by
  induction arguments generalizing place with
  | nil => simp only [evalActuals]; exact .pure _
  | cons a arguments ih =>
    obtain ⟨keyword, e⟩ := a
    simp only [actualCalls, Actual.callCount, Nat.add_eq_zero_iff] at h
    simp only [evalActuals]
    exact .bind (it.eval_keeps f e h.1) fun _ => .bind (ih h.2 (place + 1)) fun _ => .pure _

/-! ### Statements without a call -/

theorem assignVar_keeps_calls (copying : Bool) (f : Frame) (name : String) (v : Value) :
    Keeps Machine.calls (assignVar copying f name v) := by
  unfold assignVar
  split
  · split
    · exact .pure _
    · exact .bind (onHeap_keeps_calls _) fun _ => .pure _
  · exact .bind (onHeap_keeps_calls _) fun _ => .pure _
  · exact .pure _

mutual

theorem assign_keeps_calls (copying : Bool) (f : Frame) :
    ∀ (lhs : Expr) (v : Value), lhs.callCount = 0 → Keeps Machine.calls (it.assign copying f lhs v)
  | .var name, v, _ => by simp only [assign]; exact assignVar_keeps_calls copying f name v
  | .tuple targets, v, h => by
    simp only [Expr.callCount] at h
    simp only [assign]
    split
    · split
      · exact assignAll_keeps_calls copying f targets _ h
      · exact mismatch_keeps _
    · exact mismatch_keeps _
  | .index name subscripts, v, h => by
    simp only [Expr.callCount] at h
    simp only [assign]
    exact .bind (it.lookupArray_keeps f name) fun _ => .bind (it.evalPositions_keeps f subscripts h) fun _ =>
      .bind (onHeap_keeps_calls _) fun _ => .pure _
  | .field e name, v, h => by
    simp only [Expr.callCount] at h
    simp only [assign]
    refine .bind (it.eval_keeps f e h) fun owner => ?_
    split
    · exact .bind (onHeap_keeps_calls _) fun _ => .bind (onHeap_keeps_calls _) fun _ => .pure _
    · exact mismatch_keeps _
  | .int _, _, _ => by simp only [assign]; exact mismatch_keeps _
  | .bool _, _, _ => by simp only [assign]; exact mismatch_keeps _
  | .null, _, _ => by simp only [assign]; exact mismatch_keeps _
  | .isNotNull _, _, _ => by simp only [assign]; exact mismatch_keeps _
  | .add _ _, _, _ => by simp only [assign]; exact mismatch_keeps _
  | .mul _ _, _, _ => by simp only [assign]; exact mismatch_keeps _
  | .shape _ _, _, _ => by simp only [assign]; exact mismatch_keeps _
  | .call _ _, _, _ => by simp only [assign]; exact mismatch_keeps _

theorem assignAll_keeps_calls (copying : Bool) (f : Frame) :
    ∀ (es : List Expr) (vs : List Value), exprCalls es = 0 → Keeps Machine.calls (it.assignAll copying f es vs)
  | [], _, _ => by simp only [assignAll]; exact .pure _
  | _ :: _, [], _ => by simp only [assignAll]; exact .pure _
  | e :: es, v :: vs, h => by
    simp only [exprCalls, Nat.add_eq_zero_iff] at h
    simp only [assignAll]
    exact .bind (assign_keeps_calls copying f e v h.1) fun f' => assignAll_keeps_calls copying f' es vs h.2

end

theorem iterate_keeps {body : Frame → Exec Frame} (hb : ∀ f, Keeps view (body f)) (element : String)
    (counter : Option String) (items : List Value) (place : Nat) (f : Frame) :
    Keeps view (iterate body element counter place items f) := by
  induction items generalizing place f with
  | nil => exact .pure _
  | cons v items ih => exact .bind (hb _) fun f' => ih (place + 1) f'

theorem variableAddress_keeps_calls (f : Frame) (name : String) :
    Keeps Machine.calls (it.variableAddress f name) := by
  unfold variableAddress
  split
  · exact .pure _
  · exact .bind (onHeap_keeps_calls _) fun _ => .pure _

mutual

theorem exec_keeps_calls (f : Frame) : ∀ s : Stmt, s.callCount = 0 → Keeps Machine.calls (it.exec f s)
  | .reinterpret ptr name sizes, h => by
    simp only [Stmt.callCount] at h
    simp only [exec]
    refine .bind (.ofExcept _) fun v => ?_
    split
    · exact .trap _
    · exact .bind (it.evalExtents_keeps f h) fun _ => .bind (.read _) fun _ => .pure _
  | .branch condition body orelse, h => by
    simp only [Stmt.callCount, Nat.add_eq_zero_iff] at h
    simp only [exec]
    refine .bind (it.eval_keeps f condition h.1.1) fun v => ?_
    split
    · exact execBlock_keeps_calls f body h.1.2
    · exact execBlock_keeps_calls f orelse h.2
    · exact mismatch_keeps _
  | .assign lhs rhs, h => by
    simp only [Stmt.callCount, Nat.add_eq_zero_iff] at h
    simp only [exec]
    exact .bind (it.eval_keeps f rhs h.2) fun v => it.assign_keeps_calls true f lhs v h.1
  | .aliasAssign lhs rhs, h => by
    simp only [Stmt.callCount, Nat.add_eq_zero_iff] at h
    simp only [exec]
    exact .bind (it.eval_keeps f rhs h.2) fun v => it.assign_keeps_calls false f lhs v h.1
  | .allocate name shape, h => by
    simp only [Stmt.callCount] at h
    simp only [exec]
    exact .bind (it.evalExtents_keeps f h) fun _ => .bind (onHeap_keeps_calls _) fun _ => .pure _
  | .forEach element iterable counter body, h => by
    simp only [Stmt.callCount] at h
    simp only [exec]
    exact .bind (.ofExcept _) fun _ => .bind (.read _) fun items =>
      iterate_keeps (fun f' => execBlock_keeps_calls f' body h) element counter items 0 f
  | .addressOf source ptr, _ => by
    simp only [exec]
    exact .bind (it.variableAddress_keeps_calls f source) fun _ => .pure _
  | .deallocate name, _ => by
    simp only [exec]
    exact .bind (.ofExcept _) fun _ => .bind (onHeap_keeps_calls _) fun _ => .pure _
  | .eval e, h => by
    simp only [Stmt.callCount] at h
    simp only [exec]
    exact .bind (it.eval_keeps f e h) fun _ => .pure _

theorem execBlock_keeps_calls (f : Frame) :
    ∀ block : List Stmt, blockCalls block = 0 → Keeps Machine.calls (it.execBlock f block)
  | [], _ => by simp only [execBlock]; exact .pure _
  | s :: rest, h => by
    simp only [blockCalls, Nat.add_eq_zero_iff] at h
    simp only [execBlock]
    exact .bind (exec_keeps_calls f s h.1) fun f' => execBlock_keeps_calls f' rest h.2

end

theorem execBlock_keeps {block : List Stmt} (h : ∀ s ∈ block, ∀ f, Keeps view (it.exec f s)) (f : Frame) :
    Keeps view (it.execBlock f block) := by
  induction block generalizing f with
  | nil => simp only [execBlock]; exact .pure _
  | cons s block ih =>
    simp only [execBlock]
    exact .bind (h s List.mem_cons_self f) fun f' => ih (fun s' hs' => h s' (List.mem_cons_of_mem _ hs')) f'

theorem execBlock_append (f : Frame) (xs ys : List Stmt) :
    it.execBlock f (xs ++ ys) = it.execBlock f xs >>= fun f' => it.execBlock f' ys := by
  induction xs generalizing f with
  | nil => simp only [List.nil_append, execBlock, pure_bind]
  | cons s xs ih => simp only [List.cons_append, execBlock, ih, bind_assoc]

end Interpreter

/-! ### Locals that a statement leaves alone -/

/-- The second frame belongs to the same activation and differs from the first at most in the named locals. -/
structure Frame.Outside (names : List String) (f f' : Frame) : Prop where
  function : f'.function = f.function
  get? : ∀ n, n ∉ names → f'.locals.get? n = f.locals.get? n

theorem Frame.get?_set_self (f : Frame) (name : String) (v : Value) : (f.set name v).locals.get? name = some v := by
  rw [Frame.set, Bindings.get?_set, if_pos rfl]

theorem Frame.get?_set_ne (f : Frame) {name other : String} (v : Value) (h : name ≠ other) :
    (f.set name v).locals.get? other = f.locals.get? other := by
  rw [Frame.set, Bindings.get?_set, if_neg h]

theorem Frame.declaredType?_congr {f f' : Frame} (h : f'.function = f.function) (name : String) :
    f'.declaredType? name = f.declaredType? name := by
  rw [declaredType?, declaredType?, h]

namespace Frame.Outside

variable {names others : List String} {f f' f'' : Frame}

theorem refl (names : List String) (f : Frame) : Outside names f f := ⟨rfl, fun _ _ => rfl⟩

theorem trans (h : Outside names f f') (h' : Outside names f' f'') : Outside names f f'' :=
  ⟨h'.function.trans h.function, fun n hn => (h'.get? n hn).trans (h.get? n hn)⟩

theorem mono (h : Outside names f f') (hsub : names ⊆ others) : Outside others f f' :=
  ⟨h.function, fun n hn => h.get? n fun hn' => hn (hsub hn')⟩

theorem set (f : Frame) {name : String} (v : Value) (h : name ∈ names) : Outside names f (f.set name v) := by
  refine ⟨rfl, fun n hn => f.get?_set_ne v ?_⟩
  rintro rfl
  exact hn h

end Frame.Outside

namespace Interpreter

open Run Exec Wrapper AbiBridge.Frame

variable (it : Interpreter)

theorem assignVar_outside (copying : Bool) (f : Frame) (name : String) (v : Value) :
    Gives (Outside [name] f) (assignVar copying f name v) := by
  have hset := Outside.set f v (List.mem_singleton_self name)
  unfold assignVar
  split
  · split
    · exact .pure hset
    · exact .bind_any fun _ => .pure (.refl _ f)
  · exact .bind_any fun _ => .pure (.refl _ f)
  · exact .pure hset

mutual

theorem assign_outside (copying : Bool) (f : Frame) :
    ∀ (lhs : Expr) (v : Value), Gives (Outside lhs.targets f) (it.assign copying f lhs v)
  | .var name, v => by simp only [assign]; exact assignVar_outside copying f name v
  | .tuple targets, v => by
    simp only [assign, Expr.targets]
    split
    · split
      · exact assignAll_outside copying f targets _
      · exact .trap _
    · exact .trap _
  | .index name subscripts, v => by
    simp only [assign]
    exact .bind_any fun _ => .bind_any fun _ => .bind_any fun _ => .pure (.refl _ f)
  | .field e name, v => by
    simp only [assign]
    refine .bind_any fun owner => ?_
    split
    · exact .bind_any fun _ => .bind_any fun _ => .pure (.refl _ f)
    · exact .trap _
  | .int _, _ => by simp only [assign]; exact .trap _
  | .bool _, _ => by simp only [assign]; exact .trap _
  | .null, _ => by simp only [assign]; exact .trap _
  | .isNotNull _, _ => by simp only [assign]; exact .trap _
  | .add _ _, _ => by simp only [assign]; exact .trap _
  | .mul _ _, _ => by simp only [assign]; exact .trap _
  | .shape _ _, _ => by simp only [assign]; exact .trap _
  | .call _ _, _ => by simp only [assign]; exact .trap _

theorem assignAll_outside (copying : Bool) (f : Frame) :
    ∀ (es : List Expr) (vs : List Value), Gives (Outside (targetsAll es) f) (it.assignAll copying f es vs)
  | [], _ => by simp only [assignAll]; exact .pure (.refl _ f)
  | _ :: _, [] => by simp only [assignAll]; exact .pure (.refl _ f)
  | e :: es, v :: vs => by
    simp only [assignAll, targetsAll]
    refine .bind (assign_outside copying f e v) fun f' hf' => ?_
    refine (assignAll_outside copying f' es vs).mono fun f'' hf'' => ?_
    exact (hf'.mono (List.subset_append_left _ _)).trans (hf''.mono (List.subset_append_right _ _))

end

theorem iterate_outside {names : List String} {body : Frame → Exec Frame}
    (hb : ∀ f, Gives (Outside names f) (body f)) {element : String} {counter : Option String}
    (he : element ∈ names) (hc : ∀ c ∈ counter, c ∈ names) (items : List Value) (place : Nat) (f : Frame) :
    Gives (Outside names f) (iterate body element counter place items f) := by
  induction items generalizing place f with
  | nil => exact .pure (.refl _ f)
  | cons v items ih =>
    refine .bind (hb _) fun f' hf' => (ih (place + 1) f').mono fun f'' hf'' => ?_
    -- what is left is the frame in which the body starts: the counter and the element are set first
    refine .trans ?_ (hf'.trans hf'')
    cases counter with
    | none => exact .set f v he
    | some c => exact (Outside.set f _ (hc c rfl)).trans (.set _ v he)

mutual

/-- A statement changes no local that it does not write. -/
theorem exec_outside (f : Frame) : ∀ s : Stmt, Gives (Outside s.writes f) (it.exec f s)
  | .reinterpret ptr name sizes => by
    simp only [exec, Stmt.writes]
    refine .bind_any fun v => ?_
    split
    · exact .trap _
    · exact .bind_any fun _ => .bind_any fun _ => .pure (.set f _ (List.mem_singleton_self _))
  | .branch condition body orelse => by
    simp only [exec, Stmt.writes]
    refine .bind_any fun v => ?_
    split
    · exact (execBlock_outside f body).mono fun _ h => h.mono (List.subset_append_left _ _)
    · exact (execBlock_outside f orelse).mono fun _ h => h.mono (List.subset_append_right _ _)
    · exact .trap _
  | .assign lhs rhs => by
    simp only [exec, Stmt.writes]
    exact .bind_any fun v => it.assign_outside true f lhs v
  | .aliasAssign lhs rhs => by
    simp only [exec, Stmt.writes]
    exact .bind_any fun v => it.assign_outside false f lhs v
  | .allocate name shape => by
    simp only [exec, Stmt.writes]
    exact .bind_any fun _ => .bind_any fun _ => .pure (.set f _ (List.mem_singleton_self _))
  | .forEach element iterable counter body => by
    simp only [exec, Stmt.writes]
    refine .bind_any fun _ => .bind_any fun items => iterate_outside (fun f' => ?_) ?_ ?_ items 0 f
    · exact (execBlock_outside f' body).mono fun _ h => h.mono fun n hn => by simp [hn]
    · exact List.mem_cons_self
    · intro c hc
      simp [Option.mem_def.1 hc]
  | .addressOf source ptr => by
    simp only [exec, Stmt.writes]
    exact .bind_any fun _ => .pure (.set f _ (List.mem_singleton_self _))
  | .deallocate name => by
    simp only [exec, Stmt.writes]
    exact .bind_any fun _ => .bind_any fun _ => .pure (.refl _ f)
  | .eval e => by
    simp only [exec, Stmt.writes]
    exact .bind_any fun _ => .pure (.refl _ f)

theorem execBlock_outside (f : Frame) :
    ∀ block : List Stmt, Gives (Outside (writesAll block) f) (it.execBlock f block)
  | [] => by simp only [execBlock]; exact .pure (.refl _ f)
  | s :: rest => by
    simp only [execBlock, writesAll]
    refine .bind (exec_outside f s) fun f' hf' => (execBlock_outside f' rest).mono fun f'' hf'' => ?_
    exact (hf'.mono (List.subset_append_left _ _)).trans (hf''.mono (List.subset_append_right _ _))

end

/-! ### Statements that each bind a local -/

/-- Statements that bind different locals, none of which another one reads, bind all of them. The run starts
in a frame `f₁` in which some of the names may already be bound. -/
theorem execBlock_binds {steps : List (Stmt × String × Value)} {names : List String} {f : Frame} {m : Machine}
    (hnd : (steps.map (·.2.1)).Nodup) (hmem : ∀ s ∈ steps, s.2.1 ∈ names)
    (hstep : ∀ s ∈ steps, ∀ f', Frame.Outside names f f' → it.exec f' s.1 m = (.ok (f'.set s.2.1 s.2.2), m))
    {f₁ : Frame} (hf₁ : Frame.Outside names f f₁) :
    ∃ f', it.execBlock f₁ (steps.map (·.1)) m = (.ok f', m) ∧ Frame.Outside (steps.map (·.2.1)) f₁ f' ∧
      ∀ s ∈ steps, f'.locals.get? s.2.1 = some s.2.2 := by
  -- `f` stays fixed: every step is known to run in all frames that differ from it only in the names
  induction steps generalizing f₁ with
  | nil => exact ⟨f₁, by simp only [List.map_nil, execBlock, pure_apply], .refl _ _, by simp⟩
  | cons s steps ih =>
    obtain ⟨hs, hnd⟩ := List.nodup_cons.1 hnd
    have hset := hstep s List.mem_cons_self f₁ hf₁
    obtain ⟨f', hrun, hf', hget⟩ := ih hnd (fun s' hs' => hmem s' (List.mem_cons_of_mem _ hs'))
      (fun s' hs' => hstep s' (List.mem_cons_of_mem _ hs')) (hf₁.trans (.set f₁ s.2.2 (hmem s List.mem_cons_self)))
    refine ⟨f', ?_, ?_, ?_⟩
    · simp only [List.map_cons, execBlock]
      rw [bind_ok hset, hrun]
    · exact (Frame.Outside.set f₁ _ List.mem_cons_self).trans (hf'.mono (List.subset_cons_self _ _))
    · intro s' hs'
      rcases List.mem_cons.1 hs' with rfl | hs'
      -- the later steps bind other names
      · rw [hf'.get? _ hs, Frame.get?_set_self]
      · exact hget s' hs'

end Interpreter

end AbiBridge
