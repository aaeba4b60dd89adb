import Mathlib
import AbiBridge.Proofs.Effects

/-!
# Definite assignment

A statement needs some variables before it starts and leaves some bound behind. What a block needs is what its
statements need, less what earlier ones leave bound (`needsAll`). A statement without a call that starts in a frame
with all it needs does not trap on an undefined variable, and where it does not trap at all it unbinds nothing and
binds what it promises (`exec_resolves`).
-/

namespace AbiBridge

/-! ### Runs that find their variables -/

/-- The variable that a trap says is undefined. -/
def Trap.undefined? : Trap → Option String
  | .undefinedVariable name => some name
  | _ => none

theorem Trap.eq_of_undefined? {e : Trap} {name : String} (h : e.undefined? = some name) :
    e = .undefinedVariable name := by
  cases e <;> cases h
  rfl

/-- A value that satisfies `P`, or a trap on something else than an undefined variable. -/
def Resolved {α : Type} (P : α → Prop) : Except Trap α → Prop
  | .ok a => P a
  | .error e => e.undefined? = none

theorem Resolved.mono {α : Type} {P Q : α → Prop} {r : Except Trap α} (h : Resolved P r) (hPQ : ∀ a, P a → Q a) :
    Resolved Q r := by
  cases r with
  | ok a => exact hPQ a h
  | error e => exact h

theorem Resolved.of_error {α β : Type} {P : α → Prop} {Q : β → Prop} {r : Except Trap α} {e : Trap}
    (h : Resolved P r) (he : r = .error e) : Resolved Q (.error e) := by
  rw [he] at h
  exact h

namespace Run

variable {σ τ α β : Type} {P : α → Prop} {Q : β → Prop}

/-- From no state does the run trap on an undefined variable, and what it returns satisfies `P`. -/
def Resolves (P : α → Prop) (x : Run σ α) : Prop := ∀ s, Resolved P (x s).1

/-- The run traps on no undefined variable. -/
abbrev Finds (x : Run σ α) : Prop := Resolves (fun _ => True) x

namespace Resolves

theorem bind {x : Run σ α} {f : α → Run σ β} (hx : Resolves P x) (hf : ∀ a, P a → Resolves Q (f a)) :
    Resolves Q (x >>= f) := by
  intro s
  have h := hx s
  rw [bind_apply]
  rcases hxs : x s with ⟨e | a, s'⟩ <;> rw [hxs] at h
  · exact h
  · exact hf a h s'

theorem bind_any {x : Run σ α} {f : α → Run σ β} (hx : Finds x) (hf : ∀ a, Resolves Q (f a)) : Resolves Q (x >>= f) :=
  hx.bind fun a _ => hf a

theorem pure {a : α} (ha : P a) : Resolves P (pure a : Run σ α) := fun _ => ha

theorem trap {e : Trap} (he : e.undefined? = none) : Resolves P (trap e : Run σ α) := fun _ => he

theorem ofExcept {r : Except Trap α} (h : Resolved P r) : Resolves P (ofExcept r : Run σ α) := fun _ => h

theorem read {g : σ → Except Trap α} (h : ∀ s, Resolved P (g s)) : Resolves P (read g) := h

theorem update {g : σ → Except Trap σ} (h : ∀ s, Resolved (fun _ => True) (g s)) : Finds (update g) := by
  intro s
  unfold Run.update
  split
  · trivial
  · exact (h s).of_error ‹_›

theorem within {view : σ → τ} {replace : σ → τ → σ} {x : Run τ α} (h : Resolves P x) :
    Resolves P (within view replace x) :=
  fun s => h (view s)

theorem mono {P' : α → Prop} {x : Run σ α} (hx : Resolves P x) (h : ∀ a, P a → P' a) : Resolves P' x :=
  fun s => (hx s).mono h

end Resolves

end Run

open Run

theorem resolved_mapM {α β : Type} {f : α → Except Trap β} {l : List α}
    (h : ∀ a ∈ l, Resolved (fun _ => True) (f a)) : Resolved (fun _ => True) (l.mapM f) := by
  induction l with
  | nil => trivial
  | cons a l ih =>
    have ha := h a List.mem_cons_self
    have ih := ih fun b hb => h b (List.mem_cons_of_mem _ hb)
    rw [List.mapM_cons]
    cases hfa : f a with
    | error e => exact ha.of_error hfa
    | ok b =>
      cases hl : l.mapM f with
      | error e => exact ih.of_error hl
      | ok bs => trivial

/-! ### Work on the heap -/

section Heap

theorem Value.asInt_resolved (v : Value) : Resolved (fun _ => True) v.asInt := by
  cases v <;> trivial

theorem Value.asExtent_resolved (v : Value) : Resolved (fun _ => True) v.asExtent := by
  unfold asExtent
  split
  · exact v.asInt_resolved.of_error ‹_›
  · split <;> trivial

theorem View.flatIndex_resolved (v : View) (index : List Nat) : Resolved (fun _ => True) (v.flatIndex index) := by
  unfold flatIndex
  split <;> trivial

namespace Heap

variable (heap : Heap)

theorem buffer_resolved (h : Handle) : Resolved (fun _ => True) (heap.buffer h) := by
  unfold buffer
  split <;> trivial

theorem object_resolved (h : Handle) : Resolved (fun _ => True) (heap.object h) := by
  unfold object
  split <;> trivial

theorem modifyObject_resolved (h : Handle) (f : Bindings Value → Bindings Value) :
    Resolved (fun _ => True) (heap.modifyObject h f) := by
  unfold modifyObject
  split
  · trivial
  · exact (heap.object_resolved h).of_error ‹_›

theorem free_resolved (h : Handle) : Resolved (fun _ => True) (heap.free h) := by
  unfold free
  split <;> trivial

theorem element_resolved (v : View) (index : List Nat) : Resolved (fun _ => True) (heap.element v index) := by
  unfold element
  split
  · exact (v.flatIndex_resolved index).of_error ‹_›
  · split
    · exact (heap.buffer_resolved v.buffer).of_error ‹_›
    · split <;> trivial

theorem setElement_resolved (v : View) (index : List Nat) (x : Value) :
    Resolved (fun _ => True) (heap.setElement v index x) := by
  unfold setElement
  split
  · exact (v.flatIndex_resolved index).of_error ‹_›
  · split
    · split <;> trivial
    · trivial
    · trivial

theorem elements_resolved (v : View) : Resolved (fun _ => True) (heap.elements v) := by
  rw [elements_eq]
  exact resolved_mapM fun index _ => heap.element_resolved v index

theorem itemsOf_resolved (x : Value) : Resolved (fun _ => True) (heap.itemsOf x) := by
  unfold itemsOf
  split
  · exact heap.elements_resolved _
  · trivial

end Heap

namespace HeapM

theorem newArray_finds (extents : List Nat) (order : StorageOrder) : Finds (newArray extents order) := fun _ => trivial

theorem writeAll_finds (v : View) (writes : List (List Nat × Value)) : Finds (writeAll v writes) := by
  induction writes with
  | nil =>
    rw [writeAll_nil]
    exact .pure trivial
  | cons p rest ih =>
    obtain ⟨index, x⟩ := p
    rw [writeAll_cons]
    exact .bind_any (.update fun heap => heap.setElement_resolved v index x) fun _ => ih

theorem copyInto_finds (dest : View) (source : Value) : Finds (copyInto dest source) := by
  refine .bind_any (.read fun heap => heap.itemsOf_resolved source) fun items => ?_
  simp only
  split
  · exact writeAll_finds dest _
  · exact .trap rfl

end HeapM

namespace Interpreter

open Exec

variable (it : Interpreter)

theorem denseCopy_finds (v : View) : Finds (it.denseCopy v) :=
  .bind_any (HeapM.newArray_finds _ _) fun dense => .bind_any (HeapM.copyInto_finds dense _) fun _ => .pure trivial

theorem addressOf_finds (v : Value) : Finds (it.addressOf v) := by
  unfold addressOf
  split
  · exact .pure trivial
  · exact .pure trivial
  · refine .bind_any (.read fun heap => heap.buffer_resolved _) fun items => ?_
    split
    · exact .pure trivial
    · exact .bind_any (it.denseCopy_finds _) fun _ => .pure trivial
  · exact fun _ => trivial
  · exact fun _ => trivial
  · exact fun _ => trivial
  · exact .trap rfl
  · exact .trap rfl
  · exact fun _ => trivial

theorem copyObject_finds (dest : Handle) (v : Value) : Finds (copyObject dest v) := by
  unfold copyObject
  split
  · exact .bind_any (.read fun heap => heap.object_resolved _) fun o =>
      .update fun heap => heap.modifyObject_resolved _ _
  · exact .trap rfl

theorem storedValue_finds (copying : Bool) (v : Value) : Finds (it.storedValue copying v) := by
  unfold storedValue
  split
  · exact .bind_any (it.denseCopy_finds _) fun _ => .pure trivial
  · exact .pure trivial

theorem deallocate_finds (v : Value) : Finds (deallocate v) := by
  unfold deallocate
  split
  · exact .update fun heap => heap.free_resolved _
  · exact .update fun heap => heap.free_resolved _
  · exact .trap rfl

theorem allocate_finds (f : Frame) (name : String) (extents : List Nat) : Finds (it.allocate f name extents) := by
  unfold allocate
  split
  · exact fun _ => trivial
  · exact .bind_any (HeapM.newArray_finds _ _) fun _ => .pure trivial

theorem reinterpret_resolved (heap : Heap) (f : Frame) (name : String) (h : Handle) (extents : List Nat) :
    Resolved (fun _ => True) (it.reinterpret heap f name h extents) := by
  unfold reinterpret
  split
  · trivial
  · split
    · exact (heap.buffer_resolved h).of_error ‹_›
    · -- a buffer that is too short, then one form for each declared type
      simp only
      split
      · trivial
      · split
        · trivial
        · trivial
        · trivial
        · split <;> trivial
        · trivial

theorem iterated_resolved (heap : Heap) (v : Value) : Resolved (fun _ => True) (iterated heap v) := by
  unfold iterated
  split
  · exact heap.elements_resolved _
  · split <;> trivial

theorem fieldOf_finds (v : Value) (name : String) : Finds (fieldOf v name) := by
  unfold fieldOf
  split
  · refine .bind_any (.within (.read fun heap => heap.object_resolved _)) fun o => ?_
    split
    · exact .pure trivial
    · exact .trap rfl
  · exact .trap rfl

theorem position_resolved (extents : List Nat) (n : Int) : Resolved (fun _ => True) (it.position extents n) := by
  unfold position
  split <;> trivial

end Interpreter

end Heap

/-! ### What expressions read -/

namespace Wrapper

mutual

/-- The variables that an expression reads. -/
def Expr.reads : Expr → List String
  | .var name => [name]
  | .isNotNull e => e.reads
  | .add a b => a.reads ++ b.reads
  | .mul a b => a.reads ++ b.reads
  | .shape name _ => [name]
  | .index name subscripts => name :: subscriptReads subscripts
  | .field e _ => e.reads
  | .call _ arguments => actualReads arguments
  | .tuple items => exprReads items
  | _ => []

def Subscript.reads : Subscript → List String
  | .slice start stop step =>
    start.reads ++ step.reads ++ match stop with
      | none => []
      | some e => e.reads
  | .element e => e.reads

def Actual.reads : Actual → List String
  | .mk _ e => e.reads

def exprReads : List Expr → List String
  | [] => []
  | e :: rest => e.reads ++ exprReads rest

def subscriptReads : List Subscript → List String
  | [] => []
  | s :: rest => s.reads ++ subscriptReads rest

def actualReads : List Actual → List String
  | [] => []
  | a :: rest => a.reads ++ actualReads rest

end

mutual

/-- The variables that an assignment to an expression reads. -/
def Expr.targetReads : Expr → List String
  | .tuple items => targetReadsAll items
  | .index name subscripts => name :: subscriptReads subscripts
  | .field e _ => e.reads
  | _ => []

def targetReadsAll : List Expr → List String
  | [] => []
  | e :: rest => e.targetReads ++ targetReadsAll rest

end

@[simp] theorem Expr.targetReads_var (name : String) : (Expr.var name).targetReads = [] := by
  simp only [Expr.targetReads]

/-! ### What statements need -/

/-- The variables that are bound once a statement is done. -/
def Stmt.binds : Stmt → List String
  | .reinterpret _ name _ => [name]
  | .assign lhs _ => lhs.targets
  | .aliasAssign lhs _ => lhs.targets
  | .allocate name _ => [name]
  | .addressOf _ ptr => [ptr]
  | _ => []

mutual

/-- The variables that must be bound before a statement. An address may be taken of what is not bound. -/
def Stmt.needs : Stmt → List String
  | .reinterpret ptr _ sizes => ptr :: exprReads sizes
  | .branch condition body orelse => condition.reads ++ (needsAll body ++ needsAll orelse)
  | .assign lhs rhs => rhs.reads ++ lhs.targetReads
  | .aliasAssign lhs rhs => rhs.reads ++ lhs.targetReads
  | .allocate _ shape => exprReads shape
  | .forEach element iterable counter body =>
    iterable :: (needsAll body).filter fun n => n ≠ element && some n ≠ counter
  | .addressOf _ _ => []
  | .deallocate name => [name]
  | .eval e => e.reads

/-- The variables that must be bound before a block. -/
def needsAll : List Stmt → List String
  | [] => []
  | s :: rest => s.needs ++ (needsAll rest).filter fun n => !s.binds.contains n

end

theorem mem_needsAll_cons {n : String} {s : Stmt} {rest : List Stmt} :
    n ∈ needsAll (s :: rest) ↔ n ∈ s.needs ∨ n ∈ needsAll rest ∧ n ∉ s.binds := by
  simp [needsAll]

theorem mem_needsAll_append {n : String} {xs ys : List Stmt} :
    n ∈ needsAll (xs ++ ys) ↔ n ∈ needsAll xs ∨ n ∈ needsAll ys ∧ n ∉ xs.flatMap Stmt.binds := by
  induction xs with
  | nil => simp [needsAll]
  | cons s xs ih =>
    rw [List.cons_append, mem_needsAll_cons, ih, mem_needsAll_cons, List.flatMap_cons, List.mem_append]
    tauto

theorem exists_of_mem_needsAll {n : String} {block : List Stmt} (h : n ∈ needsAll block) :
    ∃ s ∈ block, n ∈ s.needs := by
  induction block with
  | nil => cases h
  | cons s rest ih =>
    rcases mem_needsAll_cons.1 h with h | ⟨h, -⟩
    · exact ⟨s, List.mem_cons_self, h⟩
    · obtain ⟨s', hs', hn⟩ := ih h
      exact ⟨s', List.mem_cons_of_mem _ hs', hn⟩

end Wrapper

/-! ### Frames -/

namespace Frame

open Wrapper

variable {f f' f'' : Frame} {names others : List String}

def Binds (f : Frame) (names : List String) : Prop := ∀ n ∈ names, (f.locals.get? n).isSome

theorem Binds.mono (h : f.Binds names) (hsub : others ⊆ names) : f.Binds others := fun n hn => h n (hsub hn)

theorem binds_append : f.Binds (names ++ others) ↔ f.Binds names ∧ f.Binds others := List.forall_mem_append

theorem binds_cons {n : String} : f.Binds (n :: names) ↔ (f.locals.get? n).isSome ∧ f.Binds names :=
  List.forall_mem_cons

/-- The second frame binds all that the first does, and the names. -/
structure Gains (names : List String) (f f' : Frame) : Prop where
  bound : f'.Binds names
  kept : ∀ n, (f.locals.get? n).isSome → (f'.locals.get? n).isSome

namespace Gains

theorem refl (f : Frame) : Gains [] f f := ⟨fun _ h => absurd h List.not_mem_nil, fun _ h => h⟩

theorem binds (h : Gains names f f') (hf : f.Binds others) : f'.Binds others := fun n hn => h.kept n (hf n hn)

theorem trans (h : Gains names f f') (h' : Gains others f' f'') : Gains (names ++ others) f f'' :=
  ⟨binds_append.2 ⟨h'.binds h.bound, h'.bound⟩, fun n hn => h'.kept n (h.kept n hn)⟩

theorem mono (h : Gains names f f') (hsub : others ⊆ names) : Gains others f f' := ⟨h.bound.mono hsub, h.kept⟩

theorem set (f : Frame) (name : String) (v : Value) : Gains [name] f (f.set name v) := by
  have hself : ((f.set name v).locals.get? name).isSome := by rw [f.get?_set_self]; rfl
  refine ⟨fun n hn => ?_, fun n hn => ?_⟩
  · rwa [List.mem_singleton.1 hn]
  · by_cases h : name = n
    · rwa [← h]
    · rwa [f.get?_set_ne v h]

end Gains

end Frame

namespace Interpreter

open Exec Wrapper AbiBridge.Frame

variable (it : Interpreter)

/-! ### Expressions -/

theorem lookup_resolved {f : Frame} {name : String} (h : (f.locals.get? name).isSome) :
    Resolved (fun _ => True) (it.lookup f name) := by
  obtain ⟨v, hv⟩ := Option.isSome_iff_exists.1 h
  unfold lookup
  rw [hv]
  trivial

theorem lookupArray_finds {f : Frame} {name : String} (h : (f.locals.get? name).isSome) :
    Finds (it.lookupArray f name) := by
  refine .bind_any (.ofExcept (it.lookup_resolved h)) fun v => ?_
  split
  · exact .pure trivial
  · exact .trap rfl

mutual

theorem eval_finds {f : Frame} : ∀ e : Expr, e.callCount = 0 → f.Binds e.reads → Finds (it.eval f e)
  | .var name, _, hb => by
    simp only [eval]
    exact .ofExcept (it.lookup_resolved (hb name List.mem_cons_self))
  | .int _, _, _ => by simp only [eval]; exact .pure trivial
  | .bool _, _, _ => by simp only [eval]; exact .pure trivial
  | .null, _, _ => by simp only [eval]; exact .pure trivial
  | .isNotNull e, h, hb => by
    simp only [eval]
    exact .bind_any (eval_finds e h hb) fun _ => .pure trivial
  | .add a b, h, hb => by
    simp only [Expr.callCount, Nat.add_eq_zero_iff] at h
    simp only [Expr.reads, binds_append] at hb
    simp only [eval]
    exact .bind_any (eval_finds a h.1 hb.1) fun x => .bind_any (.ofExcept x.asInt_resolved) fun _ =>
      .bind_any (eval_finds b h.2 hb.2) fun y => .bind_any (.ofExcept y.asInt_resolved) fun _ => .pure trivial
  | .mul a b, h, hb => by
    simp only [Expr.callCount, Nat.add_eq_zero_iff] at h
    simp only [Expr.reads, binds_append] at hb
    simp only [eval]
    exact .bind_any (eval_finds a h.1 hb.1) fun x => .bind_any (.ofExcept x.asInt_resolved) fun _ =>
      .bind_any (eval_finds b h.2 hb.2) fun y => .bind_any (.ofExcept y.asInt_resolved) fun _ => .pure trivial
  | .shape name dim, _, hb => by
    simp only [eval]
    refine .bind_any (.ofExcept (it.lookup_resolved (hb name List.mem_cons_self))) fun v => ?_
    split
    · exact .pure trivial
    · exact .trap rfl
  | .index name subscripts, h, hb => by
    simp only [Expr.callCount] at h
    simp only [Expr.reads, binds_cons] at hb
    simp only [eval]
    refine .bind_any (it.lookupArray_finds hb.1) fun v => ?_
    split
    · exact .bind_any (evalPositions_finds subscripts h hb.2) fun index =>
        .within (.read fun heap => heap.element_resolved v index)
    · split
      · exact .bind_any (evalSlices_finds 0 v subscripts h hb.2) fun _ => .pure trivial
      · exact .trap rfl
  | .field e name, h, hb => by
    simp only [eval]
    exact .bind_any (eval_finds e h hb) fun v => fieldOf_finds v name
  | .call _ _, h, _ => by simp [Expr.callCount] at h
  | .tuple items, h, hb => by
    simp only [eval]
    exact .bind_any (evalAll_finds items h hb) fun _ => .pure trivial

theorem evalAll_finds {f : Frame} : ∀ es : List Expr, exprCalls es = 0 → f.Binds (exprReads es) →
    Finds (it.evalAll f es)
  | [], _, _ => by simp only [evalAll]; exact .pure trivial
  | e :: rest, h, hb => by
    simp only [exprCalls, Nat.add_eq_zero_iff] at h
    simp only [exprReads, binds_append] at hb
    simp only [evalAll]
    exact .bind_any (eval_finds e h.1 hb.1) fun _ => .bind_any (evalAll_finds rest h.2 hb.2) fun _ => .pure trivial

theorem evalPositions_finds {f : Frame} : ∀ ss : List Subscript, subscriptCalls ss = 0 → f.Binds (subscriptReads ss) →
    Finds (it.evalPositions f ss)
  | [], _, _ => by simp only [evalPositions]; exact .pure trivial
  | .element e :: rest, h, hb => by
    simp only [subscriptCalls, Subscript.callCount, Nat.add_eq_zero_iff] at h
    simp only [subscriptReads, Subscript.reads, binds_append] at hb
    simp only [evalPositions]
    exact .bind_any (eval_finds e h.1 hb.1) fun x => .bind_any (.ofExcept x.asInt_resolved) fun _ =>
      .bind_any (.ofExcept (it.position_resolved _ _)) fun _ =>
      .bind_any (evalPositions_finds rest h.2 hb.2) fun _ => .pure trivial
  | .slice .. :: _, _, _ => by simp only [evalPositions]; exact .trap rfl

theorem evalSlices_finds {f : Frame} (dim : Nat) (v : View) : ∀ ss : List Subscript, subscriptCalls ss = 0 →
    f.Binds (subscriptReads ss) → Finds (it.evalSlices f dim v ss)
  | [], _, _ => by simp only [evalSlices]; exact .pure trivial
  | .slice start none step :: rest, h, hb => by
    simp only [subscriptCalls, Subscript.callCount, Nat.add_eq_zero_iff] at h
    simp only [subscriptReads, Subscript.reads, binds_append] at hb
    simp only [evalSlices, pure_bind]
    exact .bind_any (eval_finds start h.1.1.1 hb.1.1.1) fun x => .bind_any (.ofExcept x.asInt_resolved) fun _ =>
      .bind_any (eval_finds step h.1.1.2 hb.1.1.2) fun y => .bind_any (.ofExcept y.asExtent_resolved) fun _ =>
      .bind_any (.ofExcept (it.position_resolved _ _)) fun _ => evalSlices_finds _ _ rest h.2 hb.2
  | .slice start (some stop) step :: rest, h, hb => by
    simp only [subscriptCalls, Subscript.callCount, Nat.add_eq_zero_iff] at h
    simp only [subscriptReads, Subscript.reads, binds_append] at hb
    simp only [evalSlices, pure_bind]
    exact .bind_any (eval_finds start h.1.1.1 hb.1.1.1) fun x => .bind_any (.ofExcept x.asInt_resolved) fun _ =>
      .bind_any (eval_finds stop h.1.2 hb.1.2) fun z => .bind_any (.ofExcept z.asInt_resolved) fun _ =>
      .bind_any (eval_finds step h.1.1.2 hb.1.1.2) fun y => .bind_any (.ofExcept y.asExtent_resolved) fun _ =>
      .bind_any (.ofExcept (it.position_resolved _ _)) fun _ =>
      .bind_any (.ofExcept (it.position_resolved _ _)) fun _ => evalSlices_finds _ _ rest h.2 hb.2
  | .element _ :: _, _, _ => by simp only [evalSlices]; exact .trap rfl

end

theorem evalExtents_finds {f : Frame} {es : List Expr} (h : exprCalls es = 0) (hb : f.Binds (exprReads es)) :
    Finds (it.evalExtents f es) := by
  induction es with
  | nil => exact .pure trivial
  | cons e es ih =>
    simp only [exprCalls, Nat.add_eq_zero_iff] at h
    simp only [exprReads, binds_append] at hb
    exact .bind_any (it.eval_finds e h.1 hb.1) fun x => .bind_any (.ofExcept x.asExtent_resolved) fun _ =>
      .bind_any (ih h.2 hb.2) fun _ => .pure trivial

theorem evalActuals_finds {f : Frame} {arguments : List Actual} (h : actualCalls arguments = 0)
    (hb : f.Binds (actualReads arguments)) (place : Nat) : Finds (it.evalActuals f place arguments) := by
  induction arguments generalizing place with
  | nil => simp only [evalActuals]; exact .pure trivial
  | cons a arguments ih =>
    obtain ⟨keyword, e⟩ := a
    simp only [actualCalls, Actual.callCount, Nat.add_eq_zero_iff] at h
    simp only [actualReads, Actual.reads, binds_append] at hb
    simp only [evalActuals]
    exact .bind_any (it.eval_finds e h.1 hb.1) fun _ => .bind_any (ih h.2 hb.2 (place + 1)) fun _ => .pure trivial

/-! ### Assignments -/

theorem assignVar_resolves (copying : Bool) (f : Frame) (name : String) (v : Value) :
    Resolves (Gains [name] f) (assignVar copying f name v) := by
  have hset := Gains.set f name v
  -- where the assignment copies, the local is bound already
  have hbound : ∀ {x}, f.locals.get? name = some x → Gains [name] f f := by
    intro x hx
    refine ⟨fun n hn => ?_, fun _ h => h⟩
    rw [List.mem_singleton.1 hn, hx]
    rfl
  unfold assignVar
  split
  · split
    · exact .pure hset
    · exact .bind_any (.within (HeapM.copyInto_finds _ _)) fun _ => .pure (hbound ‹_›)
  · exact .bind_any (.within (copyObject_finds _ _)) fun _ => .pure (hbound ‹_›)
  · exact .pure hset

mutual

theorem assign_resolves (copying : Bool) {f : Frame} : ∀ (lhs : Expr) (v : Value), lhs.callCount = 0 →
    f.Binds lhs.targetReads → Resolves (Gains lhs.targets f) (it.assign copying f lhs v)
  | .var name, v, _, _ => by simp only [assign]; exact assignVar_resolves copying f name v
  | .tuple targets, v, h, hb => by
    simp only [assign]
    split
    · split
      · exact assignAll_resolves copying targets _ ‹_› h hb
      · exact .trap rfl
    · exact .trap rfl
  | .index name subscripts, v, h, hb => by
    simp only [Expr.callCount] at h
    simp only [Expr.targetReads, binds_cons] at hb
    simp only [assign]
    exact .bind_any (it.lookupArray_finds hb.1) fun view =>
      .bind_any (it.evalPositions_finds subscripts h hb.2) fun index =>
      .bind_any (.within (.update fun heap => heap.setElement_resolved view index v)) fun _ => .pure (.refl f)
  | .field e name, v, h, hb => by
    simp only [assign]
    refine .bind_any (it.eval_finds e h hb) fun owner => ?_
    split
    · exact .bind_any (.within (it.storedValue_finds _ _)) fun _ =>
        .bind_any (.within (.update fun heap => heap.modifyObject_resolved _ _)) fun _ => .pure (.refl f)
    · exact .trap rfl
  | .int _, _, _, _ => by simp only [assign]; exact .trap rfl
  | .bool _, _, _, _ => by simp only [assign]; exact .trap rfl
  | .null, _, _, _ => by simp only [assign]; exact .trap rfl
  | .isNotNull _, _, _, _ => by simp only [assign]; exact .trap rfl
  | .add _ _, _, _, _ => by simp only [assign]; exact .trap rfl
  | .mul _ _, _, _, _ => by simp only [assign]; exact .trap rfl
  | .shape _ _, _, _, _ => by simp only [assign]; exact .trap rfl
  | .call _ _, _, _, _ => by simp only [assign]; exact .trap rfl

theorem assignAll_resolves (copying : Bool) {f : Frame} : ∀ (es : List Expr) (vs : List Value), vs.length = es.length →
    exprCalls es = 0 → f.Binds (targetReadsAll es) → Resolves (Gains (targetsAll es) f) (it.assignAll copying f es vs)
  | [], _, _, _, _ => by simp only [assignAll]; exact .pure (.refl f)
  | _ :: _, [], hl, _, _ => by cases hl
  | e :: es, v :: vs, hl, h, hb => by
    simp only [exprCalls, Nat.add_eq_zero_iff] at h
    simp only [targetReadsAll, binds_append] at hb
    simp only [assignAll, targetsAll]
    refine .bind (assign_resolves copying e v h.1 hb.1) fun f' hf' => ?_
    have hl' : vs.length = es.length := by simpa using hl
    exact (assignAll_resolves copying es vs hl' h.2 (hf'.binds hb.2)).mono fun _ hf'' => hf'.trans hf''

end

/-! ### Statements -/

/-- A turn of a loop starts in a frame that has the element and the counter besides. -/
theorem iterate_cons_gains (body : Frame → Exec Frame) (element : String) (counter : Option String) (place : Nat)
    (v : Value) (items : List Value) (f : Frame) :
    ∃ start, Gains (element :: counter.toList) f start ∧
      iterate body element counter place (v :: items) f =
        (body start >>= fun f' => iterate body element counter (place + 1) items f') := by
  cases counter with
  | none => exact ⟨_, .set f element v, rfl⟩
  | some c => exact ⟨_, ((Gains.set f c (.int place)).trans (.set _ element v)).mono (by simp), rfl⟩

theorem iterate_resolves {names : List String} {body : Frame → Exec Frame}
    (hbody : ∀ f, f.Binds names → Resolves (Gains [] f) (body f)) {element : String} {counter : Option String}
    (items : List Value) (place : Nat) {f : Frame}
    (hb : f.Binds (names.filter fun n => n ≠ element && some n ≠ counter)) :
    Resolves (Gains [] f) (iterate body element counter place items f) := by
  induction items generalizing place f with
  | nil => exact .pure (.refl f)
  | cons v items ih =>
    obtain ⟨start, hstart, heq⟩ := iterate_cons_gains body element counter place v items f
    have hnames : start.Binds names := by
      intro n hn
      by_cases hloop : n ∈ element :: counter.toList
      · exact hstart.bound n hloop
      · refine hstart.kept n (hb n (List.mem_filter.2 ⟨hn, ?_⟩))
        cases counter <;> simp_all
    rw [heq]
    refine .bind (hbody start hnames) fun f' hf' => ?_
    have hf : Gains [] f f' := (hstart.trans hf').mono (List.nil_subset _)
    exact (ih (place + 1) (hf.binds hb)).mono fun f'' hf'' => hf.trans hf''

theorem variableAddress_finds (f : Frame) (name : String) : Finds (it.variableAddress f name) := by
  unfold variableAddress
  split
  · exact .pure trivial
  · exact .bind_any (.within (it.addressOf_finds _)) fun _ => .pure trivial

mutual

theorem exec_resolves {f : Frame} : ∀ s : Stmt, s.callCount = 0 → f.Binds s.needs →
    Resolves (Gains s.binds f) (it.exec f s)
  | .reinterpret ptr name sizes, h, hb => by
    simp only [Stmt.callCount] at h
    simp only [Stmt.needs, binds_cons] at hb
    simp only [exec]
    refine .bind_any (.ofExcept (it.lookup_resolved hb.1)) fun v => ?_
    split
    · exact .trap rfl
    · exact .bind_any (it.evalExtents_finds h hb.2) fun extents =>
        .bind_any (.read fun m => it.reinterpret_resolved m.heap f name _ extents) fun v => .pure (.set f name v)
  | .branch condition body orelse, h, hb => by
    simp only [Stmt.callCount, Nat.add_eq_zero_iff] at h
    simp only [Stmt.needs, binds_append] at hb
    simp only [exec]
    refine .bind_any (it.eval_finds condition h.1.1 hb.1) fun v => ?_
    split
    · exact (execBlock_resolves body h.1.2 hb.2.1).mono fun _ hf' => hf'.mono (List.nil_subset _)
    · exact (execBlock_resolves orelse h.2 hb.2.2).mono fun _ hf' => hf'.mono (List.nil_subset _)
    · exact .trap rfl
  | .assign lhs rhs, h, hb => by
    simp only [Stmt.callCount, Nat.add_eq_zero_iff] at h
    simp only [Stmt.needs, binds_append] at hb
    simp only [exec]
    exact .bind_any (it.eval_finds rhs h.2 hb.1) fun v => it.assign_resolves true lhs v h.1 hb.2
  | .aliasAssign lhs rhs, h, hb => by
    simp only [Stmt.callCount, Nat.add_eq_zero_iff] at h
    simp only [Stmt.needs, binds_append] at hb
    simp only [exec]
    exact .bind_any (it.eval_finds rhs h.2 hb.1) fun v => it.assign_resolves false lhs v h.1 hb.2
  | .allocate name shape, h, hb => by
    simp only [exec]
    exact .bind_any (it.evalExtents_finds h hb) fun extents =>
      .bind_any (.within (it.allocate_finds f name extents)) fun v => .pure (.set f name v)
  | .forEach element iterable counter body, h, hb => by
    simp only [Stmt.callCount] at h
    simp only [Stmt.needs, binds_cons] at hb
    simp only [exec]
    refine .bind_any (.ofExcept (it.lookup_resolved hb.1)) fun v =>
      .bind_any (.read fun m => iterated_resolved m.heap v) fun items =>
      iterate_resolves (fun f' hf' => ?_) items 0 hb.2
    exact (execBlock_resolves body h hf').mono fun _ hf'' => hf''.mono (List.nil_subset _)
  | .addressOf source ptr, _, _ => by
    simp only [exec]
    exact .bind_any (it.variableAddress_finds f source) fun address => .pure (.set f ptr _)
  | .deallocate name, _, hb => by
    simp only [exec]
    exact .bind_any (.ofExcept (it.lookup_resolved (hb name List.mem_cons_self))) fun v =>
      .bind_any (.within (deallocate_finds v)) fun _ => .pure (.refl f)
  | .eval e, h, hb => by
    simp only [exec]
    exact .bind_any (it.eval_finds e h hb) fun _ => .pure (.refl f)

theorem execBlock_resolves {f : Frame} : ∀ block : List Stmt, blockCalls block = 0 → f.Binds (needsAll block) →
    Resolves (Gains (block.flatMap Stmt.binds) f) (it.execBlock f block)
  | [], _, _ => by simp only [execBlock]; exact .pure (.refl f)
  | s :: rest, h, hb => by
    simp only [blockCalls, Nat.add_eq_zero_iff] at h
    simp only [needsAll, binds_append] at hb
    simp only [execBlock, List.flatMap_cons]
    refine .bind (exec_resolves s h.1 hb.1) fun f' hf' => ?_
    have hrest : f'.Binds (needsAll rest) := by
      intro n hn
      by_cases hbound : n ∈ s.binds
      · exact hf'.bound n hbound
      · exact hf'.kept n (hb.2 n (List.mem_filter.2 ⟨hn, by simpa using hbound⟩))
    exact (execBlock_resolves rest h.2 hrest).mono fun _ hf'' => hf'.trans hf''

end

end Interpreter

end AbiBridge
