import Mathlib
import AbiBridge.Proofs.Presence

/-!
# The shape of the presence tree

The body of a wrapper with `k` optional arguments is a full binary tree of tests of depth `k`, followed by
statements that neither test nor call. `Job.run_hasPresenceTree` counts its leaves and tests and says what stands on
every way from the root to a leaf: which pointers are tested, which are reinterpreted at the leaf, and which
arguments the one call gets.

A way is a `Path`, and its leaves are those that `leafBlocks` lists (`mem_leafBlocks`). Everything about the tree is
an induction over the arguments that are still to be tested, for any list of those already found live; the statements
after the tree take part as a tail without tests.
-/

namespace AbiBridge

open Wrapper

/-! ### Blocks -/

namespace Wrapper.Stmt

mutual

/-- The pointers that a statement reinterprets, at any depth, with the locals that they become. -/
def reinterprets : Stmt → List (String × String)
  | .reinterpret ptr target _ => [(ptr, target)]
  | .branch _ body orelse => blockReinterprets body ++ blockReinterprets orelse
  | .forEach _ _ _ body => blockReinterprets body
  | _ => []

def blockReinterprets : List Stmt → List (String × String)
  | [] => []
  | s :: rest => s.reinterprets ++ blockReinterprets rest

end

/-- What a statement evaluates for its value. -/
def value? : Stmt → Option Expr
  | .assign _ rhs => some rhs
  | .aliasAssign _ rhs => some rhs
  | .eval e => some e
  | _ => none

/-- A way from a block to a leaf of its tests: the conditions met and how they came out. -/
inductive Path : List Stmt → List (Expr × Bool) → List Stmt → Prop
  | leaf {block : List Stmt} (h : block.any isConditional = false) : Path block [] block
  | present {block body orelse leaf : List Stmt} {condition : Expr} {tests : List (Expr × Bool)}
    (hmem : .branch condition body orelse ∈ block) (h : Path body tests leaf) :
    Path block ((condition, true) :: tests) leaf
  | absent {block body orelse leaf : List Stmt} {condition : Expr} {tests : List (Expr × Bool)}
    (hmem : .branch condition body orelse ∈ block) (h : Path orelse tests leaf) :
    Path block ((condition, false) :: tests) leaf

theorem blockReinterprets_append (xs ys : List Stmt) :
    blockReinterprets (xs ++ ys) = blockReinterprets xs ++ blockReinterprets ys := by
  induction xs with
  | nil => rfl
  | cons x xs ih => rw [List.cons_append, blockReinterprets, blockReinterprets, ih, List.append_assoc]

theorem blockReinterprets_eq_nil {block : List Stmt} (h : ∀ s ∈ block, s.reinterprets = []) :
    blockReinterprets block = [] := by
  induction block with
  | nil => rfl
  | cons s block ih =>
    rw [blockReinterprets, h s List.mem_cons_self, ih fun s hs => h s (List.mem_cons_of_mem _ hs), List.nil_append]

theorem Quiet.reinterprets_eq_nil {s : Stmt} (h : s.Quiet) : s.reinterprets = [] := by
  induction h with
  | forEach _ ih => exact blockReinterprets_eq_nil ih
  | _ => rfl

theorem Quiet.isConditional_eq_false {s : Stmt} (h : s.Quiet) : s.isConditional = false := by
  cases h <;> rfl

theorem countConditionals_append (xs ys : List Stmt) :
    countConditionals (xs ++ ys) = countConditionals xs + countConditionals ys := by
  induction xs with
  | nil => rw [countConditionals, List.nil_append, Nat.zero_add]
  | cons x xs ih => rw [List.cons_append, countConditionals, countConditionals, ih, Nat.add_assoc]

theorem branchLeaves_eq_flatMap (block : List Stmt) : branchLeaves block = block.flatMap leaves := by
  induction block with
  | nil => rfl
  | cons s block ih => rw [branchLeaves, ih, List.flatMap_cons]

theorem leaves_eq_nil {s : Stmt} (h : s.isConditional = false) : s.leaves = [] := by
  cases s <;> first | rfl | cases h

theorem leaves_branch (condition : Expr) (body orelse : List Stmt) :
    (branch condition body orelse).leaves = leafBlocks body ++ leafBlocks orelse := by
  rw [leaves, leafBlocks, leafBlocks]

theorem any_isConditional_eq_false {block : List Stmt} :
    block.any isConditional = false ↔ ∀ s ∈ block, s.isConditional = false := by
  simp

theorem branchLeaves_eq_nil {block : List Stmt} (h : block.any isConditional = false) : branchLeaves block = [] := by
  rw [branchLeaves_eq_flatMap, List.flatMap_eq_nil_iff]
  exact fun s hs => leaves_eq_nil (any_isConditional_eq_false.1 h s hs)

theorem exists_path_of_mem_leafBlocks (block leaf : List Stmt) (h : leaf ∈ leafBlocks block) :
    ∃ tests, Path block tests leaf := by
  by_cases hany : block.any isConditional = true
  · rw [leafBlocks, if_pos hany, branchLeaves_eq_flatMap] at h
    obtain ⟨s, hs, h⟩ := List.mem_flatMap.1 h
    cases s with
    | branch condition body orelse =>
      have hsize : sizeOf body < sizeOf block ∧ sizeOf orelse < sizeOf block := by
        have hlt := List.sizeOf_lt_of_mem hs
        simp only [branch.sizeOf_spec] at hlt
        omega
      rw [leaves_branch] at h
      rcases List.mem_append.1 h with h | h
      · obtain ⟨tests, hp⟩ := exists_path_of_mem_leafBlocks body leaf h
        exact ⟨_, .present hs hp⟩
      · obtain ⟨tests, hp⟩ := exists_path_of_mem_leafBlocks orelse leaf h
        exact ⟨_, .absent hs hp⟩
    | _ => cases h
  · rw [leafBlocks, if_neg hany] at h
    rw [List.mem_singleton.1 h]
    exact ⟨[], .leaf (Bool.eq_false_iff.2 hany)⟩
termination_by sizeOf block
decreasing_by exacts [hsize.1, hsize.2]

theorem Path.mem_leafBlocks {block leaf : List Stmt} {tests : List (Expr × Bool)} (hp : Path block tests leaf) :
    leaf ∈ leafBlocks block := by
  have hstep : ∀ {block body orelse leaf : List Stmt} {condition : Expr}, .branch condition body orelse ∈ block →
      leaf ∈ leafBlocks body ∨ leaf ∈ leafBlocks orelse → leaf ∈ leafBlocks block := by
    intro block body orelse leaf condition hmem hleaf
    rw [leafBlocks, if_pos (List.any_eq_true.2 ⟨_, hmem, rfl⟩), branchLeaves_eq_flatMap]
    exact List.mem_flatMap.2 ⟨_, hmem, by rw [leaves_branch]; exact List.mem_append.2 hleaf⟩
  induction hp with
  | leaf h =>
    rw [leafBlocks, if_neg (Bool.eq_false_iff.1 h)]
    exact List.mem_singleton_self _
  | present hmem _ ih => exact hstep hmem (.inl ih)
  | absent hmem _ ih => exact hstep hmem (.inr ih)

theorem mem_leafBlocks {block leaf : List Stmt} : leaf ∈ leafBlocks block ↔ ∃ tests, Path block tests leaf :=
  ⟨exists_path_of_mem_leafBlocks block leaf, fun ⟨_, hp⟩ => hp.mem_leafBlocks⟩

end Wrapper.Stmt

/-! ### Which arguments are live -/

/-- The test of a pointer. -/
def presenceTest (d : String × Bool) : Expr × Bool := (.isNotNull (.var d.1), d.2)

/-- The argument is live when the pointers were found as `decisions` says. -/
def Wrapper.Argument.isLiveOn (decisions : List (String × Bool)) (a : Argument) : Bool :=
  !a.isOptional || a.pointer?.any fun ptr => decisions.contains (ptr, true)

/-- The pointers of the optional arguments. -/
def optionalPointers (arguments : List Argument) : List String :=
  (arguments.filter (·.isOptional)).filterMap (·.pointer?)

section Live

variable {a : Argument} {rest : List Argument} {ptr : String}

theorem optionalPointers_required (ha : a.isOptional = false) :
    optionalPointers (a :: rest) = optionalPointers rest := by
  rw [optionalPointers, List.filter_cons, ha, if_neg (by decide)]
  rfl

theorem optionalPointers_optional (ha : a.isOptional = true) (hptr : a.pointer? = some ptr) :
    optionalPointers (a :: rest) = ptr :: optionalPointers rest := by
  rw [optionalPointers, List.filter_cons, ha, if_pos rfl, List.filterMap_cons, hptr]
  rfl

theorem mem_optionalPointers (ha : a ∈ rest) (hopt : a.isOptional = true) (hptr : a.pointer? = some ptr) :
    ptr ∈ optionalPointers rest :=
  List.mem_filterMap.2 ⟨a, List.mem_filter.2 ⟨ha, hopt⟩, hptr⟩

theorem Wrapper.Argument.isLiveOn_required (ha : a.isOptional = false) (decisions : List (String × Bool)) :
    a.isLiveOn decisions = true := by
  rw [isLiveOn, ha]
  rfl

theorem Wrapper.Argument.isLiveOn_head (ha : a.isOptional = true) (hptr : a.pointer? = some ptr) (b : Bool)
    {decisions : List (String × Bool)} (hnot : ptr ∉ decisions.map Prod.fst) :
    a.isLiveOn ((ptr, b) :: decisions) = b := by
  have hfalse : decisions.contains (ptr, true) = false := by
    rw [Bool.eq_false_iff, Ne, List.contains_iff_mem]
    exact fun hmem => hnot (List.mem_map.2 ⟨_, hmem, rfl⟩)
  rw [isLiveOn, ha, hptr, Option.any_some, List.contains_cons, hfalse]
  cases b <;> simp

theorem Wrapper.Argument.isLiveOn_tail (b : Bool) {decisions : List (String × Bool)} {x : Argument} (hx : x ∈ rest)
    (hnot : ptr ∉ optionalPointers rest) : x.isLiveOn ((ptr, b) :: decisions) = x.isLiveOn decisions := by
  unfold isLiveOn
  cases hopt : x.isOptional with
  | false => rfl
  | true =>
    cases hptr : x.pointer? with
    | none => rfl
    | some ptr' =>
      have hne : ptr' ≠ ptr := fun h => hnot (h ▸ mem_optionalPointers hx hopt hptr)
      simp [hne]

end Live

/-- A pointer is reinterpreted where there is one. -/
theorem Marshalled.pointer?_cases {target : Target} {a : Semantic.Argument} {p : Passing} {x : MarshalledArgument}
    (h : Marshalled target a p x) :
    x.argument.pointer? = none ∧ x.rebuild = none ∨ ∃ ptr sizes, x.argument.pointer? = some ptr ∧
      x.rebuild = some (.reinterpret ptr x.argument.native.name sizes) := by
  cases h with
  | direct => exact .inl ⟨rfl, rfl⟩
  | handle | sequence | array => exact .inr ⟨_, _, rfl, rfl⟩

namespace CallSite

open Stmt

variable {site : CallSite} {target : Target} {live rest : List MarshalledArgument}
  {block after leaf : List Stmt} {tests : List (Expr × Bool)}

/-- The tree of tests for the arguments `rest`, where those of `live` were found live before. -/
inductive Tests (site : CallSite) (target : Target) :
    (live rest : List MarshalledArgument) → List Stmt → Prop
  | leaf {live : List MarshalledArgument} (marshalled : ∀ x ∈ live, ∃ a p, Marshalled target a p x) :
    Tests site target live [] (site.leaf live)
  | required {live rest : List MarshalledArgument} {a : MarshalledArgument} {block : List Stmt}
    (ha : a.argument.isOptional = false) (h : Tests site target (live ++ [a]) rest block) :
    Tests site target live (a :: rest) block
  | optional {live rest : List MarshalledArgument} {a : MarshalledArgument} {ptr : String} {body orelse : List Stmt}
    (ha : a.argument.isOptional = true) (hptr : a.argument.pointer? = some ptr)
    (present : Tests site target (live ++ [a]) rest body) (absent : Tests site target live rest orelse) :
    Tests site target live (a :: rest) [.branch (.isNotNull (.var ptr)) body orelse]

theorem tests_tree (marshalled : ∀ x ∈ live ++ rest, ∃ a p, Marshalled target a p x)
    (pointer : ∀ x ∈ rest, x.argument.isOptional = true → ∃ ptr, x.argument.pointer? = some ptr) :
    Tests site target live rest (site.tree live rest) := by
  induction rest generalizing live with
  | nil => exact .leaf (by simpa using marshalled)
  | cons a rest ih =>
    have hrest := fun x hx => pointer x (List.mem_cons_of_mem a hx)
    have hpresent : Tests site target (live ++ [a]) rest _ := ih (by simpa using marshalled) hrest
    have habsent : Tests site target live rest _ :=
      ih (fun x hx => marshalled x (by simp_all [or_left_comm])) hrest
    cases ha : a.argument.isOptional with
    | true =>
      obtain ⟨ptr, hptr⟩ := pointer a List.mem_cons_self ha
      rw [tree, if_pos ha, hptr]
      exact .optional ha hptr hpresent habsent
    | false =>
      rw [tree, if_neg (Bool.eq_false_iff.1 ha)]
      exact .required ha hpresent

/-! ### Leaves -/

theorem mem_leaf {s : Stmt} : s ∈ site.leaf live ↔
    s ∈ preparation live ∨ s = site.bind (.call site.callee (actuals live)) := by
  show s ∈ preparation live ++ [_] ↔ _
  rw [List.mem_append, List.mem_singleton]
  rfl

theorem callCount_vars (targets : List CallTarget) : exprCalls (targets.map fun t => .var t.name) = 0 := by
  rw [exprCalls_eq_zero]
  intro e he
  obtain ⟨t, -, rfl⟩ := List.mem_map.1 he
  rfl

theorem bind_cases (site : CallSite) (call : Expr) :
    site.bind call = .eval call ∨ ∃ lhs, lhs.callCount = 0 ∧
      (site.bind call = .aliasAssign lhs call ∨ site.bind call = .assign lhs call) := by
  unfold bind
  split
  · exact .inl rfl
  · rename_i t _
    refine .inr ⟨.var t.name, rfl, ?_⟩
    split
    · exact .inl rfl
    · exact .inr rfl
  · exact .inr ⟨.tuple _, callCount_vars site.targets, .inr rfl⟩

section Leaf

variable (marshalled : ∀ x ∈ live, ∃ a p, Marshalled target a p x)

include marshalled

theorem preparation_cases {s : Stmt} (hs : s ∈ preparation live) :
    (∃ ptr native sizes, s = .reinterpret ptr native sizes ∧ exprCalls sizes = 0) ∨
      ∃ n e, s = .aliasAssign (.var n) e ∧ e.callCount = 0 := by
  rcases mem_preparation.1 hs with ⟨x, hx, hs⟩ | ⟨x, hx, hs⟩ <;> obtain ⟨a, p, hm⟩ := marshalled x hx
  · obtain ⟨ptr, sizes, rfl, hsizes⟩ := hm.rebuild_eq hs
    exact .inl ⟨ptr, _, sizes, rfl, hsizes⟩
  · obtain ⟨n, -, rfl⟩ := Option.map_eq_some_iff.1 hs
    exact .inr ⟨n, _, rfl, hm.callCount_callValue⟩

theorem leaf_conditionals {s : Stmt} (hs : s ∈ site.leaf live) : s.isConditional = false ∧ s.conditionals = 0 := by
  rcases mem_leaf.1 hs with hs | rfl
  · rcases preparation_cases marshalled hs with ⟨ptr, native, sizes, rfl, -⟩ | ⟨n, e, rfl, -⟩ <;> exact ⟨rfl, rfl⟩
  · rcases site.bind_cases (.call site.callee (actuals live)) with h | ⟨lhs, -, h | h⟩ <;> rw [h] <;> exact ⟨rfl, rfl⟩

theorem leaf_any_isConditional (hafter : after.any isConditional = false) :
    (site.leaf live ++ after).any isConditional = false := by
  rw [List.any_append, hafter, any_isConditional_eq_false.2 fun s hs => (leaf_conditionals marshalled hs).1]
  rfl

theorem blockCalls_leaf : blockCalls (site.leaf live) = 1 := by
  have hprep : blockCalls (preparation live) = 0 := by
    rw [blockCalls_eq_zero]
    intro s hs
    rcases preparation_cases marshalled hs with ⟨ptr, native, sizes, rfl, h⟩ | ⟨n, e, rfl, h⟩
    · exact h
    · exact (Nat.zero_add _).trans h
  have hcall : (Expr.call site.callee (actuals live)).callCount = 1 := by
    rw [Expr.callCount, actualCalls_actuals marshalled]
  show blockCalls (preparation live ++ [site.bind (.call site.callee (actuals live))]) = 1
  rw [blockCalls_append, hprep, blockCalls, blockCalls]
  rcases site.bind_cases (.call site.callee (actuals live)) with h | ⟨lhs, hlhs, h | h⟩ <;> rw [h, callCount, hcall]
  · rw [hlhs]
  · rw [hlhs]

/-- A leaf reinterprets the pointers of its arguments, that of the receiver first. -/
theorem blockReinterprets_leaf : blockReinterprets (site.leaf live) =
    (receiverFirst live).filterMap fun x => x.argument.pointer?.map fun ptr => (ptr, x.argument.native.name) := by
  have hrebuild : ∀ xs ⊆ live, blockReinterprets (xs.filterMap (·.rebuild)) =
      xs.filterMap fun x => x.argument.pointer?.map fun ptr => (ptr, x.argument.native.name) := by
    intro xs hxs
    induction xs with
    | nil => rfl
    | cons x xs ih =>
      obtain ⟨a, p, hm⟩ := marshalled x (hxs List.mem_cons_self)
      have ih := ih fun y hy => hxs (List.mem_cons_of_mem _ hy)
      rcases hm.pointer?_cases with ⟨hptr, hrebuild⟩ | ⟨ptr, sizes, hptr, hrebuild⟩
      · rw [List.filterMap_cons, List.filterMap_cons, hptr, hrebuild]
        exact ih
      · rw [List.filterMap_cons, List.filterMap_cons, hptr, hrebuild]
        exact congrArg _ ih
  have hview : blockReinterprets ((receiverFirst live).filterMap bindView) = [] := by
    refine blockReinterprets_eq_nil fun s hs => ?_
    obtain ⟨x, -, hs⟩ := List.mem_filterMap.1 hs
    obtain ⟨n, -, rfl⟩ := Option.map_eq_some_iff.1 hs
    rfl
  have hbind : (site.bind (.call site.callee (actuals live))).reinterprets = [] := by
    rcases site.bind_cases (.call site.callee (actuals live)) with h | ⟨lhs, -, h | h⟩ <;> rw [h] <;> rfl
  show blockReinterprets (preparation live ++ [site.bind (.call site.callee (actuals live))]) = _
  rw [blockReinterprets_append, preparation, blockReinterprets_append, hview, blockReinterprets, hbind,
    hrebuild _ fun x hx => mem_receiverFirst.1 hx]
  simp [blockReinterprets]

end Leaf

theorem exists_call_of_leaf (site : CallSite) (live : List MarshalledArgument) :
    ∃ s arguments, site.leaf live = preparation live ++ [s] ∧ s.value? = some (.call site.callee arguments) ∧
      arguments.map (·.keyword) = live.map fun x => some x.name := by
  refine ⟨_, actuals live, rfl, ?_, by rw [actuals, List.map_map]; rfl⟩
  rcases site.bind_cases (.call site.callee (actuals live)) with h | ⟨lhs, -, h | h⟩ <;>
    exact congrArg value? h

/-! ### Counting -/

theorem Tests.length_leafBlocks (h : Tests site target live rest block) (hafter : after.any isConditional = false) :
    (leafBlocks (block ++ after)).length = 2 ^ (rest.filter (·.argument.isOptional)).length := by
  induction h generalizing after with
  | @leaf live marshalled =>
    rw [leafBlocks, if_neg (Bool.eq_false_iff.1 (leaf_any_isConditional marshalled hafter))]
    rfl
  | @required live rest a block ha _ ih => rw [ih hafter, List.filter_cons, ha, if_neg (by decide)]
  | @optional live rest a ptr body orelse ha hptr _ _ hpresent habsent =>
    -- the branches end where the test ends: `after` stands behind the whole test
    have hbody := hpresent List.any_nil
    have horelse := habsent List.any_nil
    rw [List.append_nil] at hbody horelse
    rw [leafBlocks, if_pos (by rfl), List.singleton_append, branchLeaves, branchLeaves_eq_nil hafter, leaves_branch,
      List.append_nil, List.length_append, hbody, horelse, List.filter_cons, ha, if_pos rfl, List.length_cons,
      pow_succ]
    omega

theorem Tests.countConditionals_add_one (h : Tests site target live rest block) :
    countConditionals block + 1 = 2 ^ (rest.filter (·.argument.isOptional)).length := by
  induction h with
  | @leaf live marshalled =>
    rw [Quiet.countConditionals_of_forall fun s hs => (leaf_conditionals marshalled hs).2]
    rfl
  | @required live rest a block ha _ ih => rw [ih, List.filter_cons, ha, if_neg (by decide)]
  | @optional live rest a ptr body orelse ha hptr _ _ hbody horelse =>
    rw [countConditionals, conditionals, countConditionals, List.filter_cons, ha, if_pos rfl, List.length_cons,
      pow_succ, ← hbody]
    omega

theorem Tests.length_optionalPointers (h : Tests site target live rest block) :
    (optionalPointers (rest.map (·.argument))).length = (rest.filter (·.argument.isOptional)).length := by
  induction h with
  | leaf => rfl
  | @required live rest a block ha _ ih =>
    rw [List.map_cons, optionalPointers_required ha, ih, List.filter_cons, ha, if_neg (by decide)]
  | @optional live rest a ptr body orelse ha hptr _ _ _ ih =>
    rw [List.map_cons, optionalPointers_optional ha hptr, List.length_cons, ih, List.filter_cons, ha, if_pos rfl,
      List.length_cons]

/-! ### Ways -/

theorem path_of_no_conditional (hblock : block.any isConditional = false) (hp : Path block tests leaf) :
    tests = [] ∧ leaf = block := by
  cases hp with
  | leaf => exact ⟨rfl, rfl⟩
  | present hmem => cases any_isConditional_eq_false.1 hblock _ hmem
  | absent hmem => cases any_isConditional_eq_false.1 hblock _ hmem

theorem eq_of_mem_branch {condition condition' : Expr} {body body' orelse orelse' : List Stmt}
    (hafter : after.any isConditional = false)
    (hmem : Stmt.branch condition' body' orelse' ∈ [.branch condition body orelse] ++ after) :
    condition' = condition ∧ body' = body ∧ orelse' = orelse := by
  rcases List.mem_append.1 hmem with hmem | hmem
  · exact branch.inj (List.mem_singleton.1 hmem)
  · cases any_isConditional_eq_false.1 hafter _ hmem

/-- A way tests the pointers in turn and ends at the leaf of the arguments that it found. -/
theorem Tests.of_path (h : Tests site target live rest block) (hafter : after.any isConditional = false)
    (hnd : (optionalPointers (rest.map (·.argument))).Nodup) (hp : Path (block ++ after) tests leaf) :
    ∃ decisions : List (String × Bool), tests = decisions.map presenceTest ∧
      decisions.map Prod.fst = optionalPointers (rest.map (·.argument)) ∧ ∃ tail ⊆ after,
        leaf = site.leaf (live ++ rest.filter (·.argument.isLiveOn decisions)) ++ tail := by
  induction h generalizing after tests with
  | @leaf live marshalled =>
    obtain ⟨rfl, rfl⟩ := path_of_no_conditional (leaf_any_isConditional marshalled hafter) hp
    exact ⟨[], rfl, rfl, after, List.Subset.refl _, by simp⟩
  | @required live rest a block ha _ ih =>
    rw [List.map_cons, optionalPointers_required ha] at hnd ⊢
    obtain ⟨decisions, rfl, hptrs, tail, htail, rfl⟩ := ih hafter hnd hp
    refine ⟨decisions, rfl, hptrs, tail, htail, ?_⟩
    rw [List.filter_cons, Argument.isLiveOn_required ha, if_pos rfl, List.append_assoc]
    rfl
  | @optional live rest a ptr body orelse ha hptr _ _ hbody horelse =>
    rw [List.map_cons, optionalPointers_optional ha hptr] at hnd ⊢
    obtain ⟨hnot, hnd⟩ := List.nodup_cons.1 hnd
    -- what is found out about this pointer makes its own argument live or not, and no other
    have hfilter : ∀ (b : Bool) (decisions : List (String × Bool)),
        decisions.map Prod.fst = optionalPointers (rest.map (·.argument)) →
        (a :: rest).filter (·.argument.isLiveOn ((ptr, b) :: decisions)) =
          (if b then [a] else []) ++ rest.filter (·.argument.isLiveOn decisions) := by
      intro b decisions hptrs
      have htail : rest.filter (·.argument.isLiveOn ((ptr, b) :: decisions)) =
          rest.filter (·.argument.isLiveOn decisions) :=
        List.filter_congr fun x hx => Argument.isLiveOn_tail b (List.mem_map_of_mem hx) hnot
      rw [List.filter_cons, Argument.isLiveOn_head ha hptr b (hptrs ▸ hnot), htail]
      cases b <;> rfl
    cases hp with
    | leaf h => cases h
    | present hmem hp =>
      obtain ⟨rfl, rfl, rfl⟩ := eq_of_mem_branch hafter hmem
      obtain ⟨decisions, rfl, hptrs, tail, htail, rfl⟩ :=
        hbody List.any_nil hnd (by rwa [List.append_nil])
      refine ⟨(ptr, true) :: decisions, rfl, by rw [List.map_cons, hptrs], tail, by simp_all, ?_⟩
      rw [hfilter true decisions hptrs, List.append_assoc]
      rfl
    | absent hmem hp =>
      obtain ⟨rfl, rfl, rfl⟩ := eq_of_mem_branch hafter hmem
      obtain ⟨decisions, rfl, hptrs, tail, htail, rfl⟩ :=
        horelse List.any_nil hnd (by rwa [List.append_nil])
      refine ⟨(ptr, false) :: decisions, rfl, by rw [List.map_cons, hptrs], tail, by simp_all, ?_⟩
      rw [hfilter false decisions hptrs]
      rfl

/-- Whatever is found, there is a way for it. -/
theorem Tests.exists_path (h : Tests site target live rest block) (hafter : after.any isConditional = false)
    {decisions : List (String × Bool)}
    (hptrs : decisions.map Prod.fst = optionalPointers (rest.map (·.argument))) :
    ∃ leaf, Path (block ++ after) (decisions.map presenceTest) leaf := by
  induction h generalizing after decisions with
  | @leaf live marshalled =>
    obtain rfl := List.map_eq_nil_iff.1 hptrs
    exact ⟨_, .leaf (leaf_any_isConditional marshalled hafter)⟩
  | @required live rest a block ha _ ih =>
    rw [List.map_cons, optionalPointers_required ha] at hptrs
    exact ih hafter hptrs
  | @optional live rest a ptr body orelse ha hptr _ _ hbody horelse =>
    rw [List.map_cons, optionalPointers_optional ha hptr] at hptrs
    obtain ⟨⟨ptr', b⟩, decisions, rfl, rfl, htail⟩ := List.map_eq_cons_iff.1 hptrs
    cases b with
    | true =>
      obtain ⟨leaf, hp⟩ := hbody List.any_nil htail
      rw [List.append_nil] at hp
      exact ⟨leaf, .present (List.mem_append_left _ (List.mem_singleton_self _)) hp⟩
    | false =>
      obtain ⟨leaf, hp⟩ := horelse List.any_nil htail
      rw [List.append_nil] at hp
      exact ⟨leaf, .absent (List.mem_append_left _ (List.mem_singleton_self _)) hp⟩

end CallSite

/-! ### Wrappers -/

open Stmt

/-- The block calls `callee` once, with the arguments `live` by keyword, and reinterprets their pointers, that of the
receiver first. -/
structure CallsWith (callee : String) (live : List Argument) (block : List Stmt) : Prop where
  reinterprets : blockReinterprets block = (live.filter (·.isBound) ++ live.filter (!·.isBound)).filterMap
    fun a => a.pointer?.map fun ptr => (ptr, a.native.name)
  calls : blockCalls block = 1
  keywords : ∃ s ∈ block, ∃ arguments, s.value? = some (.call callee arguments) ∧
    arguments.map (·.keyword) = live.map fun a => some a.declared.name

/-- The body of a wrapper is a full tree of the tests of its optional arguments, and what comes after it. -/
structure HasPresenceTree (job : Job) (w : Wrapper.Function) : Prop where
  declared : w.arguments.map (·.declared) = job.function.arguments
  /-- All but required scalars come by pointer. -/
  pointer : ∀ a ∈ w.arguments, a.pointer? = none ↔ a.isOptional = false ∧ ∃ kind, a.declared.type = .scalar kind
  leaves : (leafBlocks w.body).length = 2 ^ (job.function.arguments.filter (·.optional)).length
  tests : countConditionals w.body = 2 ^ (job.function.arguments.filter (·.optional)).length - 1
  pointers_length : (optionalPointers w.arguments).length = (job.function.arguments.filter (·.optional)).length
  pointers_nodup : (optionalPointers w.arguments).Nodup
  /-- The leaf blocks are where the ways end, and there is a way for every finding. -/
  ends : ∀ leaf, leaf ∈ leafBlocks w.body ↔ ∃ tests, Path w.body tests leaf
  findings : ∀ decisions : List (String × Bool), decisions.map Prod.fst = optionalPointers w.arguments →
    ∃ leaf, Path w.body (decisions.map presenceTest) leaf
  /-- A way tests each optional pointer once, in order, and ends with the call for what it found. -/
  path : ∀ tests leaf, Path w.body tests leaf → ∃ decisions : List (String × Bool),
    tests = decisions.map presenceTest ∧ decisions.map Prod.fst = optionalPointers w.arguments ∧
      CallsWith job.callName (w.arguments.filter (·.isLiveOn decisions)) leaf
  /-- The calls are the last statements of the tree, and nothing after it calls or tests. -/
  after : ∃ tree after, w.body = tree ++ after ∧ blockCalls after = 0 ∧ countConditionals after = 0 ∧
    ∀ tests leaf, Path tree tests leaf → ∃ before s arguments, leaf = before ++ [s] ∧
      s.value? = some (.call job.callName arguments)

theorem Job.quiet_release (f : Semantic.Function) (arguments : List MarshalledArgument) :
    ∀ s ∈ Job.release f arguments, s.Quiet := by
  intro s hs
  unfold Job.release at hs
  split at hs
  · split at hs
    · rw [List.mem_singleton.1 hs]
      exact .deallocate
    · cases hs
  · cases hs

theorem receiverFirst_map (live : List MarshalledArgument) :
    (CallSite.receiverFirst live).map (·.argument) =
      (live.map (·.argument)).filter (·.isBound) ++ (live.map (·.argument)).filter (!·.isBound) := by
  rw [CallSite.receiverFirst, List.map_append, List.filter_map, List.filter_map]
  rfl

namespace Lowering

variable {target : Target} {job : Job} {t t' : ScopeTree} {w : Wrapper.Function}
  {arguments : List MarshalledArgument} {made : List (MarshalledResult × ResultNames)}

/-- The body after the tree. -/
def closing (job : Job) (arguments : List MarshalledArgument) (made : List (MarshalledResult × ResultNames)) :
    List Stmt :=
  made.flatMap (·.1.deferred) ++ Job.release job.function arguments

theorem quiet_closing (h : Lowering target job t t' w arguments made) : ∀ s ∈ closing job arguments made, s.Quiet := by
  intro s hs
  rcases List.mem_append.1 hs with hs | hs
  · obtain ⟨m, hm, hs⟩ := List.mem_flatMap.1 hs
    obtain ⟨r, -, p, -, hd⟩ := exists_of_forall₂_right h.delivered hm
    exact hd.quiet s hs
  · exact Job.quiet_release _ _ s hs

theorem pointer?_eq_none (h : Lowering target job t t' w arguments made) {x : MarshalledArgument}
    (hx : x ∈ arguments) : x.argument.pointer? = none ↔
      x.argument.isOptional = false ∧ ∃ kind, x.argument.declared.type = .scalar kind := by
  obtain ⟨a, -, p, hp, hm⟩ := exists_of_forall₂_right h.marshalled hx
  cases hm with
  | direct native =>
    obtain ⟨htype, hopt⟩ := Passing.of?_eq_direct hp
    exact ⟨fun _ => ⟨hopt, htype⟩, fun _ => rfl⟩
  | handle | sequence | array =>
    refine ⟨fun h => (by cases h), ?_⟩
    rintro ⟨hopt, kind, htype⟩
    simp [show a.type = .scalar kind from htype, show a.optional = false from hopt, Passing.of?] at hp

theorem tests (h : Lowering target job t t' w arguments made) (site : CallSite) :
    CallSite.Tests site target [] arguments (site.body arguments) := by
  refine CallSite.tests_tree (fun x hx => ?_) fun x hx hopt => ?_
  · obtain ⟨a, -, p, -, hm⟩ := exists_of_forall₂_right h.marshalled hx
    exact ⟨a, p, hm⟩
  · refine Option.ne_none_iff_exists'.1 fun hnone => ?_
    rw [((h.pointer?_eq_none hx).1 hnone).1] at hopt
    cases hopt

theorem optionalPointers_nodup (h : Lowering target job t t' w arguments made) :
    (optionalPointers (arguments.map (·.argument))).Nodup := by
  refine List.Sublist.nodup ?_ h.companions
  clear h
  induction arguments with
  | nil => exact .slnil
  | cons x arguments ih =>
    have hx : x.argument.pointer?.toList.Sublist x.companions := by
      unfold Argument.pointer? MarshalledArgument.companions
      cases x.argument.abi with
      | direct => exact .slnil
      | pointer ptr shape strides => exact .cons_cons _ (List.nil_sublist _)
    rw [List.map_cons, List.flatMap_cons]
    cases hopt : x.argument.isOptional with
    | false =>
      rw [optionalPointers_required hopt]
      exact ih.trans (List.sublist_append_right _ _)
    | true =>
      cases hptr : x.argument.pointer? with
      | none =>
        rw [optionalPointers, List.filter_cons, hopt, if_pos rfl, List.filterMap_cons, hptr]
        exact ih.trans (List.sublist_append_right _ _)
      | some ptr =>
        rw [hptr] at hx
        rw [optionalPointers_optional hopt hptr]
        exact hx.append ih

theorem callsWith (h : Lowering target job t t' w arguments made) (site : CallSite) {tail : List Stmt}
    (htail : ∀ s ∈ tail, s.Quiet) (p : Argument → Bool) :
    CallsWith site.callee ((arguments.map (·.argument)).filter p)
      (site.leaf (arguments.filter (p ·.argument)) ++ tail) := by
  have hm : ∀ x ∈ arguments.filter (p ·.argument), ∃ a p, Marshalled target a p x := fun x hx => by
    obtain ⟨a, -, p, -, hm⟩ := exists_of_forall₂_right h.marshalled (List.mem_filter.1 hx).1
    exact ⟨a, p, hm⟩
  have hlive : (arguments.map (·.argument)).filter p = (arguments.filter (p ·.argument)).map (·.argument) := by
    rw [List.filter_map]
    rfl
  refine ⟨?_, ?_, ?_⟩
  · rw [blockReinterprets_append, CallSite.blockReinterprets_leaf hm,
      blockReinterprets_eq_nil fun s hs => (htail s hs).reinterprets_eq_nil, List.append_nil, hlive,
      ← receiverFirst_map, List.filterMap_map]
    rfl
  · rw [blockCalls_append, CallSite.blockCalls_leaf hm,
      blockCalls_eq_zero.2 fun s hs => (htail s hs).callCount_eq_zero]
  · obtain ⟨s, actuals, hleaf, hvalue, hkeywords⟩ := site.exists_call_of_leaf (arguments.filter (p ·.argument))
    refine ⟨s, by rw [hleaf]; simp, actuals, hvalue, ?_⟩
    rw [hkeywords, hlive, List.map_map]
    rfl

end Lowering

/-- The body of every wrapper is a presence tree. -/
theorem Job.run_hasPresenceTree {target : Target} {job : Job} {t t' : ScopeTree} {w : Wrapper.Function}
    (h : job.run target t = (.ok w, t')) : HasPresenceTree job w := by
  obtain ⟨arguments, made, hl⟩ := Job.run_lowering h
  have hquiet := hl.quiet_closing
  have hafter : (Lowering.closing job arguments made).any isConditional = false :=
    any_isConditional_eq_false.2 fun s hs => (hquiet s hs).isConditional_eq_false
  have hconditionals := Quiet.countConditionals_of_forall fun s hs => (hquiet s hs).conditionals_eq_zero
  let site : CallSite := ⟨job.callName, made.filterMap (·.1.target)⟩
  have hbody : w.body = site.body arguments ++ Lowering.closing job arguments made := by
    rw [hl.body, List.append_assoc]
    rfl
  have htests := hl.tests site
  have hcount : (arguments.filter (·.argument.isOptional)).length =
      (job.function.arguments.filter (·.optional)).length := by
    rw [← hl.declared_eq, List.filter_map, List.length_map]
    rfl
  refine ⟨?_, ?_, ?_, ?_, ?_, ?_, ?_, ?_, ?_, ?_⟩
  · rw [hl.arguments_eq, List.map_map]
    exact hl.declared_eq
  · intro a ha
    rw [hl.arguments_eq] at ha
    obtain ⟨x, hx, rfl⟩ := List.mem_map.1 ha
    exact hl.pointer?_eq_none hx
  · rw [hbody, htests.length_leafBlocks hafter, hcount]
  · rw [hbody, countConditionals_append, hconditionals, ← hcount, ← htests.countConditionals_add_one]
    rfl
  · rw [hl.arguments_eq, htests.length_optionalPointers, hcount]
  · rw [hl.arguments_eq]
    exact hl.optionalPointers_nodup
  · exact fun leaf => mem_leafBlocks
  · intro decisions hptrs
    rw [hl.arguments_eq] at hptrs
    rw [hbody]
    exact htests.exists_path hafter hptrs
  · intro tests leaf hp
    rw [hbody] at hp
    obtain ⟨decisions, rfl, hptrs, tail, htail, rfl⟩ := htests.of_path hafter hl.optionalPointers_nodup hp
    rw [hl.arguments_eq]
    exact ⟨decisions, rfl, hptrs, hl.callsWith site (fun s hs => hquiet s (htail hs)) (·.isLiveOn decisions)⟩
  · refine ⟨_, _, hbody, blockCalls_eq_zero.2 fun s hs => (hquiet s hs).callCount_eq_zero, hconditionals,
      fun tests leaf hp => ?_⟩
    rw [← List.append_nil (site.body arguments)] at hp
    obtain ⟨decisions, rfl, hptrs, tail, htail, rfl⟩ := htests.of_path List.any_nil hl.optionalPointers_nodup hp
    obtain ⟨s, actuals, hleaf, hvalue, -⟩ := site.exists_call_of_leaf
      ([] ++ arguments.filter (·.argument.isLiveOn decisions))
    rw [List.subset_nil.1 htail, List.append_nil, hleaf]
    exact ⟨_, s, actuals, rfl, hvalue⟩

/-- A method with two optional arguments, one before and one after the receiver. -/
def blendJob : Job where
  function := {
    name := "blend"
    arguments := [
      { name := "weight", type := .scalar .int32, optional := true },
      { name := "self", type := .object "Grid", bound := true },
      { name := "mask", type := .array .int32 2 .rowMajor, optional := true },
      { name := "steps", type := .scalar .int32 }]
    results := [{ name := "cells", type := .list (.scalar .int32) }] }
  hint := "grid_blend"
  origin := .method ⟨"Grid", "blend"⟩
  callName := "blend"

theorem Job.run_hasPresenceTree_blend : ∃ w t', blendJob.run .fortran (.new .fortran "lib" []) = (.ok w, t') ∧
    HasPresenceTree blendJob w ∧ (leafBlocks w.body).length = 4 ∧ countConditionals w.body = 3 := by
  obtain ⟨plan, hplan⟩ : ∃ plan, CrossingPlan.of blendJob.function = .ok plan := ⟨_, rfl⟩
  have hrun := run_eq_ok hplan .fortran (.new .fortran "lib" [])
  have htree := run_hasPresenceTree hrun
  exact ⟨_, _, hrun, htree, htree.leaves, htree.tests⟩

end AbiBridge
