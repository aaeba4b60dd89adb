import Mathlib
import AbiBridge.Marshal.Presence
import AbiBridge.Proofs.Allocation
import AbiBridge.Proofs.Effects

/-!
# What a marshalled value consists of

An argument has one of the four forms of `Marshalled`, a result one of the three of `Delivered`: passed by value,
kept where it is, or copied. `marshalArgument_grown` and `marshalResult_grown` say that marshalling makes such a form
and which names it takes for it: new ones of the function's scope, and for the element of a fill loop a name of the
scope inside that no name of the function is.
-/

namespace AbiBridge

open Wrapper

/-- The names that a scope uses for declared ones, and those of its locals, are its own. -/
structure ScopeTree.Sound (t : ScopeTree) (id : ScopeId) : Prop where
  owned : ∀ n x, t.nameFor? id n = some x → x ∈ t.symbolsOf id
  locals : ∀ l ∈ t.localsOf id, l.name ∈ t.symbolsOf id

theorem ScopeTree.Grown.sound {id : ScopeId} {requested fresh : List String} {declared : List Local}
    {t t' : ScopeTree} (h : Grown id requested fresh declared t t') (ht : t.Sound id) : t'.Sound id where
  owned n x hx := (h.owned n x hx).elim (fun hx => h.mono (ht.owned n x hx)) h.mem_of_fresh
  locals l hl := by
    rw [h.locals, List.mem_append] at hl
    exact hl.elim (fun hl => h.mono (ht.locals l hl)) (h.declared_mem l)

/-- Different declared names have different names in the scope, none of which is among `others`: the names that the
scope has for other things. -/
structure ScopeTree.Roster (t : ScopeTree) (id : ScopeId) (others : List String) : Prop where
  sound : t.Sound id
  injective : ∀ n n' x, t.nameFor? id n = some x → t.nameFor? id n' = some x → n = n'
  owned : ∀ x ∈ others, x ∈ t.symbolsOf id
  nodup : others.Nodup
  apart : ∀ n x, t.nameFor? id n = some x → x ∉ others

/-- One declared name is asked for, and `companions` are made for it. -/
theorem ScopeTree.Roster.grown {id : ScopeId} {name native : String} {others new companions : List String}
    {declared : List Local} {t t' : ScopeTree} (h : t.Roster id others)
    (g : Grown id [name] (new ++ companions) declared t t') (hname : t'.nameFor? id name = some native)
    (hnew : t.nameFor? id name = none → new = [native]) : t'.Roster id (others ++ companions) := by
  -- the name is one of before, or it is made now and then no companion
  have hnative : t.nameFor? id name = some native ∨ native ∉ t.symbolsOf id ∧ native ∉ companions := by
    cases hold : t.nameFor? id name with
    | some x => exact .inl ((g.kept hold).symm.trans hname)
    | none =>
      have hnodup := g.nodup
      have hfresh := g.notMem native
      rw [hnew hold] at hnodup hfresh
      exact .inr ⟨hfresh List.mem_cons_self, (List.nodup_cons.1 hnodup).1⟩
  have hother : ∀ n, n ≠ name → t'.nameFor? id n = t.nameFor? id n := fun n hn =>
    g.other id n fun _ hmem => hn (List.mem_singleton.1 hmem)
  have hcompanion : ∀ x ∈ companions, x ∉ t.symbolsOf id := fun x hx => g.notMem x (List.mem_append_right _ hx)
  refine ⟨g.sound h.sound, fun n n' x hn hn' => ?_, fun x hx => ?_, ?_, fun n x hn hx => ?_⟩
  · by_cases hne : n = name <;> by_cases hne' : n' = name
    · rw [hne, hne']
    · rw [hne, hname] at hn
      obtain rfl := Option.some.inj hn
      rw [hother n' hne'] at hn'
      rcases hnative with hold | ⟨hfresh, -⟩
      · exact hne.trans (h.injective _ _ _ hold hn')
      · exact absurd (h.sound.owned _ _ hn') hfresh
    · rw [hne', hname] at hn'
      obtain rfl := Option.some.inj hn'
      rw [hother n hne] at hn
      rcases hnative with hold | ⟨hfresh, -⟩
      · exact (h.injective _ _ _ hn hold).trans hne'.symm
      · exact absurd (h.sound.owned _ _ hn) hfresh
    · rw [hother n hne] at hn
      rw [hother n' hne'] at hn'
      exact h.injective n n' x hn hn'
  · rcases List.mem_append.1 hx with hx | hx
    · exact g.mono (h.owned x hx)
    · exact g.mem_of_fresh (List.mem_append_right _ hx)
  · exact h.nodup.append (List.nodup_append.1 g.nodup).2.1 fun x hx hx' => hcompanion x hx' (h.owned x hx)
  · have hold : t.nameFor? id n = some x → False := by
      intro hold
      rcases List.mem_append.1 hx with hx | hx
      · exact h.apart n x hold hx
      · exact hcompanion x hx (h.sound.owned _ _ hold)
    by_cases hne : n = name
    · rw [hne, hname] at hn
      obtain rfl := Option.some.inj hn
      rcases hnative with hname | ⟨hfresh, hnot⟩
      · exact hold (hne ▸ hname)
      · rcases List.mem_append.1 hx with hx | hx
        · exact hfresh (h.owned _ hx)
        · exact hnot hx
    · exact hold (hother n hne ▸ hn)

/-! ### Arguments -/

namespace MarshalledArgument

/-- The names made for an argument besides that of its native local. -/
def companions (a : MarshalledArgument) : List String :=
  match a.argument.abi with
  | .direct => []
  | .pointer ptr shape strides => ptr :: (shape ++ strides ++ a.viewAlias.toList)

/-- All names made for an argument. -/
def names (a : MarshalledArgument) : List String := a.argument.native.name :: a.companions

/-- The locals declared for an argument. -/
def declares (a : MarshalledArgument) : List Local :=
  match a.argument.abi with
  | .direct => []
  | .pointer .. => a.argument.native :: a.viewAlias.toList.map (.aliased · a.argument.declared.type)

end MarshalledArgument

/-- The forms of a marshalled argument. -/
inductive Marshalled (target : Target) (a : Semantic.Argument) : Passing → MarshalledArgument → Prop
  | direct (native : String) :
    Marshalled target a .direct ⟨⟨a, .owned native a.type, .direct, .var native⟩, none, none⟩
  | handle (native ptr : String) :
    Marshalled target a .handle
      ⟨⟨a, .aliased native a.type, .pointer ptr [] [], .var native⟩, some (.reinterpret ptr native []), none⟩
  | sequence (native ptr length : String) :
    Marshalled target a .sequence
      ⟨⟨a, .aliased native a.type, .pointer ptr [length] [], .var native⟩,
        some (.reinterpret ptr native [.var length]), none⟩
  | array (native ptr : String) (shape strides : List String) (viewAlias : Option String)
    (hshape : shape.length = a.type.rank) (hstrides : strides.length = a.type.rank) :
    Marshalled target a .array
      ⟨⟨a, .aliased native a.type, .pointer ptr shape strides,
          stridedView target native (a.type.order.reorder target.storageOrder strides)⟩,
        some (.reinterpret ptr native (spanSizes (a.type.order.reorder target.storageOrder shape)
          (a.type.order.reorder target.storageOrder strides))), viewAlias⟩

theorem Marshalled.declared_eq {target : Target} {a : Semantic.Argument} {p : Passing} {m : MarshalledArgument}
    (h : Marshalled target a p m) : m.argument.declared = a := by
  cases h <;> rfl

open ScopeTree

section Arguments

variable {target : Target} {scope : Nat} {t t' : ScopeTree}

theorem marshalArgument_grown {a : Semantic.Argument} {passing : Passing} {temporary : Bool}
    {m : MarshalledArgument} (hid : scope < t.size) (hsound : t.Sound scope)
    (h : marshalArgument target scope a passing temporary t = (m, t')) :
    Marshalled target a passing m ∧ ∃ new, t'.nameFor? scope a.name = some m.argument.native.name ∧
      Grown scope [a.name] (new ++ m.companions) m.declares t t' ∧
      (t.nameFor? scope a.name = none → new = [m.argument.native.name]) := by
  obtain ⟨native, t₁, h₁, h⟩ := Alloc.bind_eq h
  obtain ⟨new, hname, g₁, hnew⟩ := Alloc.insertSymbol_grown hid h₁
  have hnative : native ∈ t₁.symbolsOf scope := (g₁.sound hsound).owned _ _ hname
  by_cases hp : passing = .direct
  · subst hp
    obtain ⟨rfl, rfl⟩ := Prod.mk.inj h
    exact ⟨.direct native, new, hname, (List.append_nil new).symm ▸ g₁, hnew⟩
  rw [if_neg hp] at h
  obtain ⟨ptr, t₂, h₂, h⟩ := Alloc.bind_eq h
  have g₂ := Alloc.freshName_grown (g₁.lt_size hid) h₂
  obtain ⟨_, t₃, h₃, h⟩ := Alloc.bind_eq h
  have g₃ := Alloc.declare_grown (l := .aliased native a.type) (g₂.lt_size (g₁.lt_size hid)) (g₂.mono hnative) h₃
  have g := (g₁.trans g₂).trans g₃
  cases passing with
  | direct => exact absurd rfl hp
  | handle =>
    obtain ⟨rfl, rfl⟩ := Prod.mk.inj h
    refine ⟨.handle native ptr, new, g₃.kept (g₂.kept hname), ?_, hnew⟩
    simpa [MarshalledArgument.companions, MarshalledArgument.declares] using g
  | sequence =>
    obtain ⟨length, t₄, h₄, h⟩ := Alloc.bind_eq h
    have g₄ := Alloc.freshName_grown (g.lt_size hid) h₄
    obtain ⟨rfl, rfl⟩ := Prod.mk.inj h
    refine ⟨.sequence native ptr length, new, g₄.kept (g₃.kept (g₂.kept hname)), ?_, hnew⟩
    simpa [MarshalledArgument.companions, MarshalledArgument.declares] using g.trans g₄
  | array =>
    obtain ⟨shape, t₄, h₄, h⟩ := Alloc.bind_eq h
    obtain ⟨g₄, hshape⟩ := Alloc.series_grown (g.lt_size hid) h₄
    obtain ⟨strides, t₅, h₅, h⟩ := Alloc.bind_eq h
    have g := g.trans g₄
    obtain ⟨g₅, hstrides⟩ := Alloc.series_grown (g.lt_size hid) h₅
    have g := g.trans g₅
    have hname₅ := g₅.kept (g₄.kept (g₃.kept (g₂.kept hname)))
    cases temporary with
    | false =>
      obtain ⟨rfl, rfl⟩ := Prod.mk.inj h
      refine ⟨.array native ptr shape strides none hshape hstrides, new, hname₅, ?_, hnew⟩
      simpa [MarshalledArgument.companions, MarshalledArgument.declares] using g
    | true =>
      obtain ⟨view, t₆, h₆, h⟩ := Alloc.bind_eq h
      have g₆ := Alloc.freshName_grown (g.lt_size hid) h₆
      obtain ⟨_, t₇, h₇, h⟩ := Alloc.bind_eq h
      have g₇ := Alloc.declare_grown (l := .aliased view a.type) (g₆.lt_size (g.lt_size hid))
        (g₆.mem_of_fresh (List.mem_singleton_self _)) h₇
      obtain ⟨rfl, rfl⟩ := Prod.mk.inj h
      refine ⟨.array native ptr shape strides (some view) hshape hstrides, new, g₇.kept (g₆.kept hname₅), ?_, hnew⟩
      simpa [MarshalledArgument.companions, MarshalledArgument.declares] using (g.trans g₆).trans g₇

theorem marshalArguments_grown {plan : List (Semantic.Argument × Passing)}
    {temporary : Semantic.Argument → Passing → Bool} {ms : List MarshalledArgument}
    (hid : scope < t.size) (hsound : t.Sound scope)
    (h : (plan.mapM fun p => marshalArgument target scope p.1 p.2 (temporary p.1 p.2)) t = (ms, t')) :
    List.Forall₂ (fun p m => Marshalled target p.1 p.2 m) plan ms ∧ ∃ fresh,
      Grown scope (plan.map (·.1.name)) fresh (ms.flatMap (·.declares)) t t' ∧
      (∀ m ∈ ms, t'.nameFor? scope m.name = some m.argument.native.name) ∧
      (ms.flatMap (·.companions)).Sublist fresh ∧
      ((plan.map (·.1.name)).Nodup → (∀ p ∈ plan, t.nameFor? scope p.1.name = none) →
        fresh = ms.flatMap (·.names)) ∧
      ∀ others, t.Roster scope others → t'.Roster scope (others ++ ms.flatMap (·.companions)) := by
  induction plan generalizing t ms with
  | nil =>
    obtain ⟨rfl, rfl⟩ := Prod.mk.inj h
    exact ⟨.nil, [], .refl scope t, by simp, .slnil, fun _ _ => rfl, by simp⟩
  | cons p plan ih =>
    rw [List.mapM_cons] at h
    obtain ⟨m, t₁, h₁, h⟩ := Alloc.bind_eq h
    obtain ⟨rest, t₂, h₂, h⟩ := Alloc.bind_eq h
    obtain ⟨rfl, rfl⟩ := Prod.mk.inj h
    obtain ⟨hm, new, hname, g₁, hnew⟩ := marshalArgument_grown hid hsound h₁
    obtain ⟨hrest, f₂, g₂, hall, hsub, hf₂, hroster⟩ := ih (g₁.lt_size hid) (g₁.sound hsound) h₂
    have hmname : m.name = p.1.name := congrArg Semantic.Argument.name hm.declared_eq
    refine ⟨.cons hm hrest, new ++ m.companions ++ f₂, g₁.trans g₂, ?_, ?_, fun hnd hnone => ?_, fun others h => ?_⟩
    · intro m' hm'
      rcases List.mem_cons.1 hm' with rfl | hm'
      · exact g₂.kept (hmname ▸ hname)
      · exact hall m' hm'
    · rw [List.flatMap_cons]
      exact (List.sublist_append_right new _).append hsub
    · obtain ⟨hnotin, hnd⟩ := List.nodup_cons.1 hnd
      rw [hnew (hnone p List.mem_cons_self), hf₂ hnd fun q hq => ?_, List.flatMap_cons]
      · rfl
      -- a different name is not affected by this argument's request
      rw [g₁.other scope _ fun _ => ?_, hnone q (List.mem_cons_of_mem _ hq)]
      rw [List.mem_singleton]
      exact fun heq => hnotin (List.mem_map.2 ⟨q, hq, heq⟩)
    · rw [List.flatMap_cons, ← List.append_assoc]
      exact hroster _ (h.grown g₁ hname hnew)

end Arguments

/-! ### Statements without calls and tests -/

/-- The statement neither calls nor tests nor reinterprets a pointer. -/
inductive Wrapper.Stmt.Quiet : Stmt → Prop
  | assign {lhs rhs : Expr} (hl : lhs.callCount = 0) (hr : rhs.callCount = 0) : Quiet (.assign lhs rhs)
  | allocate {var : String} {shape : List Expr} (h : exprCalls shape = 0) : Quiet (.allocate var shape)
  | forEach {element iterable : String} {counter : Option String} {body : List Stmt}
    (h : ∀ s ∈ body, Quiet s) : Quiet (.forEach element iterable counter body)
  | addressOf {source ptr : String} : Quiet (.addressOf source ptr)
  | deallocate {var : String} : Quiet (.deallocate var)

namespace Wrapper.Stmt.Quiet

theorem callCount_eq_zero {s : Stmt} (h : s.Quiet) : s.callCount = 0 := by
  induction h with
  | assign hl hr => rw [callCount, hl, hr]
  | allocate h => exact h
  | forEach _ ih => exact blockCalls_eq_zero.2 ih
  | addressOf => rfl
  | deallocate => rfl

theorem countConditionals_of_forall {block : List Stmt} (h : ∀ s ∈ block, s.conditionals = 0) :
    countConditionals block = 0 := by
  induction block with
  | nil => rfl
  | cons s block ih =>
    rw [countConditionals, h s List.mem_cons_self, ih fun s hs => h s (List.mem_cons_of_mem _ hs)]

theorem conditionals_eq_zero {s : Stmt} (h : s.Quiet) : s.conditionals = 0 := by
  induction h with
  | forEach _ ih => exact countConditionals_of_forall ih
  | _ => rfl

theorem zipWith {α β : Type} {f : α → β → Stmt} (hf : ∀ a b, (f a b).Quiet) (as : List α) (bs : List β) :
    ∀ s ∈ List.zipWith f as bs, s.Quiet := by
  intro s hs
  rw [← List.map_uncurry_zip_eq_zipWith] at hs
  obtain ⟨p, -, rfl⟩ := List.mem_map.1 hs
  exact hf p.1 p.2

end Wrapper.Stmt.Quiet

/-! ### Results -/

/-- Stores the element at the position that the counter holds; in a set the body counts. -/
def fillBody (target : Target) (array counter element : String) (isSet : Bool) : List Stmt :=
  let store := Stmt.assign (.index array [.element (nativePosition target counter)]) (.var element)
  let advance := Stmt.assign (.var counter) (.add (.var counter) (.int 1))
  if isSet then [store, advance] else [store]

/-- The statements that fill an array from a collection. -/
def fillStmts (target : Target) (source array counter element : String) (isSet : Bool) : List Stmt :=
  [.assign (.var counter) (.int 0),
    .forEach element source (if isSet then none else some counter) (fillBody target array counter element isSet)]

/-- The names under which a result is delivered as a copy. -/
structure OwnedResult where
  /-- Holds the value of the call. -/
  value : String
  ptr : String
  shape : List String
  /-- Holds the copy. -/
  held : String

namespace OwnedResult

/-- A result that is delivered as a copy, made by the statements `copy`. -/
def marshalled (n : OwnedResult) (target : Target) (r : Semantic.Result) (copy : List Stmt) : MarshalledResult :=
  ⟨⟨r, ⟨n.value, .value r.type false⟩, .pointer n.ptr n.shape⟩,
    assignShapes r.type.order target.storageOrder n.value n.shape ++
      .allocate n.held ((r.type.order.reorder target.storageOrder n.shape).map .var) :: copy ++
      [.addressOf n.held n.ptr],
    some ⟨n.value, false⟩⟩

def names (n : OwnedResult) : List String := n.value :: n.ptr :: (n.shape ++ [n.held])

/-- The names besides that of the value. -/
def companions (n : OwnedResult) : List String := n.ptr :: (n.shape ++ [n.held])

/-- The statements that copy the value, with the names they use besides. -/
inductive Copy (n : OwnedResult) (target : Target) : Delivery → List Stmt → List String → Prop
  | whole : Copy n target .copy [.assign (.var n.held) (.var n.value)] []
  | fill (isSet : Bool) (counter element : String) :
    Copy n target (.fill isSet) (fillStmts target n.value n.held counter element isSet) [counter, element]

end OwnedResult

/-- The names a result takes in the function's scope and in that of a loop, and its locals in the former. -/
structure ResultNames where
  /-- The name made for the value, if one is made. -/
  value : List String
  companions : List String
  inner : List String
  declared : List Local

/-- The names in the function's scope. -/
def ResultNames.own (ns : ResultNames) : List String := ns.value ++ ns.companions

namespace ResultSource

/-- The local that holds the value; `value` is the name made for it, unless it is an argument. -/
def native (source : ResultSource) (r : Semantic.Result) (delivery : Delivery) (value : String) : Local :=
  match source with
  | .call => ⟨value, .value r.type r.isAlias⟩
  | .field => ⟨value, .value r.type (r.isAlias || delivery != .direct)⟩
  | .inPlace a => a.argument.native

/-- The name that is made for the value. -/
def made (source : ResultSource) (value : String) : List String :=
  match source with
  | .inPlace _ => []
  | _ => [value]

/-- What the call binds. -/
def bound (source : ResultSource) (r : Semantic.Result) (value : String) : Option CallTarget :=
  match source with
  | .call => some ⟨value, r.isAlias⟩
  | _ => none

/-- The statements that set the shape outputs. -/
def measure (source : ResultSource) (target : Target) (r : Semantic.Result) (native : String)
    (shape : List String) : List Stmt :=
  match source with
  | .inPlace a =>
    if a.shapeParams.length = r.type.rank then
      List.zipWith (fun out declared => .assign (.var out) (.var declared)) shape a.shapeParams
    else assignShapes r.type.order target.storageOrder native shape
  | _ => assignShapes r.type.order target.storageOrder native shape

/-- Only an owned result of the call is copied. -/
def copies (source : ResultSource) (r : Semantic.Result) : Bool :=
  match source with
  | .call => !r.isAlias
  | _ => false

end ResultSource

/-- The forms of a marshalled result. -/
inductive Delivered (target : Target) (r : Semantic.Result) (source : ResultSource) :
    Delivery → MarshalledResult → ResultNames → Prop
  | direct (value : String) :
    Delivered target r source .direct
      ⟨⟨r, source.native r .direct value, .direct⟩, [], source.bound r (source.native r .direct value).name⟩
      ⟨source.made value, [], [], (source.made value).map fun _ => source.native r .direct value⟩
  | kept {delivery : Delivery} (value ptr : String) (shape : List String) (hd : delivery ≠ .direct)
    (hcopies : source.copies r = false) (hshape : shape.length = r.type.rank) :
    Delivered target r source delivery
      ⟨⟨r, source.native r delivery value, .pointer ptr shape⟩,
        source.measure target r (source.native r delivery value).name shape ++
          [.addressOf (source.native r delivery value).name ptr],
        source.bound r (source.native r delivery value).name⟩
      ⟨source.made value, ptr :: shape, [], (source.made value).map fun _ => source.native r delivery value⟩
  | whole (n : OwnedResult) (hcopies : source.copies r = true) (hshape : n.shape.length = r.type.rank) :
    Delivered target r source .copy (n.marshalled target r [.assign (.var n.held) (.var n.value)])
      ⟨[n.value], n.companions, [], [⟨n.value, .value r.type false⟩, .aliased n.held r.type]⟩
  | filled (n : OwnedResult) (isSet : Bool) (counter element : String) (hcopies : source.copies r = true)
    (hshape : n.shape.length = r.type.rank) :
    Delivered target r source (.fill isSet)
      (n.marshalled target r (fillStmts target n.value n.held counter element isSet))
      ⟨[n.value], n.companions ++ [counter], [element],
        [⟨n.value, .value r.type false⟩, .aliased n.held r.type, .index counter]⟩

theorem Delivered.declared_eq {target : Target} {r : Semantic.Result} {source : ResultSource} {delivery : Delivery}
    {d : MarshalledResult} {ns : ResultNames} (h : Delivered target r source delivery d ns) : d.result.declared = r := by
  cases h <;> rfl

theorem Delivered.eq_of_mem_value {target : Target} {r : Semantic.Result} {source : ResultSource}
    {delivery : Delivery} {d : MarshalledResult} {ns : ResultNames} (h : Delivered target r source delivery d ns)
    {n : String} (hn : n ∈ ns.value) : n = d.result.native.name := by
  have hmade : ∀ {delivery value}, n ∈ source.made value → n = (source.native r delivery value).name := by
    intro delivery value hn
    cases source with
    | inPlace a => cases hn
    | _ => exact List.mem_singleton.1 hn
  cases h with
  | direct value => exact hmade hn
  | kept value ptr shape => exact hmade hn
  | whole n => exact List.mem_singleton.1 hn
  | filled n isSet counter element => exact List.mem_singleton.1 hn

section Quiet

variable {target : Target} {r : Semantic.Result}

theorem quiet_assignShapes (order native : StorageOrder) (value : String) (shape : List String) :
    ∀ s ∈ assignShapes order native value shape, s.Quiet :=
  Stmt.Quiet.zipWith (fun _ _ => .assign rfl rfl) _ _

theorem ResultSource.quiet_measure (source : ResultSource) (native : String) (shape : List String) :
    ∀ s ∈ source.measure target r native shape, s.Quiet := by
  unfold measure
  split
  · split
    · exact Stmt.Quiet.zipWith (fun _ _ => .assign rfl rfl) _ _
    · exact quiet_assignShapes _ _ _ _
  · exact quiet_assignShapes _ _ _ _

theorem quiet_fillStmts (target : Target) (source array counter element : String) (isSet : Bool) :
    ∀ s ∈ fillStmts target source array counter element isSet, s.Quiet := by
  have hpos : (nativePosition target counter).callCount = 0 := by cases target <;> rfl
  have hstore : (Stmt.assign (.index array [.element (nativePosition target counter)]) (.var element)).Quiet :=
    .assign (by simp [Expr.callCount, subscriptCalls, Subscript.callCount, hpos]) rfl
  intro s hs
  rcases List.mem_pair.1 hs with rfl | rfl
  · exact .assign rfl rfl
  · refine .forEach fun s hs => ?_
    cases isSet with
    | false =>
      rw [List.mem_singleton.1 hs]
      exact hstore
    | true =>
      rcases List.mem_pair.1 hs with rfl | rfl
      · exact hstore
      · exact .assign rfl rfl

theorem exprCalls_vars (names : List String) : exprCalls (names.map .var) = 0 := by
  rw [exprCalls_eq_zero]
  intro e he
  obtain ⟨n, -, rfl⟩ := List.mem_map.1 he
  rfl

theorem OwnedResult.quiet_deferred (n : OwnedResult) {copy : List Stmt} (h : ∀ s ∈ copy, s.Quiet) :
    ∀ s ∈ (n.marshalled target r copy).deferred, s.Quiet := by
  intro s hs
  simp only [marshalled, List.mem_append, List.mem_cons, List.not_mem_nil, or_false] at hs
  rcases hs with (hs | rfl | hs) | rfl
  · exact quiet_assignShapes _ _ _ _ s hs
  · exact .allocate (exprCalls_vars _)
  · exact h s hs
  · exact .addressOf

/-- What runs after the call neither calls nor tests. -/
theorem Delivered.quiet {source : ResultSource} {delivery : Delivery} {d : MarshalledResult} {ns : ResultNames}
    (h : Delivered target r source delivery d ns) : ∀ s ∈ d.deferred, s.Quiet := by
  cases h with
  | direct value => simp
  | kept value ptr shape =>
    intro s hs
    rcases List.mem_append.1 hs with hs | hs
    · exact source.quiet_measure _ _ s hs
    · rw [List.mem_singleton.1 hs]
      exact .addressOf
  | whole n =>
    refine n.quiet_deferred fun s hs => ?_
    rw [List.mem_singleton.1 hs]
    exact .assign rfl rfl
  | filled n isSet counter element => exact n.quiet_deferred (quiet_fillStmts _ _ _ _ _ _)

end Quiet

/-! ### Making a result -/

/-- The local that holds the value of a result. -/
def ResultSource.hold (source : ResultSource) (scope : ScopeId) (r : Semantic.Result) (delivery : Delivery) :
    Alloc Local :=
  match source with
  | .inPlace a => pure a.argument.native
  | source => do
    let value ← Alloc.insertSymbol scope r.name
    Alloc.declare scope (source.native r delivery value)
    pure (source.native r delivery value)

/-- What is made for a value that `native` holds. -/
def deliver (target : Target) (scope : ScopeId) (r : Semantic.Result) (delivery : Delivery) (native : Local)
    (bound : Option CallTarget) (measure : List String → List Stmt) (copies : Bool) : Alloc MarshalledResult := do
  if delivery = .direct then
    return ⟨⟨r, native, .direct⟩, [], bound⟩
  let ptr ← Alloc.freshName scope ("bound_" ++ r.name)
  let shape ← Alloc.series scope (r.name ++ "_shape") r.type.rank
  if copies then
    let held ← Alloc.freshName scope (r.name ++ "_ptr")
    Alloc.declare scope (.aliased held r.type)
    let allocate := Stmt.allocate held ((r.type.order.reorder target.storageOrder shape).map .var)
    let copy ← match delivery with
      | .fill isSet => fillLoop target scope r.type native.name held isSet
      | _ => pure [.assign (.var held) native.var]
    return ⟨⟨r, native, .pointer ptr shape⟩, measure shape ++ allocate :: copy ++ [.addressOf held ptr], bound⟩
  return ⟨⟨r, native, .pointer ptr shape⟩, measure shape ++ [.addressOf native.name ptr], bound⟩

theorem marshalResult_eq (target : Target) (scope : ScopeId) (r : Semantic.Result) (delivery : Delivery)
    (source : ResultSource) :
    marshalResult target scope r delivery source = source.hold scope r delivery >>= fun native =>
      deliver target scope r delivery native (source.bound r native.name) (source.measure target r native.name)
        (source.copies r) := by
  cases source <;> rfl

section Results

variable {target : Target} {scope : Nat} {t t' : ScopeTree}

theorem fillLoop_grown {type : ValueType} {source array : String} {isSet : Bool} {stmts : List Stmt}
    (hid : scope < t.size) (h : fillLoop target scope type source array isSet t = (stmts, t')) :
    ∃ counter element, stmts = fillStmts target source array counter element isSet ∧
      Grown scope [] [counter] [.index counter] t t' ∧ element ∉ t'.symbolsOf scope ∧ t'.Inner scope element ∧
      t'.InnerLocal scope element := by
  obtain ⟨counter, t₁, h₁, h⟩ := Alloc.bind_eq h
  have g₁ := Alloc.freshName_grown hid h₁
  obtain ⟨_, t₂, h₂, h⟩ := Alloc.bind_eq h
  have g₂ := Alloc.declare_grown (l := .index counter) (g₁.lt_size hid)
    (g₁.mem_of_fresh (List.mem_singleton_self _)) h₂
  obtain ⟨loop, t₃, h₃, h⟩ := Alloc.bind_eq h
  have g := g₁.trans g₂
  obtain ⟨g₃, hle, hloop, hparent, hchild⟩ := Alloc.newChild_grown (g.lt_size hid) h₃
  have hnew : t.size ≤ loop := g.extend.size_le.trans hle
  have hne : loop ≠ scope := Nat.ne_of_gt (Nat.lt_of_lt_of_le hid hnew)
  obtain ⟨element, t₄, h₄, h⟩ := Alloc.bind_eq h
  have helement := Alloc.freshName_notMem_parent hparent hne h₄
  have g₄ := Alloc.freshName_grown hloop h₄
  obtain ⟨_, t₅, h₅, h⟩ := Alloc.bind_eq h
  have g₅ := Alloc.declare_grown (l := .owned element (type.element?.getD type)) (g₄.lt_size hloop)
    (g₄.mem_of_fresh (List.mem_singleton_self _)) h₅
  obtain ⟨rfl, rfl⟩ := Prod.mk.inj h
  -- the element is allocated and declared in the scope of the loop
  have ginner := g₄.trans g₅
  have hchild := ginner.extend.children scope hchild
  refine ⟨counter, element, rfl, (g.trans g₃).trans_new ginner hid hnew, ?_, ⟨loop, hchild, ?_⟩, loop, hchild, hne, ?_⟩
  · rwa [(ginner.frame scope ((g.trans g₃).lt_size hid) hne.symm).1]
  · exact ginner.mem_of_fresh List.mem_cons_self
  · rw [ginner.locals, List.map_append]
    exact List.mem_append_right _ List.mem_cons_self

theorem named_grown {name x : String} {l : Local} {t₁ : ScopeTree} {u : Unit} (hid : scope < t.size)
    (hsound : t.Sound scope) (hname : Alloc.insertSymbol scope name t = (x, t₁)) (hl : l.name = x)
    (hdeclare : Alloc.declare scope l t₁ = (u, t')) :
    ∃ new, t'.nameFor? scope name = some l.name ∧ Grown scope [name] new [l] t t' ∧
      (t.nameFor? scope name = none → new = [l.name]) := by
  obtain ⟨new, hx, g₁, hnew⟩ := Alloc.insertSymbol_grown hid hname
  have hown : l.name ∈ t₁.symbolsOf scope := hl ▸ (g₁.sound hsound).owned _ _ hx
  have g₂ := Alloc.declare_grown (g₁.lt_size hid) hown hdeclare
  exact ⟨new ++ [], hl ▸ g₂.kept hx, g₁.trans g₂, fun hn => by rw [List.append_nil, hnew hn, hl]⟩

theorem hold_grown {source : ResultSource} {r : Semantic.Result} {delivery : Delivery} {native : Local}
    (hid : scope < t.size) (hsound : t.Sound scope)
    (hplace : ∀ a, source = .inPlace a → t.nameFor? scope r.name = some a.argument.native.name)
    (h : source.hold scope r delivery t = (native, t')) :
    ∃ value new, native = source.native r delivery value ∧ t'.nameFor? scope r.name = some native.name ∧
      Grown scope [r.name] new ((source.made value).map fun _ => native) t t' ∧
      (t.nameFor? scope r.name = none → new = [native.name] ∧ source.made value = [native.name]) := by
  cases source with
  | inPlace a =>
    obtain ⟨rfl, rfl⟩ := Prod.mk.inj h
    have hname := hplace a rfl
    exact ⟨"", [], rfl, hname, (Grown.refl scope t).weaken (by simp), fun hn => by rw [hname] at hn; cases hn⟩
  | call =>
    obtain ⟨value, t₁, h₁, h⟩ := Alloc.bind_eq h
    obtain ⟨_, t₂, h₂, h⟩ := Alloc.bind_eq h
    obtain ⟨rfl, rfl⟩ := Prod.mk.inj h
    obtain ⟨new, hname, g, hnew⟩ := named_grown hid hsound h₁ rfl h₂
    exact ⟨value, new, rfl, hname, g, fun hn => ⟨hnew hn, rfl⟩⟩
  | field =>
    obtain ⟨value, t₁, h₁, h⟩ := Alloc.bind_eq h
    obtain ⟨_, t₂, h₂, h⟩ := Alloc.bind_eq h
    obtain ⟨rfl, rfl⟩ := Prod.mk.inj h
    obtain ⟨new, hname, g, hnew⟩ := named_grown hid hsound h₁ rfl h₂
    exact ⟨value, new, rfl, hname, g, fun hn => ⟨hnew hn, rfl⟩⟩

theorem marshalResult_grown {source : ResultSource} {r : Semantic.Result} {delivery : Delivery}
    {d : MarshalledResult} (hid : scope < t.size) (hsound : t.Sound scope)
    (hplace : ∀ a, source = .inPlace a → t.nameFor? scope r.name = some a.argument.native.name)
    (h : marshalResult target scope r delivery source t = (d, t')) :
    ∃ ns new, Delivered target r source delivery d ns ∧ t'.nameFor? scope r.name = some d.result.native.name ∧
      Grown scope [r.name] (new ++ ns.companions) ns.declared t t' ∧
      (t.nameFor? scope r.name = none → new = [d.result.native.name] ∧ ns.value = [d.result.native.name]) ∧
      ∀ n ∈ ns.inner, n ∉ t'.symbolsOf scope ∧ t'.Inner scope n ∧ t'.InnerLocal scope n := by
  rw [marshalResult_eq] at h
  obtain ⟨native, t₁, h₁, h⟩ := Alloc.bind_eq h
  obtain ⟨value, new, rfl, hname, g₁, hnew⟩ := hold_grown hid hsound hplace h₁
  unfold deliver at h
  by_cases hd : delivery = .direct
  · subst hd
    rw [if_pos rfl] at h
    obtain ⟨rfl, rfl⟩ := Prod.mk.inj h
    exact ⟨_, new, .direct value, hname, by simpa using g₁, hnew, by simp⟩
  rw [if_neg hd] at h
  obtain ⟨ptr, t₂, h₂, h⟩ := Alloc.bind_eq h
  have g₂ := Alloc.freshName_grown (g₁.lt_size hid) h₂
  obtain ⟨shape, t₃, h₃, h⟩ := Alloc.bind_eq h
  obtain ⟨g₃, hshape⟩ := Alloc.series_grown ((g₁.trans g₂).lt_size hid) h₃
  have g₂₃ := g₂.trans g₃
  have g := g₁.trans g₂₃
  have hname₃ := g₂₃.kept hname
  cases hcopies : source.copies r with
  | false =>
    rw [hcopies] at h
    obtain ⟨rfl, rfl⟩ := Prod.mk.inj h
    exact ⟨_, new, .kept value ptr shape hd hcopies hshape, hname₃, by simpa using g, hnew, by simp⟩
  | true =>
    rw [hcopies, if_pos rfl] at h
    obtain ⟨rfl, halias⟩ : source = .call ∧ r.isAlias = false := by
      cases source <;> simp_all [ResultSource.copies]
    have hnat : ResultSource.call.native r delivery value = ⟨value, .value r.type false⟩ := by
      rw [ResultSource.native, halias]
    have hbound : ResultSource.call.bound r value = some ⟨value, false⟩ := by rw [ResultSource.bound, halias]
    rw [hnat] at h g hname₃ hnew
    dsimp only at h
    rw [hbound] at h
    obtain ⟨held, t₄, h₄, h⟩ := Alloc.bind_eq h
    have g₄ := Alloc.freshName_grown (g.lt_size hid) h₄
    obtain ⟨_, t₅, h₅, h⟩ := Alloc.bind_eq h
    have g₅ := Alloc.declare_grown (l := .aliased held r.type) (g₄.lt_size (g.lt_size hid))
      (g₄.mem_of_fresh (List.mem_singleton_self _)) h₅
    have g₄₅ := g₄.trans g₅
    have g := g.trans g₄₅
    have hname₅ := g₄₅.kept hname₃
    cases delivery with
    | direct => exact absurd rfl hd
    | copy =>
      obtain ⟨rfl, rfl⟩ := Prod.mk.inj h
      refine ⟨_, new, .whole ⟨value, ptr, shape, held⟩ hcopies hshape, hname₅, ?_, hnew, by simp⟩
      simpa [ResultSource.made, OwnedResult.companions] using g
    | fill isSet =>
      obtain ⟨stmts, t₆, h₆, h⟩ := Alloc.bind_eq h
      obtain ⟨counter, element, rfl, g₆, helement, hinner, hlocal⟩ := fillLoop_grown (g.lt_size hid) h₆
      obtain ⟨rfl, rfl⟩ := Prod.mk.inj h
      refine ⟨_, new, .filled ⟨value, ptr, shape, held⟩ isSet counter element hcopies hshape, g₆.kept hname₅, ?_,
        hnew, ?_⟩
      · simpa [ResultSource.made, OwnedResult.companions] using g.trans g₆
      · intro n hn
        rw [List.mem_singleton.1 hn]
        exact ⟨helement, hinner, hlocal⟩

end Results

end AbiBridge
