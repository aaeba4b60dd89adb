import Mathlib
import AbiBridge.Proofs.Assembly
import AbiBridge.Proofs.BoundOutputs

/-!
# Bodies are closed

A body mentions names of the arguments and results it was put together from, and those are its parameters, the name it
returns and its locals (`Assembly.mem_innerNames_of_argument`, `Assembly.mem_innerNames_of_result`). The accessor of a
variable mentions that variable besides. So the body of every wrapper is closed (`wrapModule_closed`).
-/

namespace AbiBridge

open Wrapper

/-! ### Names in a block -/

namespace Wrapper

mutual

/-- The variables that occur in a statement, read or written. -/
def Stmt.names : Stmt → List String
  | .reinterpret ptr name sizes => ptr :: name :: exprReads sizes
  | .branch condition body orelse => condition.reads ++ (namesAll body ++ namesAll orelse)
  | .assign lhs rhs => lhs.reads ++ rhs.reads
  | .aliasAssign lhs rhs => lhs.reads ++ rhs.reads
  | .allocate name shape => name :: exprReads shape
  | .forEach element iterable counter body => element :: iterable :: (counter.toList ++ namesAll body)
  | .addressOf source ptr => [source, ptr]
  | .deallocate name => [name]
  | .eval e => e.reads

/-- The variables that occur in a block. -/
def namesAll : List Stmt → List String
  | [] => []
  | s :: rest => s.names ++ namesAll rest

end

variable {n : String}

theorem mem_namesAll {block : List Stmt} : n ∈ namesAll block ↔ ∃ s ∈ block, n ∈ s.names := by
  induction block with
  | nil => simp [namesAll]
  | cons s rest ih => simp [namesAll, ih]

theorem mem_namesAll_append {xs ys : List Stmt} : n ∈ namesAll (xs ++ ys) ↔ n ∈ namesAll xs ∨ n ∈ namesAll ys := by
  simp only [mem_namesAll, List.mem_append, or_and_right, exists_or]

theorem exists_of_mem_namesAll_flatMap {α : Type} {g : α → List Stmt} {l : List α}
    (h : n ∈ namesAll (l.flatMap g)) : ∃ x ∈ l, n ∈ namesAll (g x) := by
  obtain ⟨s, hs, hn⟩ := mem_namesAll.1 h
  obtain ⟨x, hx, hs⟩ := List.mem_flatMap.1 hs
  exact ⟨x, hx, mem_namesAll.2 ⟨s, hs, hn⟩⟩

theorem names_zipWith {β : Type} {g : β → Expr} {xs : List String} {ys : List β}
    (h : n ∈ namesAll (List.zipWith (fun out y => Stmt.assign (.var out) (g y)) xs ys)) :
    n ∈ xs ∨ ∃ y ∈ ys, n ∈ (g y).reads := by
  obtain ⟨s, hs, hn⟩ := mem_namesAll.1 h
  rw [← List.map_uncurry_zip_eq_zipWith] at hs
  obtain ⟨⟨out, y⟩, hmem, rfl⟩ := List.mem_map.1 hs
  obtain ⟨hout, hy⟩ := List.of_mem_zip hmem
  rcases List.mem_append.1 hn with hn | hn
  · rw [List.mem_singleton.1 hn]
    exact .inl hout
  · exact .inr ⟨y, hy, hn⟩

theorem names_assignShapes {order native : StorageOrder} {value : String} {shape : List String}
    (h : n ∈ namesAll (assignShapes order native value shape)) : n = value ∨ n ∈ shape := by
  rcases names_zipWith h with h | ⟨dim, -, h⟩
  · exact .inr h
  · exact .inl (List.mem_singleton.1 h)

end Wrapper

/-! ### Names of arguments -/

section Arguments

variable {target : Target} {a : Semantic.Argument} {p : Passing} {x : MarshalledArgument} {n : String}

theorem Marshalled.rebuild_names (h : Marshalled target a p x) {s : Stmt} (hs : x.rebuild = some s)
    (hn : n ∈ s.names) : n ∈ x.names := by
  have hparams : ∀ {m}, m ∈ s.needs → m ∈ x.names := fun hm => h.paramNames_sublist.subset (h.rebuild_needs hs hm)
  obtain ⟨ptr, sizes, rfl, -⟩ := h.rebuild_eq hs
  rcases List.mem_cons.1 hn with rfl | hn
  · exact hparams List.mem_cons_self
  rcases List.mem_cons.1 hn with rfl | hn
  · exact List.mem_cons_self
  · exact hparams (List.mem_cons_of_mem _ hn)

theorem Marshalled.callValue_names (h : Marshalled target a p x) (hn : n ∈ x.argument.callValue.reads) :
    n ∈ x.names := by
  rcases List.mem_cons.1 (h.callValue_reads hn) with rfl | hn
  · exact List.mem_cons_self
  · exact h.paramNames_sublist.subset hn

theorem Marshalled.passedValue_names (h : Marshalled target a p x) (hn : n ∈ x.passedValue.reads) : n ∈ x.names := by
  rcases List.mem_append.1 (h.passedValue_reads x hn) with hn | hn
  · exact List.mem_cons_of_mem _ (h.viewAlias_mem (Option.mem_toList.1 hn))
  rcases List.mem_cons.1 hn with rfl | hn
  · exact List.mem_cons_self
  · exact h.paramNames_sublist.subset hn

theorem Marshalled.pointer_mem (h : Marshalled target a p x) {ptr : String} (hptr : x.argument.pointer? = some ptr) :
    ptr ∈ x.names := by
  cases h with
  | direct native => cases hptr
  | _ =>
    cases hptr
    exact List.mem_cons_of_mem _ List.mem_cons_self

/-- The native local is a parameter, or declared; all other names are parameters, or that of a declared view. -/
theorem Marshalled.mem_params_or_declares (h : Marshalled target a p x) (hn : n ∈ x.names) :
    n ∈ x.argument.paramNames ∨ n ∈ x.declares.map (·.name) := by
  rcases h.names_eq with ⟨-, -, hnames⟩ | ⟨-, hnames⟩
  · exact .inl (hnames ▸ hn)
  have hdeclared : x.declares.map (·.name) = x.argument.native.name :: x.viewAlias.toList := by
    cases h with
    | direct native => cases (List.cons.inj hnames).2
    | array native ptr shape strides viewAlias => cases viewAlias <;> rfl
    | _ => rfl
  rw [hdeclared, List.mem_cons]
  rw [hnames, List.mem_cons, List.mem_append] at hn
  tauto

end Arguments

namespace CallSite

variable {target : Target} {site : CallSite} {live rest : List MarshalledArgument} {n : String}

theorem names_leaf (hlive : ∀ x ∈ live, ∃ a p, Marshalled target a p x) (h : n ∈ namesAll (site.leaf live)) :
    (∃ x ∈ live, n ∈ x.names) ∨ n ∈ site.targets.map (·.name) := by
  rcases mem_namesAll_append.1 h with h | h
  · obtain ⟨s, hs, hn⟩ := mem_namesAll.1 h
    rcases mem_preparation.1 hs with ⟨x, hx, hs⟩ | ⟨x, hx, hs⟩ <;> obtain ⟨a, p, hm⟩ := hlive x hx
    · exact .inl ⟨x, hx, hm.rebuild_names hs hn⟩
    · obtain ⟨view, hview, rfl⟩ := bindView_eq hs
      rcases List.mem_cons.1 hn with rfl | hn
      · exact .inl ⟨x, hx, List.mem_cons_of_mem _ (hm.viewAlias_mem hview)⟩
      · exact .inl ⟨x, hx, hm.callValue_names hn⟩
  · have hcall : n ∈ actualReads (actuals live) → ∃ x ∈ live, n ∈ x.names := by
      intro hn
      obtain ⟨x, hx, hn⟩ := exists_of_mem_actualReads hn
      obtain ⟨a, p, hm⟩ := hlive x hx
      exact ⟨x, hx, hm.passedValue_names hn⟩
    obtain ⟨s, hs, hn⟩ := mem_namesAll.1 h
    rw [List.mem_singleton.1 hs] at hn
    unfold bind at hn
    split at hn
    · exact .inl (hcall hn)
    · rename_i t htargets
      rw [htargets]
      split at hn
      all_goals
        rcases List.mem_cons.1 hn with rfl | hn
        · exact .inr List.mem_cons_self
        · exact .inl (hcall hn)
    · rcases List.mem_append.1 hn with hn | hn
      · refine .inr ?_
        rwa [Expr.reads, ← Function.comp_def Expr.var, ← List.map_map, mem_exprReads_vars] at hn
      · exact .inl (hcall hn)

theorem names_tree (hall : ∀ x ∈ live ++ rest, ∃ a p, Marshalled target a p x)
    (h : n ∈ namesAll (site.tree live rest)) :
    (∃ x ∈ live ++ rest, n ∈ x.names) ∨ n ∈ site.targets.map (·.name) := by
  induction rest generalizing live with
  | nil =>
    rw [List.append_nil] at hall ⊢
    exact names_leaf hall h
  | cons a rest ih =>
    have hassoc : live ++ a :: rest = live ++ [a] ++ rest := by simp
    rw [tree] at h
    split at h
    · split at h
      · rename_i ptr hptr
        obtain ⟨s, hs, hn⟩ := mem_namesAll.1 h
        rw [List.mem_singleton.1 hs] at hn
        have ha : a ∈ live ++ a :: rest := List.mem_append_right _ List.mem_cons_self
        rcases List.mem_append.1 hn with hn | hn
        · obtain ⟨d, p, hm⟩ := hall a ha
          rw [List.mem_singleton.1 hn]
          exact .inl ⟨a, ha, hm.pointer_mem hptr⟩
        -- the argument is live in the first branch and left out in the second
        rcases List.mem_append.1 hn with hn | hn
        · rw [hassoc] at hall ⊢
          exact ih hall hn
        · have hsub : ∀ x ∈ live ++ rest, x ∈ live ++ a :: rest := fun x hx =>
            (List.mem_append.1 hx).elim (List.mem_append_left _)
              fun hx => List.mem_append_right _ (List.mem_cons_of_mem _ hx)
          rcases ih (fun x hx => hall x (hsub x hx)) hn with ⟨x, hx, hn⟩ | hn
          · exact .inl ⟨x, hsub x hx, hn⟩
          · exact .inr hn
      · exact names_leaf hall h
    · rw [hassoc] at hall ⊢
      exact ih hall h

end CallSite

/-! ### Names of results -/

section Results

variable {target : Target} {r : Semantic.Result} {source : ResultSource} {delivery : Delivery} {d : MarshalledResult}
  {ns : ResultNames} {n : String}

theorem ResultSource.names_measure {native : String} {shape : List String}
    (h : n ∈ namesAll (source.measure target r native shape)) :
    n = native ∨ n ∈ shape ∨ n ∈ source.shapeParams := by
  have hassign : ∀ {order order'}, n ∈ namesAll (assignShapes order order' native shape) →
      n = native ∨ n ∈ shape ∨ n ∈ source.shapeParams := fun h =>
    (names_assignShapes h).imp id .inl
  unfold measure at h
  split at h
  · split at h
    · rcases names_zipWith h with h | ⟨y, hy, h⟩
      · exact .inr (.inl h)
      · rw [List.mem_singleton.1 h]
        exact .inr (.inr hy)
    · exact hassign h
  · exact hassign h

theorem names_fillStmts {source array counter element : String} {isSet : Bool}
    (h : n ∈ namesAll (fillStmts target source array counter element isSet)) :
    n = source ∨ n = array ∨ n = counter ∨ n = element := by
  have hposition : ∀ {m}, m ∈ (nativePosition target counter).reads → m = counter := by
    intro m hm
    unfold nativePosition at hm
    split at hm
    · exact List.mem_singleton.1 hm
    · simpa [Expr.reads] using hm
  have hbody : ∀ {m}, m ∈ namesAll (fillBody target array counter element isSet) →
      m = array ∨ m = counter ∨ m = element := by
    intro m hm
    have hstore : m ∈ (Stmt.assign (.index array [.element (nativePosition target counter)]) (.var element)).names →
        m = array ∨ m = counter ∨ m = element := by
      simp only [Stmt.names, Expr.reads, subscriptReads, Subscript.reads, List.append_nil, List.cons_append,
        List.mem_cons, List.mem_append, List.not_mem_nil, or_false]
      exact Or.imp id (Or.imp hposition id)
    obtain ⟨s, hs, hmem⟩ := mem_namesAll.1 hm
    cases isSet with
    | false =>
      rw [List.mem_singleton.1 hs] at hmem
      exact hstore hmem
    | true =>
      rcases List.mem_pair.1 hs with rfl | rfl
      · exact hstore hmem
      · simp only [Stmt.names, Expr.reads, List.append_nil, List.mem_append, List.mem_singleton, or_self] at hmem
        exact .inr (.inl hmem)
  obtain ⟨s, hs, h⟩ := mem_namesAll.1 h
  rcases List.mem_pair.1 hs with rfl | rfl
  · simp only [Stmt.names, Expr.reads, List.append_nil, List.mem_singleton] at h
    exact .inr (.inr (.inl h))
  · simp only [Stmt.names, List.mem_cons, List.mem_append] at h
    rcases h with h | h | h | h
    · exact .inr (.inr (.inr h))
    · exact .inl h
    · cases isSet with
      | false => exact .inr (.inr (.inl (List.mem_singleton.1 h)))
      | true => cases h
    · exact .inr (hbody h)

theorem OwnedResult.names_deferred {o : OwnedResult} {copy : List Stmt} {others : List String}
    (hcopy : ∀ {m}, m ∈ namesAll copy → m ∈ o.names ∨ m ∈ others)
    (h : n ∈ namesAll (o.marshalled target r copy).deferred) : n ∈ o.names ∨ n ∈ others := by
  have hshape : ∀ {m}, m ∈ o.shape → m ∈ o.names := fun hm =>
    List.mem_cons_of_mem _ (List.mem_cons_of_mem _ (List.mem_append_left _ hm))
  have hheld : o.held ∈ o.names :=
    List.mem_cons_of_mem _ (List.mem_cons_of_mem _ (List.mem_append_right _ List.mem_cons_self))
  rcases mem_namesAll_append.1 h with h | h
  · rcases mem_namesAll_append.1 h with h | h
    · refine .inl ?_
      rcases names_assignShapes h with rfl | h
      · exact List.mem_cons_self
      · exact hshape h
    · rcases List.mem_append.1 h with h | h
      · rcases List.mem_cons.1 h with rfl | h
        · exact .inl hheld
        · rw [mem_exprReads_vars, StorageOrder.mem_reorder] at h
          exact .inl (hshape h)
      · exact hcopy h
  · rcases List.mem_pair.1 (show n ∈ [o.held, o.ptr] by simpa [namesAll, Stmt.names] using h) with rfl | rfl
    · exact .inl hheld
    · exact .inl (List.mem_cons_of_mem _ List.mem_cons_self)

/-- The statements after the call mention the names of the result and the extents of an argument in place. -/
theorem Delivered.names_deferred (h : Delivered target r source delivery d ns) (hn : n ∈ namesAll d.deferred) :
    n ∈ Assembly.resultNames (d, ns) ∨ n ∈ ns.inner ∨ n ∈ source.shapeParams := by
  cases h with
  | direct value => cases hn
  | kept value ptr shape =>
    rcases mem_namesAll_append.1 hn with hn | hn
    · rcases ResultSource.names_measure hn with rfl | hn | hn
      · exact .inl List.mem_cons_self
      · exact .inl (List.mem_cons_of_mem _ (List.mem_cons_of_mem _ hn))
      · exact .inr (.inr hn)
    · simp only [namesAll, Stmt.names, List.append_nil] at hn
      rcases List.mem_pair.1 hn with rfl | rfl
      · exact .inl List.mem_cons_self
      · exact .inl (List.mem_cons_of_mem _ List.mem_cons_self)
  | whole o =>
    have hcopy : ∀ {m}, m ∈ namesAll [Stmt.assign (.var o.held) (.var o.value)] → m ∈ o.names ∨ m ∈ [] := by
      intro m hm
      simp only [namesAll, Stmt.names, Expr.reads, List.append_nil, List.singleton_append] at hm
      rcases List.mem_pair.1 hm with rfl | rfl <;> simp [OwnedResult.names]
    rcases OwnedResult.names_deferred hcopy hn with hn | hn
    · exact .inl hn
    · cases hn
  | filled o isSet counter element =>
    have hcopy : ∀ {m}, m ∈ namesAll (fillStmts target o.value o.held counter element isSet) →
        m ∈ o.names ∨ m ∈ [counter, element] := by
      intro m hm
      rcases names_fillStmts hm with rfl | rfl | rfl | rfl <;> simp [OwnedResult.names]
    rcases OwnedResult.names_deferred hcopy hn with hn | hn
    · refine .inl ?_
      rcases List.mem_cons.1 hn with rfl | hn
      · exact List.mem_cons_self
      · exact List.mem_cons_of_mem _ (List.mem_append_left _ hn)
    · rcases List.mem_pair.1 hn with rfl | rfl
      · exact .inl (List.mem_cons_of_mem _ (List.mem_append_right _ List.mem_cons_self))
      · exact .inr (.inl List.mem_cons_self)

theorem Delivered.target_name (h : Delivered target r source delivery d ns) {ct : CallTarget}
    (hct : d.target = some ct) : ct.name = d.result.native.name := by
  have hbound : ∀ {value}, source.bound r value = some ct → ct.name = value := by
    intro value hct
    cases source with
    | call =>
      cases hct
      rfl
    | _ => cases hct
  cases h with
  | direct value => exact hbound hct
  | kept value ptr shape => exact hbound hct
  | whole o =>
    cases hct
    rfl
  | filled o isSet counter element =>
    cases hct
    rfl

/-- A name of a result is an output, declared, or that of the argument it is in place of. -/
theorem Delivered.mem_outputs_or_declared (h : Delivered target r source delivery d ns)
    (hn : n ∈ Assembly.resultNames (d, ns)) :
    n ∈ d.result.outputs.map (·.name) ∨ n ∈ ns.declared.map (·.name) ∨
      ∃ a, source = .inPlace a ∧ n = a.argument.native.name := by
  have hnative : ∀ {delivery value}, n = (source.native r delivery value).name →
      n ∈ ((source.made value).map fun _ => source.native r delivery value).map (·.name) ∨
        ∃ a, source = .inPlace a ∧ n = a.argument.native.name := by
    intro delivery value hn
    cases source with
    | inPlace a => exact .inr ⟨a, rfl, hn⟩
    | _ => exact .inl (List.mem_singleton.2 hn)
  have howned : ∀ o : OwnedResult, n ∈ o.companions → n ∈ o.ptr :: o.shape ∨ n = o.held := by
    intro o hn
    simp only [OwnedResult.companions, List.mem_cons, List.mem_append, List.not_mem_nil, or_false] at hn ⊢
    tauto
  cases h with
  | direct value => exact .inr (hnative (List.mem_singleton.1 hn))
  | kept value ptr shape =>
    rcases List.mem_cons.1 hn with hn | hn
    · exact .inr (hnative hn)
    · refine .inl ?_
      rwa [Result.names_outputs rfl]
  | whole o =>
    rcases List.mem_cons.1 hn with rfl | hn
    · exact .inr (.inl List.mem_cons_self)
    rcases howned o hn with hn | rfl
    · refine .inl ?_
      rwa [Result.names_outputs rfl]
    · exact .inr (.inl (List.mem_cons_of_mem _ List.mem_cons_self))
  | filled o isSet counter element =>
    rcases List.mem_cons.1 hn with rfl | hn
    · exact .inr (.inl List.mem_cons_self)
    rcases List.mem_append.1 hn with hn | hn
    · rcases howned o hn with hn | rfl
      · refine .inl ?_
        rwa [Result.names_outputs rfl]
      · exact .inr (.inl (List.mem_cons_of_mem _ List.mem_cons_self))
    · rw [List.mem_singleton.1 hn]
      exact .inr (.inl (List.mem_cons_of_mem _ (List.mem_cons_of_mem _ List.mem_cons_self)))

end Results

/-! ### Bodies of wrappers -/

namespace Wrapper.Function

variable {w : Wrapper.Function} {n : String}

theorem mem_innerNames_of_param {a : Argument} (ha : a ∈ w.arguments) (hn : n ∈ a.paramNames) : n ∈ w.innerNames := by
  obtain ⟨p, hp, rfl⟩ := List.mem_map.1 hn
  have hmem : p ∈ w.signature.inputs := by
    rw [signature_inputs]
    exact List.mem_flatMap.2 ⟨a, ha, hp⟩
  exact List.mem_append_right _ (List.mem_append_left _ (List.mem_map_of_mem (List.mem_of_mem_filter hmem)))

theorem mem_innerNames_of_output {r : Result} (hr : r ∈ w.results) (hn : n ∈ r.outputs.map (·.name)) :
    n ∈ w.innerNames := by
  refine List.mem_append_right _ ?_
  unfold signature
  split
  · rename_i hnone
    rw [hnone] at hr
    cases hr
  · rename_i r' hone
    rw [hone] at hr
    rw [List.mem_singleton.1 hr] at hn
    rcases List.mem_cons.1 hn with rfl | hn
    · exact List.mem_append_right _ List.mem_cons_self
    · rw [List.map_append]
      exact List.mem_append_left _ (List.mem_append_right _ hn)
  · obtain ⟨p, hp, rfl⟩ := List.mem_map.1 hn
    refine List.mem_append_left _ (List.mem_map_of_mem ?_)
    exact List.mem_append_right _ (List.mem_flatMap.2 ⟨r, hr, hp⟩)

end Wrapper.Function

namespace Assembly

variable {target : Target} {t t' : ScopeTree} {w : Wrapper.Function} {arguments : List MarshalledArgument}
  {made : List (MarshalledResult × ResultNames)} {n : String}

theorem mem_innerNames_of_argument (h : Assembly target t t' w arguments made) {a : MarshalledArgument}
    (ha : a ∈ arguments) (hn : n ∈ a.names) : n ∈ w.innerNames := by
  obtain ⟨d, p, hm⟩ := h.marshalled a ha
  rcases hm.mem_params_or_declares hn with hn | hn
  · refine Function.mem_innerNames_of_param ?_ hn
    rw [h.arguments_eq]
    exact List.mem_map_of_mem ha
  · obtain ⟨l, hl, rfl⟩ := List.mem_map.1 hn
    obtain ⟨declared, inner, hlocals, hperm⟩ := h.locals
    refine List.mem_append_left _ (List.mem_map_of_mem ?_)
    rw [hlocals]
    exact List.mem_append_left _ (hperm.mem_iff.2 (List.mem_append_left _ (List.mem_flatMap.2 ⟨a, ha, hl⟩)))

theorem mem_innerNames_of_result (h : Assembly target t t' w arguments made) {m : MarshalledResult × ResultNames}
    (hm : m ∈ made) (hn : n ∈ resultNames m) : n ∈ w.innerNames := by
  obtain ⟨r, source, p, hd, hplace⟩ := h.delivered m hm
  rcases hd.mem_outputs_or_declared hn with hn | hn | ⟨a, ha, rfl⟩
  · refine Function.mem_innerNames_of_output ?_ hn
    rw [h.results_eq]
    exact List.mem_map_of_mem hm
  · obtain ⟨l, hl, rfl⟩ := List.mem_map.1 hn
    obtain ⟨declared, inner, hlocals, hperm⟩ := h.locals
    refine List.mem_append_left _ (List.mem_map_of_mem ?_)
    rw [hlocals]
    exact List.mem_append_left _ (hperm.mem_iff.2 (List.mem_append_right _ (List.mem_flatMap.2 ⟨m, hm, hl⟩)))
  · exact h.mem_innerNames_of_argument (hplace a ha) List.mem_cons_self

theorem names_deferred (h : Assembly target t t' w arguments made) {m : MarshalledResult × ResultNames}
    (hm : m ∈ made) (hn : n ∈ namesAll m.1.deferred) : n ∈ w.innerNames := by
  obtain ⟨r, source, p, hd, hplace⟩ := h.delivered m hm
  rcases hd.names_deferred hn with hn | hn | hn
  · exact h.mem_innerNames_of_result hm hn
  · exact List.mem_append_left _ (h.inner_locals m hm n hn)
  · cases source with
    | inPlace a =>
      have ha := hplace a rfl
      refine Function.mem_innerNames_of_param ?_ (a.shapeParams_subset hn)
      rw [h.arguments_eq]
      exact List.mem_map_of_mem ha
    | _ => cases hn

theorem names_rebuild (h : Assembly target t t' w arguments made) {a : MarshalledArgument} (ha : a ∈ arguments)
    (hn : n ∈ namesAll a.rebuild.toList) : n ∈ w.innerNames := by
  obtain ⟨d, p, hm⟩ := h.marshalled a ha
  obtain ⟨s, hs, hn⟩ := mem_namesAll.1 hn
  exact h.mem_innerNames_of_argument ha (hm.rebuild_names (Option.mem_toList.1 hs) hn)

theorem names_callValue (h : Assembly target t t' w arguments made) {a : MarshalledArgument} (ha : a ∈ arguments)
    (hn : n ∈ a.argument.callValue.reads) : n ∈ w.innerNames := by
  obtain ⟨d, p, hm⟩ := h.marshalled a ha
  exact h.mem_innerNames_of_argument ha (hm.callValue_names hn)

end Assembly

section Wrappers

variable {target : Target} {t t' : ScopeTree} {w : Wrapper.Function} {n : String}

theorem Job.run_closed {job : Job} (h : job.run target t = (.ok w, t')) (hn : n ∈ namesAll w.body) :
    n ∈ w.innerNames := by
  obtain ⟨arguments, made, hw⟩ := Job.run_lowering h
  have ha := hw.assembly
  rw [hw.body] at hn
  rcases mem_namesAll_append.1 hn with hn | hn
  · rcases mem_namesAll_append.1 hn with hn | hn
    · have hall : ∀ x ∈ [] ++ arguments, ∃ a p, Marshalled target a p x := ha.marshalled
      rcases CallSite.names_tree hall hn with ⟨a, hmem, hn⟩ | hn
      · exact ha.mem_innerNames_of_argument hmem hn
      · -- the call binds the native locals of the results that it gives
        obtain ⟨ct, hct, rfl⟩ := List.mem_map.1 hn
        obtain ⟨m, hm, hct⟩ := List.mem_filterMap.1 hct
        obtain ⟨r, source, p, hd, -⟩ := ha.delivered m hm
        rw [hd.target_name hct]
        exact ha.mem_innerNames_of_result hm List.mem_cons_self
    · obtain ⟨m, hm, hn⟩ := exists_of_mem_namesAll_flatMap hn
      exact ha.names_deferred hm hn
  · unfold release at hn
    split at hn
    · split at hn
      · rename_i a hfind
        rw [List.mem_singleton.1 hn]
        exact ha.mem_innerNames_of_argument (List.mem_of_find?_eq_some hfind) List.mem_cons_self
      · cases hn
    · cases hn

theorem wrapGetter_closed {c : Semantic.Class} {a : Semantic.Attribute} {delivery : Delivery}
    (h : wrapGetter target c a delivery t = (w, t')) (hn : n ∈ namesAll w.body) : n ∈ w.innerNames := by
  obtain ⟨receiver, value, ha, -, -, hbody⟩ := wrapGetter_assembly h
  have hreceiver : receiver ∈ [receiver] := List.mem_cons_self
  have hvalue : value ∈ [value] := List.mem_cons_self
  rw [hbody] at hn
  rcases mem_namesAll_append.1 hn with hn | hn
  · exact ha.names_rebuild hreceiver hn
  rcases List.mem_append.1 hn with hn | hn
  · have hread : n = value.1.result.native.name ∨ n ∈ receiver.argument.callValue.reads := by
      unfold readAttribute at hn
      split at hn <;> simpa [Stmt.names, Expr.reads] using hn
    rcases hread with rfl | hn
    · exact ha.mem_innerNames_of_result hvalue List.mem_cons_self
    · exact ha.names_callValue hreceiver hn
  · exact ha.names_deferred hvalue hn

theorem wrapSetter_closed {c : Semantic.Class} {a : Semantic.Attribute} {passing : Passing}
    (h : wrapSetter target c a passing t = (w, t')) (hn : n ∈ namesAll w.body) : n ∈ w.innerNames := by
  obtain ⟨receiver, value, ha, -, -, hbody⟩ := wrapSetter_assembly h
  have hreceiver : receiver ∈ [receiver, value] := List.mem_cons_self
  have hvalue : value ∈ [receiver, value] := List.mem_cons_of_mem _ List.mem_cons_self
  rw [hbody] at hn
  rcases mem_namesAll_append.1 hn with hn | hn
  · rcases mem_namesAll_append.1 hn with hn | hn
    · exact ha.names_rebuild hreceiver hn
    · exact ha.names_rebuild hvalue hn
  · have hwrite : n ∈ receiver.argument.callValue.reads ∨ n ∈ value.argument.callValue.reads := by
      unfold writeAttribute at hn
      split at hn <;> simpa [namesAll, Stmt.names, Expr.reads] using hn
    exact hwrite.elim (ha.names_callValue hreceiver) (ha.names_callValue hvalue)

theorem wrapAllocator_closed {c : Semantic.Class} (h : wrapAllocator c t = (w, t')) (hn : n ∈ namesAll w.body) :
    n ∈ w.innerNames := by
  obtain ⟨⟨name, scope⟩, t₁, h₁, h⟩ := Alloc.bind_eq h
  obtain ⟨object, t₂, h₂, h⟩ := Alloc.bind_eq h
  obtain ⟨_, t₃, h₃, h⟩ := Alloc.bind_eq h
  obtain ⟨ptr, t₄, h₄, h⟩ := Alloc.bind_eq h
  obtain ⟨rfl, rfl⟩ := Prod.mk.inj h
  have hid := (Alloc.openFunction_opened h₁).1
  have g₂ := Alloc.freshName_grown hid h₂
  have g₃ := Alloc.declare_grown (l := .aliased object c.type) (g₂.lt_size hid)
    (g₂.mem_of_fresh (List.mem_singleton_self _)) h₃
  have g₄ := Alloc.freshName_grown (g₃.lt_size (g₂.lt_size hid)) h₄
  have hn : n = object ∨ n = ptr := by simpa [namesAll, Stmt.names, exprReads] using hn
  rcases hn with rfl | rfl
  · obtain ⟨inner, hin⟩ := t₄.locals_eq scope
    refine List.mem_append_left _ (List.mem_map.2 ⟨.aliased n c.type, ?_, rfl⟩)
    change _ ∈ t₄.locals scope
    rw [hin, g₄.locals, g₃.locals]
    simp
  · exact Function.mem_innerNames_of_output List.mem_cons_self List.mem_cons_self

theorem wrapAccessor_closed {v : Semantic.Variable} (h : wrapAccessor target v t = (w, t'))
    (hn : n ∈ namesAll w.body) : n ∈ w.innerNames ∨ w.origin = .variableAccessor n := by
  obtain ⟨⟨name, scope⟩, t₁, h₁, h⟩ := Alloc.bind_eq h
  obtain ⟨ptr, t₂, h₂, h⟩ := Alloc.bind_eq h
  obtain ⟨shape, t₃, h₃, h⟩ := Alloc.bind_eq h
  obtain ⟨rfl, rfl⟩ := Prod.mk.inj h
  have hn : n = v.name ∨ n ∈ ptr :: shape := by
    rcases mem_namesAll_append.1 hn with hn | hn
    · exact (names_assignShapes hn).imp id (List.mem_cons_of_mem _)
    · simp only [namesAll, Stmt.names, List.append_nil] at hn
      rcases List.mem_pair.1 hn with rfl | rfl
      · exact .inl rfl
      · exact .inr List.mem_cons_self
  rcases hn with rfl | hn
  · exact .inr rfl
  · refine .inl (Function.mem_innerNames_of_output List.mem_cons_self ?_)
    rwa [Result.names_outputs rfl]

theorem Made.closed {m : Semantic.Module} (h : Made target m t t' w) (hn : n ∈ namesAll w.body) :
    n ∈ w.innerNames ∨ w.origin = .variableAccessor n := by
  cases h with
  | function f hf h => exact .inl (Job.run_closed h hn)
  | allocator c hc h => exact .inl (wrapAllocator_closed h hn)
  | accessor v h => exact wrapAccessor_closed h hn
  | member c hc h =>
    cases h with
    | method f hf h => exact .inl (Job.run_closed h hn)
    | getter a ha delivery hd h => exact .inl (wrapGetter_closed h hn)
    | setter a ha passing hp h => exact .inl (wrapSetter_closed h hn)

end Wrappers

/-- The names in a body are those of its locals, its parameters and what it returns; an accessor's variable is the
one exception. -/
theorem wrapModule_closed (target : Target) (m : Semantic.Module) (hname : isIdentifier m.name = true) :
    ∃ r, wrapModule target m = .ok r ∧ ∀ w ∈ r.value.module.allFunctions, ∀ n ∈ namesAll w.body,
      n ∈ w.innerNames ∨ w.origin = .variableAccessor n := by
  obtain ⟨r, hr⟩ := wrapModule_ok target hname
  refine ⟨r, hr, fun w hw n hn => ?_⟩
  obtain ⟨t, t', -, -, hmade⟩ := wrapModule_made hr hw
  exact hmade.closed hn

/-- A loop over a set, an optional array, an accessor and a class. -/
def tallyModule : Semantic.Module where
  name := "tally"
  globals := [{ name := "cells", type := .array .float64 2 .rowMajor }]
  functions := [{
    name := "count"
    arguments := [{ name := "weights", type := .array .float64 2 .rowMajor, optional := true },
      { name := "x", type := .scalar .int32 }]
    results := [{ name := "hits", type := .set (.scalar .int32) },
      { name := "x", type := .scalar .int32, isArgument := true }] }]
  classes := [{ name := "Grid", attributes := [{ name := "mask", type := .array .bool 1 .rowMajor }] }]

theorem wrapModule_closed_tally : isIdentifier tallyModule.name = true ∧ ∃ r, wrapModule .fortran tallyModule = .ok r ∧
    (∀ w ∈ r.value.module.allFunctions, ∀ n ∈ namesAll w.body, n ∈ w.innerNames ∨ w.origin = .variableAccessor n) ∧
    r.value.module.allFunctions.map (fun w => (namesAll w.body).length) = [28, 6, 3, 8, 9] := by
  have hname : isIdentifier tallyModule.name = true := by decide +kernel
  obtain ⟨r, hr, hclosed⟩ := wrapModule_closed .fortran tallyModule hname
  have hrun : (wrapModule .fortran tallyModule).toOption.map
      (fun r => r.value.module.allFunctions.map fun w => (namesAll w.body).length) =
      some [28, 6, 3, 8, 9] := by decide +kernel
  rw [hr] at hrun
  exact ⟨hname, r, hr, hclosed, Option.some.inj hrun⟩

end AbiBridge
