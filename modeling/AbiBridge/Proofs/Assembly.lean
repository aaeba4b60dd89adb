import Mathlib
import AbiBridge.Proofs.ModuleNames
import AbiBridge.Proofs.Presence

/-!
# What a wrapper is put together from

A wrapper of a function, a getter and a setter are made in three ways, from the same parts: marshalled arguments and
delivered results in a scope of their own. `Assembly` says what the names of these parts stand for. A declared name has
one name in the scope, which the argument and the result of that name share, and all other names were made for one
part each. So names of different parts differ unless both are that of one declared name (`Assembly.nodup_arguments`,
`Assembly.nodup_results`, `Assembly.notMem_result`).
-/

namespace AbiBridge

open Wrapper ScopeTree

namespace ScopeTree

theorem Roster.perm {t : ScopeTree} {id : ScopeId} {xs ys : List String} (h : t.Roster id xs) (hperm : xs.Perm ys) :
    t.Roster id ys where
  sound := h.sound
  injective := h.injective
  owned x hx := h.owned x (hperm.mem_iff.2 hx)
  nodup := hperm.nodup_iff.1 h.nodup
  apart n x hn hx := h.apart n x hn (hperm.mem_iff.2 hx)

theorem Tidy.sameName_iff_eq {used : List String} {t : ScopeTree} {id : ScopeId} {x y : String} (ht : t.Tidy used)
    (hid : id ≠ root) (hx : x ∈ t.symbolsOf id) (hy : y ∈ t.symbolsOf id) :
    t.target.sameName x y = true ↔ x = y := by
  refine ⟨fun hsame => ?_, fun h => h ▸ (t.target.sameName_iff x x).2 rfl⟩
  rcases ht.apart .refl hx hy hsame with ⟨-, heq⟩ | ⟨⟨hroot, -⟩, -⟩
  · exact heq
  · exact absurd hroot hid

/-- Names used for declared ones denote one name exactly if they are used for the same. -/
theorem Roster.sameName_iff {used others : List String} {t : ScopeTree} {id : ScopeId} {n n' x y : String}
    (h : t.Roster id others) (ht : t.Tidy used) (hid : id ≠ root) (hn : t.nameFor? id n = some x)
    (hn' : t.nameFor? id n' = some y) : t.target.sameName x y = true ↔ n = n' := by
  rw [ht.sameName_iff_eq hid (h.sound.owned _ _ hn) (h.sound.owned _ _ hn')]
  constructor
  · rintro rfl
    exact h.injective _ _ _ hn hn'
  · rintro rfl
    exact Option.some.inj (hn.symm.trans hn')

end ScopeTree

/-- The wrapper `w`, made between two states of the tree, consists of these arguments and results. -/
structure Assembly (target : Target) (t t' : ScopeTree) (w : Wrapper.Function) (arguments : List MarshalledArgument)
    (made : List (MarshalledResult × ResultNames)) : Prop where
  opened : ∃ hint t₁, Alloc.openFunction hint t = ((w.name, w.scope), t₁)
  arguments_eq : w.arguments = arguments.map (·.argument)
  results_eq : w.results = made.map (·.1.result)
  own_locals : (t'.localsOf w.scope).Perm (arguments.flatMap (·.declares) ++ made.flatMap (·.2.declared))
  locals_eq : w.locals = t'.locals w.scope
  inner_locals : ∀ m ∈ made, ∀ n ∈ m.2.inner, n ∈ w.locals.map (·.name)
  marshalled : ∀ a ∈ arguments, ∃ d p, Marshalled target d p a
  delivered : ∀ m ∈ made, ∃ r source p, Delivered target r source p m.1 m.2 ∧
    ∀ a, source = .inPlace a → a ∈ arguments
  roster : t'.Roster w.scope (arguments.flatMap (·.companions) ++ made.flatMap (·.2.companions))
  argument_native : ∀ a ∈ arguments, t'.nameFor? w.scope a.name = some a.argument.native.name
  result_native : ∀ m ∈ made, t'.nameFor? w.scope m.1.result.declared.name = some m.1.result.native.name

/-- A module of a proper name is wrapped, whatever it holds. -/
theorem wrapModule_ok (target : Target) {m : Semantic.Module} (hname : isIdentifier m.name = true) :
    ∃ r, wrapModule target m = .ok r :=
  ⟨_, if_pos hname⟩

/-- A wrapped module holds what wrapping its parts in turn gives. -/
theorem wrapModule_parts {target : Target} {m : Semantic.Module} {r : Reported WrappedModule}
    (h : wrapModule target m = .ok r) : ∃ parts, wrapParts target m (.new target m.name m.usedSymbols) =
      (parts, r.value.scopes) ∧ parts.value = r.value.module := by
  unfold wrapModule at h
  split at h
  · cases h
    exact ⟨_, rfl, rfl⟩
  · cases h

theorem wrapModule_made {target : Target} {m : Semantic.Module} {r : Reported WrappedModule}
    (h : wrapModule target m = .ok r) {w : Wrapper.Function} (hw : w ∈ r.value.module.allFunctions) :
    ∃ t t', t.Tidy m.usedSymbols ∧ t.target = target ∧ Made target m t t' w := by
  obtain ⟨parts, hparts, hmodule⟩ := wrapModule_parts h
  obtain ⟨t₁, ws, hws, hperm, -, -⟩ := wrapParts_series hparts
  have hnew : (ScopeTree.new target m.name m.usedSymbols).Tidy m.usedSymbols ∧
      (ScopeTree.new target m.name m.usedSymbols).target = target := ⟨Tidy.new target m.name m.usedSymbols, rfl⟩
  obtain ⟨t, t', ⟨ht, htarget⟩, hmade⟩ := hws.exists_made (P := fun t => t.Tidy m.usedSymbols ∧ t.target = target)
    (fun ht hmade => ⟨(hmade.built ht.1).extend.tidy ht.1, (hmade.built ht.1).extend.target.trans ht.2⟩) hnew
    (hperm.mem_iff.2 (hmodule ▸ hw))
  exact ⟨t, t', ht, htarget, hmade⟩

theorem wrapModule_found {target : Target} {m : Semantic.Module} {r : Reported WrappedModule}
    (h : wrapModule target m = .ok r) {w : Wrapper.Function} (hw : w ∈ r.value.module.allFunctions) :
    r.value.module.function? w.name = some w := by
  obtain ⟨parts, hparts, hmodule⟩ := wrapModule_parts h
  obtain ⟨t₁, b, -⟩ := wrapParts_built (Tidy.new target m.name m.usedSymbols) hparts
  rw [hmodule] at b
  exact find?_of_nodup_names b.nodup hw

theorem wrapModule_found_member {target : Target} {m : Semantic.Module} {r : Reported WrappedModule}
    (h : wrapModule target m = .ok r) {c : Wrapper.Class} (hc : c ∈ r.value.module.classes) {w : Wrapper.Function}
    (hw : w ∈ c.members) : r.value.module.function? w.name = some w := by
  refine wrapModule_found h (List.mem_append_right _ (List.mem_flatMap.2 ⟨c, hc, ?_⟩))
  exact List.mem_cons_of_mem _ hw

theorem wrapModule_member {target : Target} (hclasses : target.supportsClasses = true) {m : Semantic.Module}
    {r : Reported WrappedModule} (h : wrapModule target m = .ok r) {c : Semantic.Class} {wc : Wrapper.Class}
    (hc : (c, wc) ∈ m.classes.zip r.value.module.classes) {w : Wrapper.Function} (hw : w ∈ wc.members) :
    (∃ t t', MemberMade target c t t' w) ∧ r.value.module.function? w.name = some w := by
  obtain ⟨parts, hparts, hmodule⟩ := wrapModule_parts h
  obtain ⟨t₁, ws, -, -, -, hmembers⟩ := wrapParts_series hparts
  rw [hmodule] at hmembers
  obtain ⟨t, t', ms, hms, hperm⟩ := (List.forall₂_iff_zip.1 (hmembers hclasses)).2 hc
  obtain ⟨t₂, t₃, -, hmade⟩ := hms.exists_made (P := fun _ => True) (fun _ _ => trivial) trivial (hperm.mem_iff.2 hw)
  exact ⟨⟨t₂, t₃, hmade⟩, wrapModule_found_member h (List.of_mem_zip hc).2 hw⟩

section Making

variable {target : Target} {t t' : ScopeTree} {w : Wrapper.Function}

theorem Lowering.assembly {job : Job} {arguments : List MarshalledArgument}
    {made : List (MarshalledResult × ResultNames)} (h : Lowering target job t t' w arguments made) :
    Assembly target t t' w arguments made where
  opened := by
    obtain ⟨t₁, hopen, -⟩ := h.opened
    exact ⟨_, t₁, hopen⟩
  arguments_eq := h.arguments_eq
  results_eq := h.results_eq
  own_locals := .of_eq h.own_locals
  locals_eq := h.locals_eq
  inner_locals := h.inner_locals
  marshalled a ha := by
    obtain ⟨d, -, p, -, hm⟩ := exists_of_forall₂_right h.marshalled ha
    exact ⟨d, p, hm⟩
  delivered m hm := by
    obtain ⟨r, -, p, -, hd⟩ := exists_of_forall₂_right h.delivered hm
    exact ⟨r, _, p, hd, fun a ha => (Job.sourceOf_inPlace ha).1⟩
  roster := h.roster
  argument_native := h.argument_native
  result_native := h.result_native

def receiverArgument (c : Semantic.Class) : Semantic.Argument := { name := "self", type := c.type, bound := true }

def attributeArgument (a : Semantic.Attribute) : Semantic.Argument := { name := a.name, type := a.type }

def readAttribute (delivery : Delivery) (value : String) (object : Expr) (name : String) : Stmt :=
  if delivery = .direct then .assign (.var value) (.field object name)
  else .aliasAssign (.var value) (.field object name)

def writeAttribute (isAlias : Bool) (object : Expr) (name : String) (given : Expr) : Stmt :=
  if isAlias then .aliasAssign (.field object name) given else .assign (.field object name) given

/-- A getter rebuilds the receiver, reads the attribute and delivers it. -/
theorem wrapGetter_assembly {c : Semantic.Class} {a : Semantic.Attribute} {delivery : Delivery}
    (h : wrapGetter target c a delivery t = (w, t')) :
    ∃ receiver value, Assembly target t t' w [receiver] [value] ∧
      Marshalled target (receiverArgument c) .handle receiver ∧
      Delivered target (attributeValue a) .field delivery value.1 value.2 ∧
      w.body = receiver.rebuild.toList ++
        readAttribute delivery value.1.result.native.name receiver.argument.callValue a.name :: value.1.deferred := by
  obtain ⟨⟨name, scope⟩, t₁, h₁, h⟩ := Alloc.bind_eq h
  obtain ⟨value, t₂, h₂, h⟩ := Alloc.bind_eq h
  obtain ⟨receiver, t₃, h₃, h⟩ := Alloc.bind_eq h
  obtain ⟨rfl, rfl⟩ := Prod.mk.inj h
  obtain ⟨hid, -, hloc, -⟩ := Alloc.openFunction_opened h₁
  have hsound := Alloc.openFunction_sound h₁
  obtain ⟨ns, new, hd, hname, g₂, hnew, hinner⟩ := marshalResult_grown hid hsound (fun _ hs => by cases hs) h₂
  obtain ⟨hm, new', hname', g₃, hnew'⟩ := marshalArgument_grown (g₂.lt_size hid) (g₂.sound hsound) h₃
  have hid₃ := g₃.lt_size (g₂.lt_size hid)
  have hroster := ((Alloc.openFunction_roster h₁).grown g₂ hname fun hn => (hnew hn).1).grown g₃ hname' hnew'
  refine ⟨receiver, (value, ns), ⟨⟨_, t₁, h₁⟩, rfl, rfl, ?_, rfl, ?_, ?_, ?_, ?_, ?_, ?_⟩, hm, hd, rfl⟩
  · rw [g₃.locals, g₂.locals, hloc, List.nil_append]
    simpa using List.perm_append_comm
  · simp only [List.mem_singleton, forall_eq]
    exact fun n hn => (g₃.innerLocal (hinner n hn).2.2).mem_locals hid₃
  · simpa using ⟨_, _, hm⟩
  · simp only [List.mem_singleton, forall_eq]
    exact ⟨_, _, _, hd, fun _ hs => by cases hs⟩
  · refine hroster.perm ?_
    simpa using List.perm_append_comm
  · simp only [List.mem_singleton, forall_eq]
    have hdeclared : receiver.name = "self" := congrArg Semantic.Argument.name hm.declared_eq
    rwa [hdeclared]
  · simp only [List.mem_singleton, forall_eq]
    rw [hd.declared_eq]
    exact g₃.kept hname

/-- A setter rebuilds the receiver and the value and writes the attribute. -/
theorem wrapSetter_assembly {c : Semantic.Class} {a : Semantic.Attribute} {passing : Passing}
    (h : wrapSetter target c a passing t = (w, t')) :
    ∃ receiver value, Assembly target t t' w [receiver, value] [] ∧
      Marshalled target (receiverArgument c) .handle receiver ∧
      Marshalled target (attributeArgument a) passing value ∧
      w.body = receiver.rebuild.toList ++ value.rebuild.toList ++
        [writeAttribute a.isAlias receiver.argument.callValue a.name value.argument.callValue] := by
  obtain ⟨⟨name, scope⟩, t₁, h₁, h⟩ := Alloc.bind_eq h
  obtain ⟨receiver, t₂, h₂, h⟩ := Alloc.bind_eq h
  obtain ⟨value, t₃, h₃, h⟩ := Alloc.bind_eq h
  obtain ⟨rfl, rfl⟩ := Prod.mk.inj h
  obtain ⟨hid, -, hloc, -⟩ := Alloc.openFunction_opened h₁
  have hsound := Alloc.openFunction_sound h₁
  obtain ⟨hm, new, hname, g₂, hnew⟩ := marshalArgument_grown hid hsound h₂
  obtain ⟨hm', new', hname', g₃, hnew'⟩ := marshalArgument_grown (g₂.lt_size hid) (g₂.sound hsound) h₃
  have hroster := ((Alloc.openFunction_roster h₁).grown g₂ hname hnew).grown g₃ hname' hnew'
  have hreceiver : receiver.name = "self" := congrArg Semantic.Argument.name hm.declared_eq
  have hvalue : value.name = a.name := congrArg Semantic.Argument.name hm'.declared_eq
  refine ⟨receiver, value, ⟨⟨_, t₁, h₁⟩, rfl, rfl, ?_, rfl, by simp, ?_, by simp, ?_, ?_, by simp⟩, hm, hm', rfl⟩
  · rw [g₃.locals, g₂.locals, hloc, List.nil_append]
    simp
  · simpa using ⟨⟨_, _, hm⟩, _, _, hm'⟩
  · simpa using hroster
  · simp only [List.mem_cons, List.not_mem_nil, or_false, forall_eq_or_imp, forall_eq]
    exact ⟨hreceiver ▸ g₃.kept hname, hvalue ▸ hname'⟩

end Making

theorem Delivered.value_sublist {target : Target} {r : Semantic.Result} {source : ResultSource} {delivery : Delivery}
    {d : MarshalledResult} {ns : ResultNames} (h : Delivered target r source delivery d ns) :
    ns.value.Sublist [d.result.native.name] := by
  have hmade : ∀ delivery value, (source.made value).Sublist [(source.native r delivery value).name] := by
    intro delivery value
    cases source with
    | inPlace a => exact List.nil_sublist _
    | _ => exact .refl _
  cases h with
  | direct value => exact hmade _ _
  | kept value ptr shape => exact hmade _ _
  | whole n => exact .refl _
  | filled n isSet counter element => exact .refl _

namespace Assembly

variable {target : Target} {t t' : ScopeTree} {w : Wrapper.Function} {arguments : List MarshalledArgument}
  {made : List (MarshalledResult × ResultNames)}

theorem locals (h : Assembly target t t' w arguments made) : ∃ declared inner, w.locals = declared ++ inner ∧
    declared.Perm (arguments.flatMap (·.declares) ++ made.flatMap (·.2.declared)) := by
  obtain ⟨inner, hinner⟩ := t'.locals_eq w.scope
  exact ⟨_, inner, h.locals_eq.trans hinner, h.own_locals⟩

/-! ### Names of different parts -/

theorem inputs_eq (h : Assembly target t t' w arguments made) :
    w.signature.inputs.map (·.name) = arguments.flatMap (·.argument.paramNames) := by
  rw [w.signature_inputs, h.arguments_eq, List.flatMap_map, List.map_flatMap]
  rfl

/-- The names of a result in the scope of the function. -/
def resultNames (m : MarshalledResult × ResultNames) : List String := m.1.result.native.name :: m.2.companions

theorem companion_ne_native (h : Assembly target t t' w arguments made) {n x y : String}
    (hn : t'.nameFor? w.scope n = some x)
    (hy : y ∈ arguments.flatMap (·.companions) ++ made.flatMap (·.2.companions)) : x ≠ y := by
  rintro rfl
  exact h.roster.apart n x hn hy

theorem nodup_of_native {α : Type} {xs : List α} {name native : α → String} {companions : α → List String}
    {others : List String} {id : ScopeId} (hr : t'.Roster id others) (hsub : (xs.flatMap companions).Sublist others)
    (hnative : ∀ x ∈ xs, t'.nameFor? id (name x) = some (native x)) (hnd : (xs.map name).Nodup) :
    (xs.flatMap fun x => native x :: companions x).Nodup := by
  have hperm : (xs.flatMap fun x => native x :: companions x).Perm (xs.map native ++ xs.flatMap companions) := by
    rw [List.map_eq_flatMap]
    exact (List.flatMap_append_perm xs (fun x => [native x]) companions).symm
  refine hperm.nodup_iff.2 (List.Nodup.append ?_ (hsub.nodup hr.nodup) fun n hn hn' => ?_)
  · rw [List.Nodup, List.pairwise_map] at hnd ⊢
    refine hnd.imp_of_mem fun {x y} hx hy hne heq => hne (hr.injective _ _ _ (hnative x hx) ?_)
    rw [heq]
    exact hnative y hy
  · obtain ⟨x, hx, rfl⟩ := List.mem_map.1 hn
    exact hr.apart _ _ (hnative x hx) (hsub.subset hn')

theorem nodup_arguments (h : Assembly target t t' w arguments made) (hnd : (arguments.map (·.name)).Nodup) :
    (arguments.flatMap (·.names)).Nodup :=
  nodup_of_native h.roster (List.sublist_append_left _ _) h.argument_native hnd

theorem nodup_results (h : Assembly target t t' w arguments made)
    (hnd : (made.map (·.1.result.declared.name)).Nodup) : (made.flatMap resultNames).Nodup :=
  nodup_of_native h.roster (List.sublist_append_right _ _) h.result_native hnd

theorem eq_native_of_mem (h : Assembly target t t' w arguments made) {a : MarshalledArgument} (ha : a ∈ arguments)
    {m : MarshalledResult × ResultNames} (hm : m ∈ made) {n : String} (hn : n ∈ a.names) (hn' : n ∈ resultNames m) :
    n = a.argument.native.name ∧ n = m.1.result.native.name ∧ a.name = m.1.result.declared.name := by
  have hnative := h.argument_native a ha
  have hnative' := h.result_native m hm
  have hcompanion : ∀ {x}, x ∈ a.companions → x ∈ arguments.flatMap (·.companions) := fun hx =>
    List.mem_flatMap.2 ⟨a, ha, hx⟩
  have hcompanion' : ∀ {x}, x ∈ m.2.companions → x ∈ made.flatMap (·.2.companions) := fun hx =>
    List.mem_flatMap.2 ⟨m, hm, hx⟩
  rcases List.mem_cons.1 hn with rfl | hn <;> rcases List.mem_cons.1 hn' with heq | hn'
  · exact ⟨rfl, heq, h.roster.injective _ _ _ hnative (heq ▸ hnative')⟩
  · exact absurd rfl (h.companion_ne_native hnative (List.mem_append_right _ (hcompanion' hn')))
  · exact absurd heq.symm (h.companion_ne_native hnative' (List.mem_append_left _ (hcompanion hn)))
  · exact absurd rfl ((List.nodup_append.1 h.roster.nodup).2.2 n (hcompanion hn) n (hcompanion' hn'))

/-- No two locals of the wrapper's scope have one name, if a result with the name of an argument is kept in it. -/
theorem nodup_own_locals (h : Assembly target t t' w arguments made) (hargs : (arguments.map (·.name)).Nodup)
    (hres : (made.map (·.1.result.declared.name)).Nodup)
    (hacross : ∀ a ∈ arguments, ∀ m ∈ made, a.name = m.1.result.declared.name → m.2.value = []) :
    ((t'.localsOf w.scope).map (·.name)).Nodup := by
  have houtputs : ((made.flatMap (·.2.declared)).map (·.name)).Sublist (made.flatMap (·.2.own)) := by
    rw [List.map_flatMap]
    refine .flatMap_right made fun m hm => ?_
    obtain ⟨r, source, delivery, hd, -⟩ := h.delivered m hm
    exact hd.declared_sublist
  have hown : ∀ m ∈ made, m.2.own.Sublist (resultNames m) := by
    intro m hm
    obtain ⟨r, source, delivery, hd, -⟩ := h.delivered m hm
    exact hd.value_sublist.append (.refl _)
  rw [(h.own_locals.map _).nodup_iff, List.map_append]
  refine ((MarshalledArgument.declares_sublist arguments).append houtputs).nodup ((h.nodup_arguments hargs).append
    ((List.Sublist.flatMap_right made hown).nodup (h.nodup_results hres)) fun n hn hn' => ?_)
  obtain ⟨a, ha, hna⟩ := List.mem_flatMap.1 hn
  obtain ⟨m, hm, hnm⟩ := List.mem_flatMap.1 hn'
  obtain ⟨hnative, -, hname⟩ := h.eq_native_of_mem ha hm hna ((hown m hm).subset hnm)
  -- the name that both share is not made for the result
  rw [ResultNames.own, hacross a ha m hm hname, List.nil_append] at hnm
  refine h.companion_ne_native (h.argument_native a ha) ?_ hnative.symm
  exact List.mem_append_right _ (List.mem_flatMap.2 ⟨m, hm, hnm⟩)

theorem mem_symbolsOf (h : Assembly target t t' w arguments made) {n : String}
    (hn : n ∈ arguments.flatMap (·.names) ++ made.flatMap resultNames) : n ∈ t'.symbolsOf w.scope := by
  rcases List.mem_append.1 hn with hn | hn <;> obtain ⟨x, hx, hn⟩ := List.mem_flatMap.1 hn <;>
    rcases List.mem_cons.1 hn with rfl | hn
  · exact h.roster.sound.owned _ _ (h.argument_native x hx)
  · exact h.roster.owned n (List.mem_append_left _ (List.mem_flatMap.2 ⟨x, hx, hn⟩))
  · exact h.roster.sound.owned _ _ (h.result_native x hx)
  · exact h.roster.owned n (List.mem_append_right _ (List.mem_flatMap.2 ⟨x, hx, hn⟩))

theorem scope_ne_root (h : Assembly target t t' w arguments made) (hpos : 0 < t.size) : w.scope ≠ root := by
  obtain ⟨hint, t₁, hopen⟩ := h.opened
  exact Nat.ne_of_gt (Nat.lt_of_lt_of_le hpos (Alloc.openFunction_grown hpos hopen).2)

end Assembly

end AbiBridge
