import Mathlib
import AbiBridge.Proofs.ClassMembers
import AbiBridge.Proofs.PropertyRoundTrip
import AbiBridge.Proofs.ScopeMirror

/-!
# Locals found by name

The locals of a wrapper are listed with those of its loops and found by name, the first one first. In the scope of the
wrapper itself no name is used twice, so its own locals are found. Loops that stand side by side do not see each other:
every one of them calls its element by the name that is free in the scope around it, which is the same for all
(`ScopeTree.ElementNamed.eq`). So the elements are found as far as they have the type of the first one, and no further
(`wrapModule_local_lookup`).

Locals are shared where two parts of a wrapper have one declared name. In the accessors of an attribute these parts are
the receiver and the value, and they are kept apart unless the attribute is called `self` (`wrapModule_receiver_apart`).
-/

namespace AbiBridge

open Wrapper ScopeTree

namespace Wrapper

/-- The type that a loop over the result declares its element with. -/
def Result.elementType (r : Result) : ValueType := r.declared.type.element?.getD r.declared.type

namespace Function

variable {w : Function} {own : List Local} {element : String} {types : List ValueType}

/-- The name of the local leads to it, and so to the type that it was declared with. -/
def Finds (w : Function) (l : Local) : Prop :=
  w.local? l.name = some l ∧ ∀ f : Frame, f.function = w → f.declaredType? l.name = l.valueType?

theorem finds_iff {l : Local} : w.Finds l ↔ w.local? l.name = some l := by
  refine ⟨And.left, fun h => ⟨h, fun f hf => ?_⟩⟩
  rw [Frame.declaredType?, hf, h]
  rfl

theorem finds_own (h : w.locals = own ++ types.map (.owned element)) (hown : (own.map (·.name)).Nodup) {l : Local}
    (hl : l ∈ own) : w.Finds l := by
  rw [finds_iff, local?, h, List.find?_append, find?_of_nodup_names hown hl]
  rfl

theorem local?_element (h : w.locals = own ++ types.map (.owned element)) (hown : element ∉ own.map (·.name))
    {type : ValueType} (htype : types.head? = some type) : w.local? element = some (.owned element type) := by
  have hnone : own.find? (·.name == element) = none := by
    refine List.find?_eq_none.2 fun l hl heq => hown ?_
    exact List.mem_map.2 ⟨l, hl, by simpa using heq⟩
  obtain ⟨rest, rfl⟩ := List.head?_eq_some_iff.1 htype
  rw [local?, h, List.find?_append, hnone, List.map_cons, List.find?_cons_of_pos (by simp [Local.owned])]
  rfl

/-- Of locals that have one name, those are found that have the type of the first. -/
theorem finds_element_iff (h : w.locals = own ++ types.map (.owned element)) (hown : element ∉ own.map (·.name))
    {type : ValueType} (hmem : type ∈ types) : w.Finds (.owned element type) ↔ types.head? = some type := by
  rw [finds_iff]
  constructor
  · intro hfound
    cases htypes : types.head? with
    | none =>
      rw [List.head?_eq_none_iff.1 htypes] at hmem
      cases hmem
    | some first =>
      have hfirst := (local?_element h hown htypes).symm.trans hfound
      simpa [Local.owned] using hfirst
  · exact local?_element h hown

end Function

end Wrapper

/-! ### Elements of loops -/

namespace ScopeTree

variable {used : List String} {t t' : ScopeTree} {w : Wrapper.Function} {id c : Nat}

/-- The name that is free for an element where all symbols of the scope and of those around it are taken. -/
def elementName (t : ScopeTree) (id : ScopeId) : String :=
  t.target.freeName ((t.chain id).flatMap t.symbolsOf) "elem"

theorem elementName_notMem (hid : id < t.size) : t.elementName id ∉ t.symbolsOf id := by
  intro hmem
  obtain ⟨outer, hchain⟩ := chain_eq_cons hid
  refine t.target.freeName_notMem ((t.chain id).flatMap t.symbolsOf) "elem" (List.mem_flatMap.2 ⟨id, ?_, hmem⟩)
  rw [hchain]
  exact List.mem_cons_self

theorem Tidy.hasClash_outside (ht : t.Tidy used) (hp : t.parent? c = some id) {n : String} (hn : n ∈ t.symbolsOf c) :
    t.target.hasClash ((t.chain id).flatMap t.symbolsOf) n = false := by
  have hlt : id < c := ht.ordered.parent_lt hp
  have hne : c ≠ root := Nat.ne_of_gt (Nat.zero_lt_of_lt hlt)
  rw [Target.hasClash, Bool.or_eq_false_iff, List.any_eq_false]
  refine ⟨Bool.eq_false_iff.2 fun hreserved => hne (ht.legal hn hreserved).1, fun u hu hsame => ?_⟩
  obtain ⟨d, hd, hmem⟩ := List.mem_flatMap.1 hu
  have henc := encloses_of_mem_chainWithin hd
  rcases ht.apart (.step hp henc) hmem hn hsame with ⟨rfl, -⟩ | ⟨-, hroot, -⟩
  · exact Nat.not_lt.2 (henc.le ht.ordered) hlt
  · exact hne hroot

/-- In the end all loops of a scope have one name for their elements. -/
theorem ElementNamed.eq (ht : t.Tidy used) (hp : t.parent? c = some id) (h : t.ElementNamed id c) :
    (t.localsOf c).map (·.name) = [t.elementName id] := by
  obtain ⟨element, symbols, hlocals, rfl, hsymbols⟩ := h
  have hid : id < t.size := (ht.ordered.parent_lt hp).trans (lt_size_of_parent? hp)
  have hsub : symbols ⊆ (t.chain id).flatMap t.symbolsOf := by
    intro u hu
    obtain ⟨d, hd, hmem⟩ := hsymbols u hu
    exact List.mem_flatMap.2 ⟨d, (mem_chain ht.ordered hid).2 hd, hmem⟩
  have hmem : t.target.freeName symbols "elem" ∈ t.symbolsOf c := by
    obtain ⟨l, hl, heq⟩ := List.mem_map.1 (hlocals ▸ List.mem_singleton_self _)
    exact heq ▸ ht.locals hl
  rw [hlocals, elementName, t.target.freeName_eq_of_subset hsub (ht.hasClash_outside hp hmem)]

/-- The locals of a wrapper are its own, and the elements of its loops. -/
theorem Housed.locals_eq (h : Housed t t' w) (ht : t'.Tidy used) (hpos : 0 < t.size) :
    w.locals = t'.localsOf w.scope ++ (w.filledResults.map (·.elementType)).map (.owned (t'.elementName w.scope)) := by
  have hloops := List.forall₂_iff_zip.1 h.houses.loops.2
  have helements : List.Forall₂ (fun r c => t'.localsOf c = [.owned (t'.elementName w.scope) r.elementType])
      w.filledResults (t'.children w.scope) := by
    refine List.forall₂_iff_zip.2 ⟨hloops.1, fun {r c} hzip => ?_⟩
    have hc := (List.of_mem_zip hzip).2
    have hnamed := (h.elements c hc).eq ht (ht.ordered.mem_children.1 hc)
    obtain ⟨s, hs, -, -, -, element, hlocals⟩ := hloops.2 hzip
    rw [localsOf_eq hs, hlocals] at hnamed ⊢
    rw [← List.singleton_inj.1 hnamed]
    rfl
  have hsize : 2 ≤ t'.size := by
    obtain ⟨s, hs, -⟩ := h.houses
    have hlt := lt_size hs
    have hplace := h.place
    omega
  rw [h.locals, h.houses.locals_eq hsize, flatMap_eq_of_forall₂ helements, ← List.map_eq_flatMap, List.map_map]
  rfl

end ScopeTree

/-! ### Locals of one scope -/

/-- Parts of the wrapper have one name only where a result is an argument. -/
structure Wrapper.Function.WellNamed (w : Wrapper.Function) : Prop where
  arguments : (w.arguments.map (·.declared.name)).Nodup
  results : (w.results.map (·.declared.name)).Nodup
  shared : ∀ a ∈ w.arguments, ∀ r ∈ w.results, a.declared.name = r.declared.name → r.declared.isArgument = true

section Making

variable {target : Target} {t t' : ScopeTree} {w : Wrapper.Function}

theorem Delivered.value_inPlace {r : Semantic.Result} {a : MarshalledArgument} {delivery : Delivery}
    {d : MarshalledResult} {ns : ResultNames} (h : Delivered target r (.inPlace a) delivery d ns) : ns.value = [] := by
  cases h with
  | direct value => rfl
  | kept value ptr shape => rfl
  | whole n hcopies => cases hcopies
  | filled n isSet counter element hcopies => cases hcopies

theorem Assembly.nodup_of_wellNamed {arguments : List MarshalledArgument}
    {made : List (MarshalledResult × ResultNames)} (h : Assembly target t t' w arguments made) (hw : w.WellNamed)
    (hplace : ∀ a ∈ arguments, ∀ m ∈ made, a.name = m.1.result.declared.name →
      m.1.result.declared.isArgument = true → m.2.value = []) : ((t'.localsOf w.scope).map (·.name)).Nodup := by
  obtain ⟨hargs, hres, hshared⟩ := hw
  rw [h.arguments_eq, List.map_map] at hargs
  rw [h.results_eq, List.map_map] at hres
  refine h.nodup_own_locals hargs hres fun a ha m hm hname => hplace a ha m hm hname ?_
  refine hshared a.argument ?_ m.1.result ?_ hname
  · rw [h.arguments_eq]
    exact List.mem_map_of_mem ha
  · rw [h.results_eq]
    exact List.mem_map_of_mem hm

theorem Job.run_nodup_own {job : Job} (h : job.run target t = (.ok w, t')) (hw : w.WellNamed) :
    ((t'.localsOf w.scope).map (·.name)).Nodup := by
  obtain ⟨arguments, made, hl⟩ := Job.run_lowering h
  refine hl.assembly.nodup_of_wellNamed hw fun a ha m hm hname hflag => ?_
  obtain ⟨r, -, p, -, hd⟩ := exists_of_forall₂_right hl.delivered hm
  rw [hd.declared_eq] at hname hflag
  rcases Job.sourceOf_eq arguments r with ⟨-, b, hsource⟩ | ⟨hcall, -⟩
  · exact (hsource ▸ hd).value_inPlace
  · have hany : arguments.any (·.name == r.name) = true := List.any_eq_true.2 ⟨a, ha, by simpa using hname⟩
    simp [hflag, hany] at hcall

theorem wrapAllocator_nodup_own {c : Semantic.Class} (h : wrapAllocator c t = (w, t')) :
    ((t'.localsOf w.scope).map (·.name)).Nodup := by
  obtain ⟨⟨name, scope⟩, t₁, h₁, h⟩ := Alloc.bind_eq h
  obtain ⟨object, t₂, h₂, h⟩ := Alloc.bind_eq h
  obtain ⟨_, t₃, h₃, h⟩ := Alloc.bind_eq h
  obtain ⟨ptr, t₄, h₄, h⟩ := Alloc.bind_eq h
  obtain ⟨rfl, rfl⟩ := Prod.mk.inj h
  obtain ⟨hid, -, hloc, -⟩ := Alloc.openFunction_opened h₁
  have g₂ := Alloc.freshName_grown hid h₂
  have g₃ := Alloc.declare_grown (l := .aliased object c.type) (g₂.lt_size hid)
    (g₂.mem_of_fresh (List.mem_singleton_self _)) h₃
  have g₄ := Alloc.freshName_grown (g₃.lt_size (g₂.lt_size hid)) h₄
  rw [g₄.locals, g₃.locals, g₂.locals, hloc]
  exact List.nodup_singleton _

theorem wrapAccessor_nodup_own {v : Semantic.Variable} (h : wrapAccessor target v t = (w, t')) :
    ((t'.localsOf w.scope).map (·.name)).Nodup := by
  obtain ⟨⟨name, scope⟩, t₁, h₁, h⟩ := Alloc.bind_eq h
  obtain ⟨ptr, t₂, h₂, h⟩ := Alloc.bind_eq h
  obtain ⟨shape, t₃, h₃, h⟩ := Alloc.bind_eq h
  obtain ⟨rfl, rfl⟩ := Prod.mk.inj h
  obtain ⟨hid, -, hloc, -⟩ := Alloc.openFunction_opened h₁
  have g₂ := Alloc.freshName_grown hid h₂
  have g₃ := (Alloc.series_grown (g₂.lt_size hid) h₃).1
  rw [g₃.locals, g₂.locals, hloc]
  exact List.nodup_nil

theorem Made.nodup_own {m : Semantic.Module} (h : Made target m t t' w) (hw : w.WellNamed) :
    ((t'.localsOf w.scope).map (·.name)).Nodup := by
  cases h with
  | function f hf h => exact Job.run_nodup_own h hw
  | allocator c hc h => exact wrapAllocator_nodup_own h
  | accessor v h => exact wrapAccessor_nodup_own h
  | member c hc h =>
    cases h with
    | method f hf h => exact Job.run_nodup_own h hw
    | getter a ha delivery hd h =>
      obtain ⟨receiver, value, hassembly, -, hdelivered, -⟩ := wrapGetter_assembly h
      refine hassembly.nodup_of_wellNamed hw fun _ _ m hm _ hflag => ?_
      -- the value of an attribute is no argument, so the receiver has another name
      rw [List.mem_singleton.1 hm, hdelivered.declared_eq] at hflag
      cases hflag
    | setter a ha passing hp h =>
      obtain ⟨receiver, value, hassembly, -⟩ := wrapSetter_assembly h
      exact hassembly.nodup_of_wellNamed hw fun _ _ _ hm => by cases hm

end Making

/-- Of the locals of a wrapper, its own are all found by their names, and the elements of its loops are found that have
the type of the first. So all are found exactly if the loops agree on the type. -/
theorem wrapModule_local_lookup (target : Target) (m : Semantic.Module) (hname : isIdentifier m.name = true) :
    ∃ r, wrapModule target m = .ok r ∧ ∀ w ∈ r.value.module.allFunctions, w.WellNamed →
      (∃ own element, w.locals = own ++ (w.filledResults.map (·.elementType)).map (.owned element) ∧
        (∀ l ∈ own, w.Finds l) ∧
        ∀ f ∈ w.filledResults, w.Finds (.owned element f.elementType) ↔
          (w.filledResults.map (·.elementType)).head? = some f.elementType) ∧
      ((∀ l ∈ w.locals, w.Finds l) ↔
        ∀ f ∈ w.filledResults, ∀ g ∈ w.filledResults, f.elementType = g.elementType) := by
  obtain ⟨r, hr⟩ := wrapModule_ok target hname
  refine ⟨r, hr, fun w hw hnamed => ?_⟩
  obtain ⟨t, t', ht, -, hmade⟩ := wrapModule_made hr hw
  have ht' := (hmade.built ht).extend.tidy ht
  have hhoused := hmade.housed ht.pos
  have hlocals := hhoused.locals_eq ht' ht.pos
  have hown : ∀ l ∈ t'.localsOf w.scope, w.Finds l := fun l => Function.finds_own hlocals (hmade.nodup_own hnamed)
  have helement : t'.elementName w.scope ∉ (t'.localsOf w.scope).map (·.name) := by
    intro hmem
    obtain ⟨l, hl, heq⟩ := List.mem_map.1 hmem
    exact elementName_notMem (lt_size_of_mem_localsOf hl) (heq ▸ ht'.locals hl)
  have hfinds : ∀ f ∈ w.filledResults, w.Finds (.owned (t'.elementName w.scope) f.elementType) ↔
      (w.filledResults.map (·.elementType)).head? = some f.elementType := fun f hf =>
    Function.finds_element_iff hlocals helement (List.mem_map_of_mem hf)
  refine ⟨⟨_, _, hlocals, hown, hfinds⟩, fun hall f hf g hg => ?_, fun hagree l hl => ?_⟩
  · have hfound : ∀ f ∈ w.filledResults, (w.filledResults.map (·.elementType)).head? = some f.elementType := by
      refine fun f hf => (hfinds f hf).1 (hall _ ?_)
      rw [hlocals]
      exact List.mem_append_right _ (List.mem_map_of_mem (List.mem_map_of_mem hf))
    exact Option.some.inj ((hfound f hf).symm.trans (hfound g hg))
  · rw [hlocals] at hl
    rcases List.mem_append.1 hl with hl | hl
    · exact hown l hl
    · rw [List.map_map] at hl
      obtain ⟨f, hf, rfl⟩ := List.mem_map.1 hl
      refine (hfinds f hf).2 ?_
      cases hfilled : w.filledResults with
      | nil =>
        rw [hfilled] at hf
        cases hf
      | cons g rest =>
        have hg : g ∈ w.filledResults := hfilled ▸ List.mem_cons_self
        exact congrArg some (hagree g hg f hf)

theorem wrapModule_local_lookup_census : isIdentifier census.name = true ∧ ∃ r w, wrapModule .fortran census = .ok r ∧
    w ∈ r.value.module.allFunctions ∧ w.WellNamed ∧ w.filledResults.map (·.elementType.text) = ["int64", "int32"] ∧
    (∃ own element, w.locals = own ++ (w.filledResults.map (·.elementType)).map (.owned element) ∧
      ∀ l ∈ own, w.Finds l) ∧ ¬∀ l ∈ w.locals, w.Finds l := by
  have hname : isIdentifier census.name = true := by decide +kernel
  obtain ⟨r, hr, hlookup⟩ := wrapModule_local_lookup .fortran census hname
  have hrun : ((wrapModule .fortran census).toOption.bind fun r => r.value.module.allFunctions.head?.map fun w =>
      (w.arguments.map (·.declared.name), w.results.map (·.declared.name),
        w.arguments.all fun a => w.results.all fun r => a.declared.name != r.declared.name || r.declared.isArgument,
        w.filledResults.map (·.elementType.text))) =
      some (["rows"], ["rows", "seen", "rest", "order"], true, ["int64", "int32"]) := by decide +kernel
  rw [hr] at hrun
  obtain ⟨w, hw, hrun⟩ := Option.map_eq_some_iff.1 hrun
  obtain ⟨hargs, hrun⟩ := Prod.mk.inj hrun
  obtain ⟨hres, hrun⟩ := Prod.mk.inj hrun
  obtain ⟨hshared, htypes⟩ := Prod.mk.inj hrun
  have hmem := List.mem_of_mem_head? hw
  have hnamed : w.WellNamed := by
    refine ⟨hargs ▸ by decide, hres ▸ by decide, fun a ha r hr hname => ?_⟩
    simpa [hname] using List.all_eq_true.1 (List.all_eq_true.1 hshared a ha) r hr
  obtain ⟨⟨own, element, hlocals, hown, -⟩, hiff⟩ := hlookup w hmem hnamed
  refine ⟨hname, r, w, hr, hmem, hnamed, htypes, ⟨own, element, hlocals, hown⟩, fun hall => ?_⟩
  obtain ⟨f, hf, hfirst⟩ := List.mem_map.1 (htypes ▸ List.mem_cons_self : "int64" ∈ _)
  obtain ⟨g, hg, hsecond⟩ := List.mem_map.1 (htypes ▸ List.mem_cons_of_mem _ List.mem_cons_self : "int32" ∈ _)
  rw [hiff.1 hall f hf g hg, hsecond] at hfirst
  exact absurd hfirst (by decide)

/-- Returns two lists whose elements have different types. -/
def pairModule : Semantic.Module where
  name := "lib"
  functions := [{
    name := "pair"
    arguments := []
    results := [{ name := "xs", type := .list (.scalar .int32) }, { name := "ys", type := .list (.scalar .float64) }] }]

/-- The element of the second loop is taken for that of the first. -/
theorem wrapModule_pair_locals :
    ((wrapModule .fortran pairModule).toOption.map fun r => r.value.module.allFunctions.flatMap fun w =>
      (w.locals.filter (·.name == "elem")).map fun l =>
        (l.valueType?.elim "" (·.text), ((w.local? l.name).bind (·.valueType?)).elim "" (·.text))) =
      some [("int32", "int32"), ("float64", "int32")] := by
  decide +kernel

/-! ### The receiver and the value of an accessor -/

theorem Assembly.receiver_apart {target : Target} {used : List String} {t t' : ScopeTree} {w : Wrapper.Function}
    {arguments : List MarshalledArgument} {made : List (MarshalledResult × ResultNames)}
    (h : Assembly target t t' w arguments made) (ht : t.Tidy used) (ht' : t'.Tidy used) {c : Semantic.Class}
    {receiver : MarshalledArgument} (hmem : receiver ∈ arguments)
    (hreceiver : Marshalled target (receiverArgument c) .handle receiver) {member value : String}
    (hvalue : t'.nameFor? w.scope member = some value) :
    receiver.argument.declared.name = "self" ∧
      (t'.target.sameName receiver.argument.native.name value = true ↔ member = "self") := by
  have hself : receiver.argument.declared.name = "self" := congrArg Semantic.Argument.name hreceiver.declared_eq
  have hnative := h.argument_native receiver hmem
  rw [MarshalledArgument.name, hself] at hnative
  refine ⟨hself, ?_⟩
  rw [h.roster.sameName_iff ht' (h.scope_ne_root ht.pos) hnative hvalue]
  exact eq_comm

/-- The receiver of an accessor and the value that it reads or writes have one local exactly if the attribute is called
as the receiver is. -/
theorem wrapModule_receiver_apart (target : Target) (m : Semantic.Module) (hname : isIdentifier m.name = true) :
    ∃ r, wrapModule target m = .ok r ∧ ∀ w ∈ r.value.module.allFunctions, ∀ key : MemberKey,
      (w.origin = .getter key → ∃ receiver value, w.arguments = [receiver] ∧ w.results = [value] ∧
        receiver.declared.name = "self" ∧ value.declared.name = key.member ∧
        (target.sameName receiver.native.name value.native.name = true ↔ key.member = "self")) ∧
      (w.origin = .setter key → ∃ receiver value, w.arguments = [receiver, value] ∧ w.results = [] ∧
        receiver.declared.name = "self" ∧ value.declared.name = key.member ∧
        (target.sameName receiver.native.name value.native.name = true ↔ key.member = "self")) := by
  obtain ⟨r, hr⟩ := wrapModule_ok target hname
  refine ⟨r, hr, fun w hw key => ?_⟩
  obtain ⟨t, t', ht, htarget, hmade⟩ := wrapModule_made hr hw
  have ht' := (hmade.built ht).extend.tidy ht
  have htarget' : t'.target = target := (hmade.built ht).extend.target.trans htarget
  refine ⟨fun horigin => ?_, fun horigin => ?_⟩
  · obtain ⟨c, -, hmember⟩ := hmade.exists_member (.inr (.inl horigin))
    obtain ⟨a, -, delivery, rfl, -, h⟩ := hmember.getter_run horigin
    obtain ⟨receiver, value, hassembly, hreceiver, hvalue, -⟩ := wrapGetter_assembly h
    have hname : value.1.result.declared.name = a.name := congrArg Semantic.Result.name hvalue.declared_eq
    have hnative := hassembly.result_native value (List.mem_singleton_self _)
    obtain ⟨hself, hapart⟩ := hassembly.receiver_apart ht ht' (List.mem_singleton_self _) hreceiver (hname ▸ hnative)
    exact ⟨receiver.argument, value.1.result, hassembly.arguments_eq, hassembly.results_eq, hself, hname,
      htarget' ▸ hapart⟩
  · obtain ⟨c, -, hmember⟩ := hmade.exists_member (.inr (.inr horigin))
    obtain ⟨a, -, passing, rfl, -, h⟩ := hmember.setter_run horigin
    obtain ⟨receiver, value, hassembly, hreceiver, hvalue, -⟩ := wrapSetter_assembly h
    have hname : value.argument.declared.name = a.name := congrArg Semantic.Argument.name hvalue.declared_eq
    have hnative := hassembly.argument_native value (List.mem_cons_of_mem _ (List.mem_singleton_self _))
    rw [MarshalledArgument.name, hname] at hnative
    obtain ⟨hself, hapart⟩ := hassembly.receiver_apart ht ht' List.mem_cons_self hreceiver hnative
    exact ⟨receiver.argument, value.argument, hassembly.arguments_eq, hassembly.results_eq, hself, hname,
      htarget' ▸ hapart⟩

/-- A class with an attribute that is called as the receiver is, one that differs in its case, and another. -/
def mirrorModule : Semantic.Module where
  name := "lib"
  classes := [{
    name := "Box"
    attributes := [{ name := "self", type := .scalar .int32 }, { name := "Self", type := .scalar .int32 },
      { name := "other", type := .array .float64 1 .rowMajor }] }]

theorem wrapModule_receiver_apart_mirror : isIdentifier mirrorModule.name = true ∧
    ∃ r w receiver value, wrapModule .fortran mirrorModule = .ok r ∧ w ∈ r.value.module.allFunctions ∧
      w.origin = .setter ⟨"Box", "Self"⟩ ∧ w.arguments = [receiver, value] ∧
      Target.fortran.sameName receiver.native.name value.native.name = false := by
  have hname : isIdentifier mirrorModule.name = true := by decide +kernel
  obtain ⟨r, hr, hapart⟩ := wrapModule_receiver_apart .fortran mirrorModule hname
  have hrun : ((wrapModule .fortran mirrorModule).toOption.map fun r => r.value.module.allFunctions.any fun w =>
      w.origin = .setter ⟨"Box", "Self"⟩) = some true := by decide +kernel
  rw [hr] at hrun
  obtain ⟨w, hw, horigin⟩ := List.any_eq_true.1 (Option.some.inj hrun)
  have horigin := of_decide_eq_true horigin
  obtain ⟨receiver, value, hargs, -, -, -, hiff⟩ := (hapart w hw _).2 horigin
  refine ⟨hname, r, w, receiver, value, hr, hw, horigin, hargs, Bool.eq_false_iff.2 fun hsame => ?_⟩
  exact absurd (hiff.1 hsame) (by decide)

/-- An attribute called `self` shares its local with the receiver, in both accessors. -/
theorem wrapModule_mirror_self :
    ((wrapModule .fortran mirrorModule).toOption.map fun r => r.value.module.allFunctions.map fun w =>
      (w.origin, w.arguments.map (·.native.name) ++ w.results.map (·.native.name))) =
      some [(.allocator "Box", ["Box_obj"]),
        (.getter ⟨"Box", "self"⟩, ["self", "self"]), (.setter ⟨"Box", "self"⟩, ["self", "self"]),
        (.getter ⟨"Box", "Self"⟩, ["self_0001", "Self"]), (.setter ⟨"Box", "Self"⟩, ["self", "Self_0001"]),
        (.getter ⟨"Box", "other"⟩, ["self", "other"]), (.setter ⟨"Box", "other"⟩, ["self", "other"])] := by
  decide +kernel

end AbiBridge
