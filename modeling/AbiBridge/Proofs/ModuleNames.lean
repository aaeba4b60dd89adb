import Mathlib
import AbiBridge.Proofs.Lowering
import AbiBridge.Proofs.ModuleWalk

/-!
# The names of a wrapper module

All wrappers of a module are named in the root of one scope tree, and each has a scope of its own right inside for
everything else that it names. `Built` says this of the wrappers that a computation makes: their names are new symbols
of the root, and the names they use are symbols of other scopes. Every wrapper is one such step (`Made.built`), and
steps compose, so the whole module is one (`wrapParts_built`). As the tree is tidy in the end, the names of the
wrappers and of the module differ from one another and from every name that a wrapper uses (`wrapModule_namesApart`).
-/

namespace AbiBridge

open Wrapper ScopeTree

/-! ### The names that a wrapper uses -/

namespace Wrapper

def ReturnSlot.name? : ReturnSlot → Option String
  | .direct name _ => some name
  | _ => none

/-- The names of a wrapper's locals and parameters and of what it returns by value. -/
def Function.innerNames (f : Function) : List String :=
  f.locals.map (·.name) ++ (f.signature.params.map (·.name) ++ f.signature.returns.name?.toList)

theorem Function.exists_param {f : Function} {n : String}
    (h : n ∈ f.signature.params.map (·.name) ++ f.signature.returns.name?.toList) :
    (∃ a ∈ f.arguments, ∃ p ∈ a.params, p.name = n) ∨ ∃ r ∈ f.results, ∃ p ∈ r.outputs, p.name = n := by
  have hcross : n ∈ (f.arguments.flatMap Argument.params ++ f.results.flatMap Result.outputs).map (·.name) := by
    unfold signature at h
    split at h
    · simpa [*, ReturnSlot.name?] using h
    · rename_i r hresults
      rw [hresults]
      simp only [ReturnSlot.name?, Option.toList_some, List.map_append, List.append_assoc, List.mem_append,
        List.mem_singleton] at h
      simp only [List.flatMap_cons, List.flatMap_nil, List.append_nil, List.map_append, Result.outputs, List.map_cons,
        List.mem_append, List.mem_cons]
      rcases h with h | h | rfl
      · exact .inl h
      · exact .inr (.inr h)
      · exact .inr (.inl rfl)
    · simpa [ReturnSlot.name?] using h
  obtain ⟨p, hp, rfl⟩ := List.mem_map.1 hcross
  refine (List.mem_append.1 hp).imp (fun hp => ?_) fun hp => ?_
  · obtain ⟨a, ha, hp⟩ := List.mem_flatMap.1 hp
    exact ⟨a, ha, p, hp, rfl⟩
  · obtain ⟨r, hr, hp⟩ := List.mem_flatMap.1 hp
    exact ⟨r, hr, p, hp, rfl⟩

end Wrapper

/-! ### Wrappers in turn -/

/-- The wrappers `fs` were made on the way from one tree to the other. -/
structure Built (t t' : ScopeTree) (fs : List Wrapper.Function) : Prop where
  extend : t.Extends t'
  nodup : (fs.map (·.name)).Nodup
  new : ∀ f ∈ fs, f.name ∉ t.symbolsOf root
  named : ∀ f ∈ fs, f.name ∈ t'.symbolsOf root
  inner : ∀ f ∈ fs, ∀ n ∈ f.innerNames, ∃ c, c ≠ root ∧ n ∈ t'.symbolsOf c

namespace Built

variable {t t' t'' : ScopeTree} {fs gs : List Wrapper.Function}

theorem refl (t : ScopeTree) : Built t t [] := ⟨.refl t, .nil, by simp, by simp, by simp⟩

theorem perm (h : Built t t' fs) (hperm : fs.Perm gs) : Built t t' gs where
  extend := h.extend
  nodup := (hperm.map _).nodup_iff.1 h.nodup
  new f hf := h.new f (hperm.mem_iff.2 hf)
  named f hf := h.named f (hperm.mem_iff.2 hf)
  inner f hf := h.inner f (hperm.mem_iff.2 hf)

theorem trans (h : Built t t' fs) (h' : Built t' t'' gs) : Built t t'' (fs ++ gs) where
  extend := h.extend.trans h'.extend
  nodup := by
    rw [List.map_append]
    refine h.nodup.append h'.nodup fun n hn hn' => ?_
    obtain ⟨f, hf, rfl⟩ := List.mem_map.1 hn
    obtain ⟨g, hg, hgf⟩ := List.mem_map.1 hn'
    exact h'.new g hg (hgf ▸ h.named f hf)
  new f hf := by
    rcases List.mem_append.1 hf with hf | hf
    · exact h.new f hf
    · exact fun hn => h'.new f hf (h.extend.symbols root hn)
  named f hf := by
    rcases List.mem_append.1 hf with hf | hf
    · exact h'.extend.symbols root (h.named f hf)
    · exact h'.named f hf
  inner f hf n hn := by
    rcases List.mem_append.1 hf with hf | hf
    · obtain ⟨c, hc, hn⟩ := h.inner f hf n hn
      exact ⟨c, hc, h'.extend.symbols c hn⟩
    · exact h'.inner f hf n hn

end Built

section Building

variable {target : Target} {used : List String} {t t₁ t' : ScopeTree}

theorem Alloc.openFunction_grown {hint name : String} {id : ScopeId} (hpos : 0 < t.size)
    (h : openFunction hint t = ((name, id), t')) : Grown root [] [name] [] t t' ∧ t.size ≤ id := by
  obtain ⟨name', t₁, h₁, h⟩ := bind_eq h
  obtain ⟨id', t₂, h₂, h⟩ := bind_eq h
  obtain ⟨hpair, rfl⟩ := Prod.mk.inj h
  obtain ⟨rfl, rfl⟩ := Prod.mk.inj hpair
  have g₁ := freshName_grown hpos h₁
  obtain ⟨g₂, hle, -⟩ := newChild_grown (g₁.lt_size hpos) h₂
  exact ⟨g₁.trans g₂, g₁.extend.size_le.trans hle⟩

/-- One wrapper, whose locals are those of its scope and the scopes inside. -/
theorem Built.of_opened {hint : String} {w : Wrapper.Function} (ht : t.Tidy used)
    (hopen : Alloc.openFunction hint t = ((w.name, w.scope), t₁)) (hext : t₁.Extends t')
    (hlocals : w.locals = t'.locals w.scope)
    (hargs : ∀ a ∈ w.arguments, ∀ p ∈ a.params, p.name ∈ t'.symbolsOf w.scope)
    (hres : ∀ r ∈ w.results, ∀ p ∈ r.outputs, p.name ∈ t'.symbolsOf w.scope) : Built t t' [w] := by
  obtain ⟨g, hle⟩ := Alloc.openFunction_grown ht.pos hopen
  have hne : w.scope ≠ root := Nat.ne_of_gt (Nat.lt_of_lt_of_le ht.pos hle)
  have hname : w.name ∈ [w.name] := List.mem_singleton_self _
  refine ⟨g.extend.trans hext, List.nodup_singleton _, ?_, ?_, ?_⟩ <;> intro f hf <;> rw [List.mem_singleton.1 hf]
  · exact g.notMem _ hname
  · exact hext.symbols root (g.mem_of_fresh hname)
  intro n hn
  rcases List.mem_append.1 hn with hn | hn
  · obtain ⟨l, hl, rfl⟩ := List.mem_map.1 hn
    rw [hlocals] at hl
    obtain ⟨c, hc, hl⟩ := List.mem_flatMap.1 hl
    have ht' := hext.tidy (g.extend.tidy ht)
    -- what the scope encloses comes after it, and so after the root
    have hle' := (encloses_of_mem_subtreeWithin ht'.ordered hc).le ht'.ordered
    refine ⟨c, ?_, ht'.locals hl⟩
    rintro rfl
    exact hne (Nat.le_zero.1 hle')
  · rcases Function.exists_param hn with ⟨a, ha, p, hp, rfl⟩ | ⟨r, hr, p, hp, rfl⟩
    · exact ⟨w.scope, hne, hargs a ha p hp⟩
    · exact ⟨w.scope, hne, hres r hr p hp⟩

/-! ### Functions and methods -/

theorem Job.run_built {job : Job} {w : Wrapper.Function} (ht : t.Tidy used) (h : job.run target t = (.ok w, t')) :
    Built t t' [w] := by
  obtain ⟨arguments, made, hw⟩ := Job.run_lowering h
  obtain ⟨t₁, hopen, hext⟩ := hw.opened
  refine .of_opened ht hopen hext hw.locals_eq (fun a ha p hp => ?_) fun r hr p hp => ?_
  · rw [hw.arguments_eq] at ha
    obtain ⟨m, hm, rfl⟩ := List.mem_map.1 ha
    have hn := MarshalledArgument.name_mem_of_mem_params hp
    exact hw.owned _ (List.mem_append_left _ (List.mem_flatMap.2 ⟨m, hm, hn⟩))
  · rw [hw.results_eq] at hr
    obtain ⟨m, hm, rfl⟩ := List.mem_map.1 hr
    obtain ⟨r, -, delivery, -, hd⟩ := exists_of_forall₂_right hw.delivered hm
    have hn := hd.name_mem_of_mem_outputs hp
    exact hw.owned _ (List.mem_append_right _ (List.mem_flatMap.2 ⟨m, hm, hn⟩))

/-! ### Allocators and accessors -/

theorem marshalArgument_owned {scope : Nat} {a : Semantic.Argument} {passing : Passing} {temporary : Bool}
    {m : MarshalledArgument} (hid : scope < t.size) (hsound : t.Sound scope)
    (h : marshalArgument target scope a passing temporary t = (m, t')) :
    scope < t'.size ∧ t'.Sound scope ∧ t.Extends t' ∧ ∀ p ∈ m.argument.params, p.name ∈ t'.symbolsOf scope := by
  obtain ⟨-, new, hname, g, -⟩ := marshalArgument_grown hid hsound h
  have hsound' := g.sound hsound
  refine ⟨g.lt_size hid, hsound', g.extend, fun p hp => ?_⟩
  rcases List.mem_cons.1 (MarshalledArgument.name_mem_of_mem_params hp) with heq | hp
  · rw [heq]
    exact hsound'.owned _ _ hname
  · exact g.mem_of_fresh (List.mem_append_right _ hp)

theorem wrapAllocator_built {c : Semantic.Class} {w : Wrapper.Function} (ht : t.Tidy used)
    (h : wrapAllocator c t = (w, t')) : Built t t' [w] := by
  obtain ⟨⟨name, scope⟩, t₁, h₁, h⟩ := Alloc.bind_eq h
  obtain ⟨object, t₂, h₂, h⟩ := Alloc.bind_eq h
  obtain ⟨_, t₃, h₃, h⟩ := Alloc.bind_eq h
  obtain ⟨ptr, t₄, h₄, h⟩ := Alloc.bind_eq h
  obtain ⟨rfl, rfl⟩ := Prod.mk.inj h
  have hid := (Alloc.openFunction_opened h₁).1
  have g₂ := Alloc.freshName_grown hid h₂
  have g₃ := Alloc.declare_grown (l := .aliased object c.type) (g₂.lt_size hid)
    (g₂.mem_of_fresh (List.mem_singleton_self _)) h₃
  have g := g₂.trans g₃
  have g₄ := Alloc.freshName_grown (g.lt_size hid) h₄
  refine .of_opened ht h₁ (g.trans g₄).extend rfl (by simp) fun r hr p hp => ?_
  rw [List.mem_singleton.1 hr] at hp
  rw [List.mem_singleton.1 hp]
  exact g₄.mem_of_fresh (List.mem_singleton_self _)

theorem wrapAccessor_built {v : Semantic.Variable} {w : Wrapper.Function} (ht : t.Tidy used)
    (h : wrapAccessor target v t = (w, t')) : Built t t' [w] := by
  obtain ⟨⟨name, scope⟩, t₁, h₁, h⟩ := Alloc.bind_eq h
  obtain ⟨ptr, t₂, h₂, h⟩ := Alloc.bind_eq h
  obtain ⟨shape, t₃, h₃, h⟩ := Alloc.bind_eq h
  obtain ⟨rfl, rfl⟩ := Prod.mk.inj h
  have hid := (Alloc.openFunction_opened h₁).1
  have g₂ := Alloc.freshName_grown hid h₂
  have g := g₂.trans (Alloc.series_grown (g₂.lt_size hid) h₃).1
  refine .of_opened ht h₁ g.extend rfl (by simp) fun r hr p hp => g.mem_of_fresh ?_
  rw [List.mem_singleton.1 hr] at hp
  rcases List.mem_cons.1 hp with rfl | hp
  · exact List.mem_cons_self
  · obtain ⟨n, hn, rfl⟩ := List.mem_map.1 hp
    exact List.mem_cons_of_mem _ hn

theorem wrapGetter_built {c : Semantic.Class} {a : Semantic.Attribute} {delivery : Delivery} {w : Wrapper.Function}
    (ht : t.Tidy used) (h : wrapGetter target c a delivery t = (w, t')) : Built t t' [w] := by
  obtain ⟨⟨name, scope⟩, t₁, h₁, h⟩ := Alloc.bind_eq h
  obtain ⟨value, t₂, h₂, h⟩ := Alloc.bind_eq h
  obtain ⟨receiver, t₃, h₃, h⟩ := Alloc.bind_eq h
  obtain ⟨rfl, rfl⟩ := Prod.mk.inj h
  have hid := (Alloc.openFunction_opened h₁).1
  obtain ⟨ns, new, hd, hname, g₂, -, -⟩ :=
    marshalResult_grown hid (Alloc.openFunction_sound h₁) (fun _ hs => by cases hs) h₂
  have hsound := g₂.sound (Alloc.openFunction_sound h₁)
  obtain ⟨-, -, hext, hparams⟩ := marshalArgument_owned (g₂.lt_size hid) hsound h₃
  refine .of_opened ht h₁ (g₂.extend.trans hext) rfl (fun x hx p hp => ?_) fun r hr p hp => ?_
  · rw [List.mem_singleton.1 hx] at hp
    exact hparams p hp
  · rw [List.mem_singleton.1 hr] at hp
    have hnative := hsound.owned _ _ hname
    refine hext.symbols _ ?_
    rcases List.mem_cons.1 (hd.name_mem_of_mem_outputs hp) with hn | hn
    · exact hn ▸ hnative
    rcases List.mem_append.1 hn with hn | hn
    · exact hd.eq_of_mem_value hn ▸ hnative
    · exact g₂.mem_of_fresh (List.mem_append_right _ hn)

theorem wrapSetter_built {c : Semantic.Class} {a : Semantic.Attribute} {passing : Passing} {w : Wrapper.Function}
    (ht : t.Tidy used) (h : wrapSetter target c a passing t = (w, t')) : Built t t' [w] := by
  obtain ⟨⟨name, scope⟩, t₁, h₁, h⟩ := Alloc.bind_eq h
  obtain ⟨receiver, t₂, h₂, h⟩ := Alloc.bind_eq h
  obtain ⟨value, t₃, h₃, h⟩ := Alloc.bind_eq h
  obtain ⟨rfl, rfl⟩ := Prod.mk.inj h
  obtain ⟨hid, hsound, hext₂, hparams₂⟩ :=
    marshalArgument_owned (Alloc.openFunction_opened h₁).1 (Alloc.openFunction_sound h₁) h₂
  obtain ⟨-, -, hext₃, hparams₃⟩ := marshalArgument_owned hid hsound h₃
  refine .of_opened ht h₁ (hext₂.trans hext₃) rfl (fun x hx p hp => ?_) (by simp)
  rcases List.mem_pair.1 hx with rfl | rfl
  · exact hext₃.symbols _ (hparams₂ p hp)
  · exact hparams₃ p hp

/-! ### All wrappers -/

theorem MemberMade.built {c : Semantic.Class} {w : Wrapper.Function} (ht : t.Tidy used)
    (h : MemberMade target c t t' w) : Built t t' [w] := by
  cases h with
  | method m hm h => exact Job.run_built ht h
  | getter a ha delivery hd h => exact wrapGetter_built ht h
  | setter a ha passing hp h => exact wrapSetter_built ht h

theorem Made.built {m : Semantic.Module} {w : Wrapper.Function} (ht : t.Tidy used) (h : Made target m t t' w) :
    Built t t' [w] := by
  cases h with
  | function f hf h => exact Job.run_built ht h
  | allocator c hc h => exact wrapAllocator_built ht h
  | member c hc h => exact h.built ht
  | accessor v h => exact wrapAccessor_built ht h

theorem Series.built {m : Semantic.Module} {ws : List Wrapper.Function} (h : Series (Made target m) t t' ws)
    (ht : t.Tidy used) : Built t t' ws := by
  induction h with
  | nil t => exact .refl t
  | cons h _ ih => exact (h.built ht).trans (ih ((h.built ht).extend.tidy ht))

theorem wrapParts_built {m : Semantic.Module} {r : Reported Wrapper.Module} (ht : t.Tidy used)
    (h : wrapParts target m t = (r, t')) :
    ∃ t₁, Built t t₁ r.value.allFunctions ∧ Grown root [] [r.value.name] [] t₁ t' := by
  obtain ⟨t₁, ws, hws, hperm, hname, -⟩ := wrapParts_series h
  have b := (hws.built ht).perm hperm
  exact ⟨t₁, b, Alloc.freshName_grown (b.extend.tidy ht).pos hname⟩

end Building

/-- The names of a module and of its wrappers. -/
def Wrapper.Module.topNames (w : Wrapper.Module) : List String := w.name :: w.allFunctions.map (·.name)

/-- The wrapper module `w` of `m` uses its names at the top for nothing else, and no two of them denote one name. -/
structure Wrapper.Module.NamesApart (target : Target) (m : Semantic.Module) (w : Wrapper.Module) : Prop where
  pairwise : w.topNames.Pairwise fun a b => target.sameName a b = false
  legal : ∀ n ∈ w.topNames, target.isReserved n = false
  unused : ∀ n ∈ w.topNames, ∀ u ∈ m.usedSymbols, target.sameName n u = false
  inner : ∀ n ∈ w.topNames, ∀ f ∈ w.allFunctions, ∀ x ∈ f.innerNames, target.sameName n x = false
  found : ∀ f ∈ w.allFunctions, w.function? f.name = some f

/-- The names at the top of a wrapped module are legal and differ from one another, from the symbols in use, and from
all names inside its wrappers, as the target compares names. -/
theorem wrapModule_namesApart (target : Target) (m : Semantic.Module) (hname : isIdentifier m.name = true) :
    ∃ r, wrapModule target m = .ok r ∧ r.value.module.NamesApart target m := by
  obtain ⟨r, t', hrun⟩ : ∃ r t', wrapParts target m (.new target m.name m.usedSymbols) = (r, t') := ⟨_, _, rfl⟩
  have hok : wrapModule target m = .ok ⟨⟨r.value, t'⟩, r.reports⟩ := by
    have hrun' : (wrapParts target m).run (.new target m.name m.usedSymbols) = (r, t') := hrun
    rw [wrapModule, if_pos hname, hrun']
  have ht := Tidy.new target m.name m.usedSymbols
  obtain ⟨t₁, b, g⟩ := wrapParts_built ht hrun
  have htarget : t'.target = target := (b.extend.trans g.extend).target
  have ht' := (b.extend.trans g.extend).tidy ht
  have hown : ∀ n ∈ r.value.topNames, n ∈ t'.symbolsOf root ∧ n ∉ m.usedSymbols := by
    intro n hn
    rcases List.mem_cons.1 hn with rfl | hn
    · refine ⟨g.mem_of_fresh (List.mem_singleton_self _), fun hu => ?_⟩
      exact g.notMem _ (List.mem_singleton_self _) (b.extend.symbols root (ht.given _ hu))
    · obtain ⟨f, hf, rfl⟩ := List.mem_map.1 hn
      exact ⟨g.mono (b.named f hf), fun hu => b.new f hf (ht.given _ hu)⟩
  have hnodup : r.value.topNames.Nodup := by
    refine List.nodup_cons.2 ⟨fun hmem => ?_, b.nodup⟩
    obtain ⟨f, hf, heq⟩ := List.mem_map.1 hmem
    exact g.notMem _ (List.mem_singleton_self _) (heq ▸ b.named f hf)
  -- a symbol anywhere in the tree that denotes a name at the top is that name, at the top
  have happart : ∀ n ∈ r.value.topNames, ∀ c x, x ∈ t'.symbolsOf c → target.sameName n x = true →
      c = root ∧ n = x := by
    intro n hn c x hx hsame
    obtain ⟨hmem, hused⟩ := hown n hn
    have hroot := Encloses.of_root ht'.ordered (lt_size_of_mem_symbolsOf hx)
    rcases ht'.apart hroot hmem hx (htarget ▸ hsame) with ⟨hc, heq⟩ | ⟨⟨-, hu⟩, -⟩
    · exact ⟨hc.symm, heq⟩
    · exact absurd hu hused
  refine ⟨_, hok, ?_, ?_, ?_, ?_, fun f hf => find?_of_nodup_names b.nodup hf⟩
  · refine hnodup.imp_of_mem fun {x y} hx hy hne => Bool.eq_false_iff.2 fun hsame => hne ?_
    exact (happart x hx root y (hown y hy).1 hsame).2
  · intro n hn
    refine Bool.eq_false_iff.2 fun hr => (hown n hn).2 ?_
    exact (ht'.legal (hown n hn).1 (htarget ▸ hr)).2
  · intro n hn u hu
    refine Bool.eq_false_iff.2 fun hsame => (hown n hn).2 ?_
    rw [(happart n hn root u (ht'.given u hu) hsame).2]
    exact hu
  · intro n hn f hf x hx
    refine Bool.eq_false_iff.2 fun hsame => ?_
    obtain ⟨c, hc, hx⟩ := b.inner f hf x hx
    exact hc (happart n hn c x (g.extend.symbols c hx) hsame).1

/-- A module whose functions, classes and variables ask for names that it uses or that denote one name. -/
def crowdedModule : Semantic.Module where
  name := "scale"
  globals := [{ name := "cells", type := .array .float64 2 .rowMajor }]
  functions := [
    { name := "scale", arguments := [{ name := "bind_c_scale", type := .scalar .int32 }] },
    { name := "SCALE", arguments := [], results := [{ name := "bind_c_cells", type := .list (.scalar .int32) }] },
    { name := "bind_c_scale", arguments := [] }]
  classes := [{
    name := "Grid"
    methods := [
      { name := "size", arguments := [{ name := "self", type := .object "Grid", bound := true }],
        results := [{ name := "grid_size_getter", type := .scalar .int64 }], role := .property }]
    attributes := [{ name := "size", type := .scalar .int64 }, { name := "mask", type := .array .bool 1 .rowMajor }] }]

theorem wrapModule_namesApart_crowded : isIdentifier crowdedModule.name = true ∧
    ∃ r, wrapModule .fortran crowdedModule = .ok r ∧ r.value.module.NamesApart .fortran crowdedModule ∧
      r.value.module.allFunctions.length = 8 := by
  have hname : isIdentifier crowdedModule.name = true := by decide +kernel
  obtain ⟨r, hr, hapart⟩ := wrapModule_namesApart .fortran crowdedModule hname
  have hcount : (wrapModule .fortran crowdedModule).toOption.map (·.value.module.allFunctions.length) = some 8 := by
    decide +kernel
  rw [hr] at hcount
  exact ⟨hname, r, hr, hapart, Option.some.inj hcount⟩

end AbiBridge
