import Mathlib
import AbiBridge.Wrap.Function
import AbiBridge.Proofs.Marshalling

/-!
# What a lowered wrapper consists of

`Job.run_lowering` says what a wrapper looks like and where its names come from: every argument and every result has
one of the forms of `Marshalled` and `Delivered`, their names are symbols of the wrapper's scope and differ where the
declared names do, and its locals are those of the scope. `Job.run_lowered` is the part of this that the execution of
a wrapper needs.
-/

namespace AbiBridge

open Wrapper ScopeTree

/-! ### Plans -/

theorem forall₂_trans {α β γ : Type} {R : α → β → Prop} {S : β → γ → Prop} {T : α → γ → Prop} {as : List α}
    {bs : List β} {cs : List γ} (h : List.Forall₂ R as bs) (h' : List.Forall₂ S bs cs)
    (hT : ∀ a b c, R a b → S b c → T a c) : List.Forall₂ T as cs := by
  induction h generalizing cs with
  | nil =>
    cases h'
    exact .nil
  | cons hab _ ih =>
    cases h' with
    | cons hbc hrest => exact .cons (hT _ _ _ hab hbc) (ih hrest)

theorem exists_of_forall₂_right {α β : Type} {R : α → β → Prop} {as : List α} {bs : List β} (h : List.Forall₂ R as bs)
    {b : β} (hb : b ∈ bs) : ∃ a ∈ as, R a b := by
  induction h with
  | nil => cases hb
  | cons hab _ ih =>
    rcases List.mem_cons.1 hb with rfl | hb
    · exact ⟨_, List.mem_cons_self, hab⟩
    · obtain ⟨a, ha, hr⟩ := ih hb
      exact ⟨a, List.mem_cons_of_mem _ ha, hr⟩

theorem forall₂_of_mapM_ok {ε α β : Type} {f : α → Except ε β} {l : List α} {l' : List β}
    (h : l.mapM f = .ok l') : List.Forall₂ (fun a b => f a = .ok b) l l' := by
  induction l generalizing l' with
  | nil =>
    cases h
    exact .nil
  | cons a l ih =>
    rw [List.mapM_cons] at h
    cases ha : f a with
    | error e => rw [ha] at h; cases h
    | ok b =>
      cases hl : l.mapM f with
      | error e => rw [ha, hl] at h; cases h
      | ok bs =>
        rw [ha, hl] at h
        cases h
        exact .cons ha (ih hl)

theorem CrossingPlan.of_ok {f : Semantic.Function} {plan : CrossingPlan} (h : CrossingPlan.of f = .ok plan) :
    List.Forall₂ (fun a p => p.1 = a ∧ Passing.of? a.type a.optional = some p.2) f.arguments plan.arguments ∧
      List.Forall₂ (fun r p => p.1 = r ∧ Delivery.of? r.type = some p.2) f.results plan.results := by
  unfold CrossingPlan.of at h
  cases ha : f.arguments.mapM (argument f.name) with
  | error e => rw [ha] at h; cases h
  | ok arguments =>
    cases hr : f.results.mapM (result f.name) with
    | error e => rw [ha, hr] at h; cases h
    | ok results =>
      rw [ha, hr] at h
      cases h
      refine ⟨(forall₂_of_mapM_ok ha).imp fun a p hp => ?_, (forall₂_of_mapM_ok hr).imp fun r p hp => ?_⟩
      · unfold argument at hp
        split at hp <;> cases hp
        exact ⟨rfl, ‹_›⟩
      · unfold result at hp
        split at hp <;> cases hp
        exact ⟨rfl, ‹_›⟩

/-! ### Results in turn -/

theorem ScopeTree.Grown.notMem_of_inner {id : ScopeId} {requested fresh : List String} {declared : List Local}
    {t t' : ScopeTree} {n : String} (h : Grown id requested fresh declared t t') (hinner : t.Inner id n)
    (hn : n ∉ t.symbolsOf id) : n ∉ t'.symbolsOf id := by
  intro hmem
  rcases (h.mem_symbols n).1 hmem with hmem | hmem
  · exact hn hmem
  · exact h.notInner n hmem hinner

theorem Job.sourceOf_inPlace {arguments : List MarshalledArgument} {r : Semantic.Result} {a : MarshalledArgument}
    (h : Job.sourceOf arguments r = .inPlace a) : a ∈ arguments ∧ a.name = r.name := by
  unfold Job.sourceOf at h
  split at h
  · split at h
    · rename_i hfind
      cases h
      exact ⟨List.mem_of_find?_eq_some hfind, by simpa using List.find?_some hfind⟩
    · cases h
  · cases h

/-- Loop names made earlier stay apart from what the function's scope gets later. -/
theorem marshalResults_grown {target : Target} {scope : Nat} {t t' : ScopeTree}
    {plan : List (Semantic.Result × Delivery)} {arguments : List MarshalledArgument} {ds : List MarshalledResult}
    (hid : scope < t.size) (hsound : t.Sound scope)
    (hplace : ∀ a ∈ arguments, t.nameFor? scope a.name = some a.argument.native.name)
    (h : (plan.mapM fun p => marshalResult target scope p.1 p.2 (Job.sourceOf arguments p.1)) t = (ds, t')) :
    ∃ (made : List (MarshalledResult × ResultNames)) (fresh : List String), ds = made.map (·.1) ∧
      List.Forall₂ (fun p m => Delivered target p.1 (Job.sourceOf arguments p.1) p.2 m.1 m.2 ∧
        t'.nameFor? scope p.1.name = some m.1.result.native.name) plan made ∧
      Grown scope (plan.map (·.1.name)) fresh (made.flatMap (·.2.declared)) t t' ∧
      ((plan.map (·.1.name)).Nodup → (∀ p ∈ plan, t.nameFor? scope p.1.name = none) →
        fresh = made.flatMap (·.2.own)) ∧
      (∀ others, t.Roster scope others → t'.Roster scope (others ++ made.flatMap (·.2.companions))) ∧
      (made.flatMap (·.2.companions)).Sublist fresh ∧
      ∀ m ∈ made, ∀ n ∈ m.2.inner, n ∉ t'.symbolsOf scope ∧ t'.InnerLocal scope n := by
  induction plan generalizing t ds with
  | nil =>
    obtain ⟨rfl, rfl⟩ := Prod.mk.inj h
    exact ⟨[], [], rfl, .nil, .refl scope t, fun _ _ => rfl, by simp, .slnil, by simp⟩
  | cons p plan ih =>
    rw [List.mapM_cons] at h
    obtain ⟨d, t₁, h₁, h⟩ := Alloc.bind_eq h
    obtain ⟨rest, t₂, h₂, h⟩ := Alloc.bind_eq h
    obtain ⟨rfl, rfl⟩ := Prod.mk.inj h
    have hsource : ∀ a, Job.sourceOf arguments p.1 = .inPlace a →
        t.nameFor? scope p.1.name = some a.argument.native.name := by
      intro a ha
      obtain ⟨hmem, hname⟩ := Job.sourceOf_inPlace ha
      exact hname ▸ hplace a hmem
    obtain ⟨ns, new, hd, hname, g₁, hnew, hinner⟩ := marshalResult_grown hid hsound hsource h₁
    obtain ⟨made, f₂, rfl, hmade, g₂, hf₂, hroster, hsub, hinners⟩ :=
      ih (g₁.lt_size hid) (g₁.sound hsound) (fun a ha => g₁.kept (hplace a ha)) h₂
    refine ⟨(d, ns) :: made, new ++ ns.companions ++ f₂, rfl, .cons ⟨hd, g₂.kept hname⟩ hmade, g₁.trans g₂,
      fun hnd hnone => ?_, fun others h => ?_, ?_, List.forall_mem_cons.2 ⟨fun n hn => ?_, hinners⟩⟩
    · obtain ⟨hnotin, hnd⟩ := List.nodup_cons.1 hnd
      obtain ⟨hnew, hvalue⟩ := hnew (hnone p List.mem_cons_self)
      rw [hnew, ← hvalue, hf₂ hnd fun q hq => ?_, List.flatMap_cons]
      · rfl
      rw [g₁.other scope _ fun _ => ?_, hnone q (List.mem_cons_of_mem _ hq)]
      rw [List.mem_singleton]
      exact fun heq => hnotin (List.mem_map.2 ⟨q, hq, heq⟩)
    · rw [List.flatMap_cons, ← List.append_assoc]
      exact hroster _ (h.grown g₁ hname fun hn => (hnew hn).1)
    · rw [List.flatMap_cons]
      exact (List.sublist_append_right new _).append hsub
    · obtain ⟨hnot, hin, hlocal⟩ := hinner n hn
      exact ⟨g₂.notMem_of_inner hin hnot, g₂.innerLocal hlocal⟩

/-! ### Wrappers -/

theorem Alloc.openFunction_opened {hint name : String} {id : ScopeId} {t t' : ScopeTree}
    (h : openFunction hint t = ((name, id), t')) :
    id < t'.size ∧ t'.symbolsOf id = [] ∧ t'.localsOf id = [] ∧ t'.expectedOf id = [] := by
  obtain ⟨name', t₁, h₁, h⟩ := bind_eq h
  obtain ⟨id', t₂, h₂, h⟩ := bind_eq h
  obtain ⟨hpair, rfl⟩ := Prod.mk.inj h
  obtain ⟨-, rfl⟩ := Prod.mk.inj hpair
  obtain ⟨rfl, rfl⟩ := Prod.mk.inj h₂
  have hnew : (⟨t₁.target, t₁.scopes ++ [⟨name', .function, some root, [], [], [], []⟩]⟩ : ScopeTree).scope? t₁.size =
      some ⟨name', .function, some root, [], [], [], []⟩ := List.getElem?_concat_length
  -- where there is no root the new scope is its own parent
  obtain ⟨s, hs, hempty⟩ : ∃ s, (t₁.newChild root name' .function).2.scope? t₁.size = some s ∧ s.symbols = [] ∧
      s.locals = [] ∧ s.expected = [] := by
    rw [ScopeTree.newChild, scope?_modifyScope, hnew]
    by_cases hroot : root = t₁.size
    · exact ⟨_, by rw [Option.map_some, if_pos hroot], rfl, rfl, rfl⟩
    · exact ⟨_, by rw [Option.map_some, if_neg hroot], rfl, rfl, rfl⟩
  have hview : ∀ {α : Type} (view : Scope → List α), view s = [] →
      (((t₁.newChild root name' .function).2.scope? t₁.size).map view).getD [] = [] := by
    intro α view hv
    rw [hs]
    exact hv
  exact ⟨lt_size hs, hview _ hempty.1, hview _ hempty.2.1, hview _ hempty.2.2⟩

theorem Alloc.openFunction_nameFor? {hint name : String} {id : ScopeId} {t t' : ScopeTree}
    (h : openFunction hint t = ((name, id), t')) (n : String) : t'.nameFor? id n = none := by
  rw [nameFor?, (openFunction_opened h).2.2.2]
  rfl

theorem Alloc.openFunction_sound {hint name : String} {id : ScopeId} {t t' : ScopeTree}
    (h : openFunction hint t = ((name, id), t')) : t'.Sound id where
  owned n x hx := by
    rw [openFunction_nameFor? h] at hx
    cases hx
  locals l hl := by
    rw [(openFunction_opened h).2.2.1] at hl
    cases hl

theorem Alloc.openFunction_roster {hint name : String} {id : ScopeId} {t t' : ScopeTree}
    (h : openFunction hint t = ((name, id), t')) : t'.Roster id [] where
  sound := openFunction_sound h
  injective n n' x hn := by
    rw [openFunction_nameFor? h] at hn
    cases hn
  owned := by simp
  nodup := .nil
  apart := by simp

/-- A job whose types all have forms is wrapped, from any tree of scopes. -/
theorem Job.run_eq_ok {job : Job} {plan : CrossingPlan} (hplan : CrossingPlan.of job.function = .ok plan)
    (target : Target) (t : ScopeTree) :
    job.run target t = (.ok (job.lower target plan t).1, (job.lower target plan t).2) := by
  rw [Job.run, hplan]
  rfl

theorem Job.run_ok {target : Target} {job : Job} {t t' : ScopeTree} {w : Wrapper.Function}
    (h : job.run target t = (.ok w, t')) :
    ∃ plan t₁ t₂ arguments results, CrossingPlan.of job.function = .ok plan ∧
      Alloc.openFunction (Text.lowercase job.hint) t = ((w.name, w.scope), t₁) ∧
      (plan.arguments.mapM fun p =>
        marshalArgument target w.scope p.1 p.2 (Job.needsTemporary job.function p.1 p.2)) t₁ = (arguments, t₂) ∧
      (plan.results.mapM fun p =>
        marshalResult target w.scope p.1 p.2 (Job.sourceOf arguments p.1)) t₂ = (results, t') ∧
      w.origin = job.origin ∧ w.arguments = arguments.map (·.argument) ∧ w.results = results.map (·.result) ∧
      w.body = (CallSite.mk job.callName (results.filterMap (·.target))).body arguments ++
        results.flatMap (·.deferred) ++ Job.release job.function arguments ∧ w.locals = t'.locals w.scope := by
  unfold Job.run at h
  cases hplan : CrossingPlan.of job.function with
  | error e => rw [hplan] at h; cases h
  | ok plan =>
  rw [hplan] at h
  obtain ⟨w', t₀, hlower, hw⟩ := Alloc.bind_eq h
  obtain ⟨rfl, rfl⟩ : w' = w ∧ t₀ = t' := by
    cases hw
    exact ⟨rfl, rfl⟩
  obtain ⟨⟨name, scope⟩, t₁, h₁, h⟩ := Alloc.bind_eq hlower
  obtain ⟨arguments, t₂, h₂, h⟩ := Alloc.bind_eq h
  obtain ⟨results, t₃, h₃, h⟩ := Alloc.bind_eq h
  obtain ⟨locals, t₄, h₄, h⟩ := Alloc.bind_eq h
  obtain ⟨rfl, rfl⟩ := Prod.mk.inj h₄
  obtain ⟨rfl, rfl⟩ := Prod.mk.inj h
  exact ⟨plan, t₁, t₂, arguments, results, rfl, h₁, h₂, h₃, rfl, rfl, rfl, rfl, rfl⟩

/-- A wrapper made for a job between two states of the tree, with what was made for its arguments and results. -/
structure Lowering (target : Target) (job : Job) (t t' : ScopeTree) (w : Wrapper.Function)
    (arguments : List MarshalledArgument) (made : List (MarshalledResult × ResultNames)) : Prop where
  opened : ∃ t₁, Alloc.openFunction (Text.lowercase job.hint) t = ((w.name, w.scope), t₁) ∧ t₁.Extends t'
  origin : w.origin = job.origin
  arguments_eq : w.arguments = arguments.map (·.argument)
  results_eq : w.results = made.map (·.1.result)
  body : w.body = (CallSite.mk job.callName (made.filterMap (·.1.target))).body arguments ++
    made.flatMap (·.1.deferred) ++ Job.release job.function arguments
  own_locals : t'.localsOf w.scope = arguments.flatMap (·.declares) ++ made.flatMap (·.2.declared)
  locals_eq : w.locals = t'.locals w.scope
  marshalled : List.Forall₂ (fun a m => ∃ p, Passing.of? a.type a.optional = some p ∧ Marshalled target a p m)
    job.function.arguments arguments
  delivered : List.Forall₂ (fun r m => ∃ p, Delivery.of? r.type = some p ∧
    Delivered target r (Job.sourceOf arguments r) p m.1 m.2) job.function.results made
  native_eq : ∀ a ∈ arguments, ∀ b ∈ arguments, a.name = b.name → a.argument.native.name = b.argument.native.name
  companions : (arguments.flatMap (·.companions)).Nodup
  owned : ∀ n ∈ arguments.flatMap (·.names) ++ made.flatMap (fun m => m.1.result.native.name :: m.2.own),
    n ∈ t'.symbolsOf w.scope
  inner : ∀ m ∈ made, ∀ n ∈ m.2.inner, n ∉ t'.symbolsOf w.scope
  inner_locals : ∀ m ∈ made, ∀ n ∈ m.2.inner, n ∈ w.locals.map (·.name)
  roster : t'.Roster w.scope (arguments.flatMap (·.companions) ++ made.flatMap (·.2.companions))
  argument_native : ∀ a ∈ arguments, t'.nameFor? w.scope a.name = some a.argument.native.name
  result_native : ∀ m ∈ made, t'.nameFor? w.scope m.1.result.declared.name = some m.1.result.native.name
  argument_names : (job.function.arguments.map (·.name)).Nodup → (arguments.flatMap (·.names)).Nodup
  result_names : (job.function.results.map (·.name)).Nodup →
    (∀ r ∈ job.function.results, ∀ a ∈ job.function.arguments, a.name ≠ r.name) →
    (made.flatMap (·.2.own)).Nodup ∧ ∀ x ∈ made.flatMap (·.2.own), ∀ a ∈ arguments, x ∉ a.names

theorem forall₂_map_eq {α β γ : Type} {f : α → γ} {g : β → γ} {as : List α} {bs : List β}
    (h : List.Forall₂ (fun a b => g b = f a) as bs) : bs.map g = as.map f := by
  induction h with
  | nil => rfl
  | cons hab _ ih => rw [List.map_cons, List.map_cons, hab, ih]

theorem flatMap_eq_of_forall₂ {α β γ : Type} {f : α → List γ} {g : β → List γ} {as : List α} {bs : List β}
    (h : List.Forall₂ (fun a b => g b = f a) as bs) : bs.flatMap g = as.flatMap f := by
  rw [List.flatMap_def, forall₂_map_eq h, ← List.flatMap_def]

theorem Job.run_lowering {target : Target} {job : Job} {t t' : ScopeTree} {w : Wrapper.Function}
    (h : job.run target t = (.ok w, t')) : ∃ arguments made, Lowering target job t t' w arguments made := by
  obtain ⟨plan, t₁, t₂, arguments, results, hplan, h₁, h₂, h₃, horigin, hargs, hres, hbody, hlocals⟩ := Job.run_ok h
  obtain ⟨hpa, hpr⟩ := CrossingPlan.of_ok hplan
  obtain ⟨hid, -, hloc, -⟩ := Alloc.openFunction_opened h₁
  have hnone := Alloc.openFunction_nameFor? h₁
  have hsound := Alloc.openFunction_sound h₁
  obtain ⟨hm, f₂, g₂, hnative, hsub, hf₂, hroster₂⟩ := marshalArguments_grown hid hsound h₂
  have hsound₂ := g₂.sound hsound
  have hnames : ∀ a ∈ arguments, ∀ n ∈ a.names, n ∈ t₂.symbolsOf w.scope := by
    intro a ha n hn
    rcases List.mem_cons.1 hn with rfl | hn
    · exact hsound₂.owned _ _ (hnative a ha)
    · exact g₂.mem_of_fresh (hsub.subset (List.mem_flatMap.2 ⟨a, ha, hn⟩))
  obtain ⟨made, f₃, rfl, hd, g₃, hf₃, hroster₃, hsub₃, hinner⟩ :=
    marshalResults_grown (g₂.lt_size hid) hsound₂ hnative h₃
  have hsound₃ := g₃.sound hsound₂
  have hid₃ := g₃.lt_size (g₂.lt_size hid)
  have hpan : plan.arguments.map (·.1.name) = job.function.arguments.map (·.name) :=
    forall₂_map_eq (hpa.imp fun a p hp => congrArg _ hp.1)
  have hprn : plan.results.map (·.1.name) = job.function.results.map (·.name) :=
    forall₂_map_eq (hpr.imp fun a p hp => congrArg _ hp.1)
  refine ⟨arguments, made, ⟨t₁, h₁, (g₂.trans g₃).extend⟩, horigin, hargs, by rw [hres, List.map_map]; rfl,
    by rw [hbody, List.filterMap_map, List.flatMap_map]; rfl, ?_, hlocals,
    forall₂_trans hpa hm fun a p m hp hm => ⟨p.2, hp.2, hp.1 ▸ hm⟩,
    forall₂_trans hpr hd fun r p m hp hm => ⟨p.2, hp.2, hp.1 ▸ hm.1⟩, ?_, hsub.nodup g₂.nodup, ?_,
    fun m hm n hn => (hinner m hm n hn).1, fun m hm n hn => ?_,
    hroster₃ _ (hroster₂ [] (Alloc.openFunction_roster h₁)), fun a ha => g₃.kept (hnative a ha), fun m hm => ?_, ?_, ?_⟩
  · rw [g₃.locals, g₂.locals, hloc, List.nil_append]
  · intro a ha b hb hab
    have := hnative a ha
    rw [hab, hnative b hb] at this
    exact (Option.some.inj this).symm
  · intro n hn
    rcases List.mem_append.1 hn with hn | hn <;> obtain ⟨x, hx, hn⟩ := List.mem_flatMap.1 hn
    · exact g₃.mono (hnames x hx n hn)
    · obtain ⟨p, -, hd, hname⟩ := exists_of_forall₂_right hd hx
      have hnative := hsound₃.owned _ _ hname
      rcases List.mem_cons.1 hn with rfl | hn
      · exact hnative
      · rcases List.mem_append.1 hn with hn | hn
        · exact hd.eq_of_mem_value hn ▸ hnative
        · exact g₃.mem_of_fresh (hsub₃.subset (List.mem_flatMap.2 ⟨x, hx, hn⟩))
  · rw [hlocals]
    exact (hinner m hm n hn).2.mem_locals hid₃
  · obtain ⟨p, -, hd, hname⟩ := exists_of_forall₂_right hd hm
    rwa [hd.declared_eq]
  · intro hnd
    rw [← hf₂ (hpan ▸ hnd) fun p _ => hnone _]
    exact g₂.nodup
  · intro hnd hother
    have hnew : ∀ p ∈ plan.results, t₂.nameFor? w.scope p.1.name = none := by
      intro p hp
      rw [g₂.other _ _ fun _ => ?_, hnone]
      rw [hpan]
      intro hin
      obtain ⟨a, ha, heq⟩ := List.mem_map.1 hin
      obtain ⟨r, hr, heq'⟩ := List.mem_map.1 (hprn ▸ List.mem_map_of_mem hp)
      exact hother r hr a ha (heq.trans heq'.symm)
    rw [← hf₃ (hprn ▸ hnd) hnew]
    exact ⟨g₃.nodup, fun x hx a ha hxa => g₃.notMem x hx (hnames a ha x hxa)⟩

theorem find?_of_nodup_names {α : Type} {name : α → String} {xs : List α} {x : α} (hnd : (xs.map name).Nodup)
    (hx : x ∈ xs) : xs.find? (name · == name x) = some x := by
  induction xs with
  | nil => cases hx
  | cons y xs ih =>
    obtain ⟨hy, hnd⟩ := List.nodup_cons.1 hnd
    rcases List.mem_cons.1 hx with rfl | hx
    · simp
    · have hne : name y ≠ name x := fun heq => hy (List.mem_map.2 ⟨x, hx, heq.symm⟩)
      rw [List.find?_cons_of_neg (by simpa using hne), ih hnd hx]

theorem MarshalledArgument.declares_sublist (as : List MarshalledArgument) :
    ((as.flatMap (·.declares)).map (·.name)).Sublist (as.flatMap (·.names)) := by
  rw [List.map_flatMap]
  refine .flatMap_right as fun a _ => ?_
  unfold declares names companions
  cases a.argument.abi with
  | direct => exact List.nil_sublist _
  | pointer ptr shape strides =>
    simp only [List.map_cons, List.map_map]
    refine .cons_cons _ (.cons _ ?_)
    have hid : (fun l : Local => l.name) ∘ (fun x => Local.aliased x a.argument.declared.type) = id := rfl
    rw [hid, List.map_id]
    exact List.sublist_append_right _ _

theorem Delivered.declared_sublist {target : Target} {r : Semantic.Result} {source : ResultSource}
    {delivery : Delivery} {d : MarshalledResult} {ns : ResultNames} (h : Delivered target r source delivery d ns) :
    (ns.declared.map (·.name)).Sublist ns.own := by
  have hmade : ∀ delivery value, (((source.made value).map fun _ => source.native r delivery value).map
      (·.name)) = source.made value := by
    intro delivery value
    cases source <;> rfl
  cases h with
  | direct value => rw [hmade]; exact List.sublist_append_left _ _
  | kept value ptr shape => rw [hmade]; exact List.sublist_append_left _ _
  | whole n => exact .cons_cons _ (.cons _ (List.sublist_append_right _ _))
  | filled n isSet counter element =>
    refine .cons_cons _ (.cons _ ?_)
    exact ((List.sublist_append_right n.shape [n.held]).append (List.Sublist.refl [counter]))

theorem MarshalledArgument.name_mem_of_mem_params {m : MarshalledArgument} {p : Parameter}
    (h : p ∈ m.argument.params) : p.name ∈ m.names := by
  unfold names companions
  unfold Argument.params at h
  cases habi : m.argument.abi with
  | direct =>
    rw [habi] at h
    rw [List.mem_singleton.1 h]
    exact List.mem_cons_self
  | pointer ptr shape strides =>
    rw [habi] at h
    refine List.mem_cons_of_mem _ ?_
    rcases List.mem_cons.1 h with rfl | h
    · exact List.mem_cons_self
    · obtain ⟨n, hn, rfl⟩ := List.mem_map.1 h
      exact List.mem_cons_of_mem _ (List.mem_append_left _ hn)

theorem Delivered.name_mem_of_mem_outputs {target : Target} {r : Semantic.Result} {source : ResultSource}
    {delivery : Delivery} {d : MarshalledResult} {ns : ResultNames} (h : Delivered target r source delivery d ns)
    {p : Parameter} (hp : p ∈ d.result.outputs) : p.name ∈ d.result.native.name :: ns.own := by
  have hpointer : ∀ {ptr shape}, d.result.abi = .pointer ptr shape → p.name ∈ ptr :: shape := by
    intro ptr shape habi
    simp only [Result.outputs, Result.slot, Result.shapeParams, habi] at hp
    rcases List.mem_cons.1 hp with rfl | hp
    · exact List.mem_cons_self
    · obtain ⟨n, hn, rfl⟩ := List.mem_map.1 hp
      exact List.mem_cons_of_mem _ hn
  have hcopy : ∀ n : OwnedResult, p.name ∈ n.ptr :: n.shape → p.name ∈ n.names := fun n hmem =>
    List.mem_cons_of_mem _ (List.mem_append_left [n.held] hmem)
  cases h with
  | direct value =>
    rw [List.mem_singleton.1 hp]
    exact List.mem_cons_self
  | kept value ptr shape =>
    exact List.mem_cons_of_mem _ (List.mem_append_right _ (hpointer rfl))
  | whole n => exact List.mem_cons_of_mem _ (hcopy n (hpointer rfl))
  | filled n isSet counter element =>
    exact List.mem_cons_of_mem _ (List.mem_append_left [counter] (hcopy n (hpointer rfl)))

theorem Job.sourceOf_eq (arguments : List MarshalledArgument) (r : Semantic.Result) :
    (r.isArgument && arguments.any (·.name == r.name)) = true ∧ (∃ a, sourceOf arguments r = .inPlace a) ∨
      (r.isArgument && arguments.any (·.name == r.name)) = false ∧ sourceOf arguments r = .call := by
  unfold sourceOf
  cases r.isArgument with
  | false => exact .inr ⟨rfl, rfl⟩
  | true =>
    cases hfind : arguments.find? (·.name == r.name) with
    | none =>
      refine .inr ⟨?_, rfl⟩
      rw [Bool.true_and, ← List.isSome_find?, hfind]
      rfl
    | some a =>
      refine .inl ⟨?_, a, rfl⟩
      rw [Bool.true_and, ← List.isSome_find?, hfind]
      rfl

theorem Job.sourceOf_eq_call {arguments : List MarshalledArgument} {r : Semantic.Result}
    (h : ∀ a ∈ arguments, a.name ≠ r.name) : Job.sourceOf arguments r = .call := by
  rcases Job.sourceOf_eq arguments r with ⟨-, a, hsource⟩ | ⟨-, hsource⟩
  · obtain ⟨ha, hname⟩ := Job.sourceOf_inPlace hsource
    exact absurd hname (h a ha)
  · exact hsource

namespace Lowering

variable {target : Target} {job : Job} {t t' : ScopeTree} {w : Wrapper.Function}
  {arguments : List MarshalledArgument} {made : List (MarshalledResult × ResultNames)}

theorem locals (h : Lowering target job t t' w arguments made) :
    ∃ inner, w.locals = arguments.flatMap (·.declares) ++ made.flatMap (·.2.declared) ++ inner := by
  obtain ⟨inner, hinner⟩ := t'.locals_eq w.scope
  exact ⟨inner, by rw [h.locals_eq, hinner, h.own_locals]⟩

theorem declared_eq (h : Lowering target job t t' w arguments made) :
    arguments.map (·.argument.declared) = job.function.arguments := by
  rw [forall₂_map_eq (f := id) (h.marshalled.imp fun a m ⟨p, _, hm⟩ => hm.declared_eq), List.map_id]

theorem local?_argument (h : Lowering target job t t' w arguments made)
    (hnd : (job.function.arguments.map (·.name)).Nodup) {a : MarshalledArgument} (ha : a ∈ arguments) {l : Local}
    (hl : l ∈ a.declares) : w.local? l.name = some l := by
  obtain ⟨inner, hinner⟩ := h.locals
  have hfind := find?_of_nodup_names
    ((MarshalledArgument.declares_sublist arguments).nodup (h.argument_names hnd)) (List.mem_flatMap.2 ⟨a, ha, hl⟩)
  rw [Function.local?, hinner, List.append_assoc, List.find?_append, hfind]
  rfl

theorem local?_result (h : Lowering target job t t' w arguments made)
    (hnd : (job.function.results.map (·.name)).Nodup)
    (hother : ∀ r ∈ job.function.results, ∀ a ∈ job.function.arguments, a.name ≠ r.name)
    {m : MarshalledResult × ResultNames} (hm : m ∈ made) {l : Local} (hl : l ∈ m.2.declared) :
    w.local? l.name = some l := by
  obtain ⟨inner, hinner⟩ := h.locals
  obtain ⟨hown, hnotin⟩ := h.result_names hnd hother
  have hsub : ((made.flatMap (·.2.declared)).map (·.name)).Sublist (made.flatMap (·.2.own)) := by
    rw [List.map_flatMap]
    refine .flatMap_right made fun x hx => ?_
    obtain ⟨r, -, p, -, hd⟩ := exists_of_forall₂_right h.delivered hx
    exact hd.declared_sublist
  have hfind := find?_of_nodup_names (hsub.nodup hown) (List.mem_flatMap.2 ⟨m, hm, hl⟩)
  have hmem : l.name ∈ made.flatMap (·.2.own) :=
    hsub.subset (List.mem_map_of_mem (List.mem_flatMap.2 ⟨m, hm, hl⟩))
  have hnone : (arguments.flatMap (·.declares)).find? (·.name == l.name) = none := by
    refine List.find?_eq_none.2 fun k hk heq => ?_
    have hk := (MarshalledArgument.declares_sublist arguments).subset (List.mem_map_of_mem hk)
    rw [beq_iff_eq.1 heq] at hk
    obtain ⟨a, ha, hn⟩ := List.mem_flatMap.1 hk
    exact hnotin _ hmem a ha hn
  rw [Function.local?, hinner, List.append_assoc, List.find?_append, hnone, Option.none_or, List.find?_append, hfind]
  rfl

theorem delivered_call (h : Lowering target job t t' w arguments made)
    (hother : ∀ r ∈ job.function.results, ∀ a ∈ job.function.arguments, a.name ≠ r.name) :
    List.Forall₂ (fun r m => ∃ p, Delivery.of? r.type = some p ∧ Delivered target r .call p m.1 m.2)
      job.function.results made := by
  refine ((List.forall₂_and_left _ _).2 ⟨hother, h.delivered⟩).imp ?_
  rintro r m ⟨hr, p, hp, hd⟩
  rw [Job.sourceOf_eq_call fun a ha heq => ?_] at hd
  · exact ⟨p, hp, hd⟩
  · obtain ⟨b, hb, q, -, hm⟩ := exists_of_forall₂_right h.marshalled ha
    exact hr b hb ((congrArg Semantic.Argument.name hm.declared_eq).symm.trans heq)

end Lowering

/-- What a wrapper made for a job consists of: its arguments and results as they were marshalled, and the
body that calls the function with them. -/
structure Lowered (target : Target) (job : Job) (w : Wrapper.Function) (arguments : List MarshalledArgument)
    (results : List MarshalledResult) : Prop where
  origin : w.origin = job.origin
  arguments_eq : w.arguments = arguments.map (·.argument)
  results_eq : w.results = results.map (·.result)
  body : w.body = (CallSite.mk job.callName (results.filterMap (·.target))).body arguments ++
    results.flatMap (·.deferred) ++ Job.release job.function arguments
  marshalled : List.Forall₂ (fun a m => ∃ p, Passing.of? a.type a.optional = some p ∧ Marshalled target a p m)
    job.function.arguments arguments
  deferred : ∀ d ∈ results, blockCalls d.deferred = 0
  native_eq : ∀ a ∈ arguments, ∀ b ∈ arguments, a.name = b.name →
    a.argument.native.name = b.argument.native.name
  companions : (arguments.flatMap (·.companions)).Nodup
  native_apart : ∀ a ∈ arguments, a.argument.native.name ∉ arguments.flatMap (·.companions)
  /-- Arguments of different names share no names, and their locals are declared with their types. -/
  distinct : (job.function.arguments.map (·.name)).Nodup → (arguments.flatMap (·.names)).Nodup ∧
    ∀ a ∈ arguments, ∀ l ∈ a.declares, w.local? l.name = some l

theorem Lowering.lowered {target : Target} {job : Job} {t t' : ScopeTree} {w : Wrapper.Function}
    {arguments : List MarshalledArgument} {made : List (MarshalledResult × ResultNames)}
    (h : Lowering target job t t' w arguments made) : Lowered target job w arguments (made.map (·.1)) := by
  refine ⟨h.origin, h.arguments_eq, by rw [h.results_eq, List.map_map]; rfl,
    by rw [h.body, List.filterMap_map, List.flatMap_map]; rfl, h.marshalled, ?_, h.native_eq,
    h.companions, fun a ha hmem => h.roster.apart _ _ (h.argument_native a ha) (List.mem_append_left _ hmem),
    fun hnd => ⟨h.argument_names hnd, fun a ha l hl => h.local?_argument hnd ha hl⟩⟩
  intro d hd
  obtain ⟨m, hm, rfl⟩ := List.mem_map.1 hd
  obtain ⟨r, -, p, -, hd⟩ := exists_of_forall₂_right h.delivered hm
  exact blockCalls_eq_zero.2 fun s hs => (hd.quiet s hs).callCount_eq_zero

theorem Job.run_lowered {target : Target} {job : Job} {t t' : ScopeTree} {w : Wrapper.Function}
    (h : job.run target t = (.ok w, t')) : ∃ arguments results, Lowered target job w arguments results := by
  obtain ⟨arguments, made, hlow⟩ := Job.run_lowering h
  exact ⟨arguments, _, hlow.lowered⟩

end AbiBridge
