import Mathlib
import AbiBridge.Proofs.Assembly
import AbiBridge.Proofs.LossAccounting

/-!
# The members of a wrapped class

The public methods that can be wrapped become methods of the wrapped class, or properties if they act as such; a public
attribute becomes a property with both accessors, unless its type has no form or a method has taken its name
(`Semantic.Class.Arranged`). `wrapModule_arranged` says that all classes of a module are arranged like this, each member
in the place of its declaration, and that no wrapper stands for a private member.

What a method comes to is decided by its types (`Outcome.Settled`), so the lists of the wrapped class are filters of the
declarations. For attributes this needs their names to be distinct: the work passes over a name that an earlier attribute
has taken (`Semantic.accessed`, `accessed_eq_filter`).
-/

namespace AbiBridge

open Wrapper

/-! ### How members are arranged -/

namespace Semantic.Class

variable (c : Class)

/-- The key of a member. -/
def key (member : String) : MemberKey := ⟨c.name, member⟩

/-- The methods that are wrapped as methods. -/
def callableMethods : List Function := (publicMethods c).filter fun f => f.isWrappable && f.role != .property

/-- The methods that are wrapped as properties. -/
def propertyMethods : List Function := (publicMethods c).filter fun f => f.isWrappable && f.role == .property

/-- The attributes that get accessors. -/
def accessedAttributes : List Attribute :=
  (publicAttributes c).filter fun a => a.isWrappable && !(c.propertyMethods.map (·.name)).contains a.name

end Semantic.Class

/-- The property has the wrapper of the method as its getter and no setter. -/
structure Wrapper.Property.OfMethod (key : MemberKey) (p : Property) : Prop where
  key_eq : p.key = key
  getter : p.getter.origin = .method key
  setter : p.setter = none

/-- The property has both accessors of the attribute. -/
structure Wrapper.Property.OfAttribute (key : MemberKey) (p : Property) : Prop where
  key_eq : p.key = key
  getter : p.getter.origin = .getter key
  setter : ∃ w, p.setter = some w ∧ w.origin = .setter key

/-- Every member that can be wrapped has its place in the wrapped class, in the order of the declarations: methods,
properties from methods, properties from attributes. -/
structure Semantic.Class.Arranged (c : Semantic.Class) (w : Wrapper.Class) : Prop where
  name : w.name = c.name
  methods : w.methods.map (·.origin) = c.callableMethods.map fun f => .method (c.key f.name)
  properties : ∃ fromMethods fromAttributes, w.properties = fromMethods ++ fromAttributes ∧
    List.Forall₂ (fun f p => p.OfMethod (c.key f.name)) c.propertyMethods fromMethods ∧
    List.Forall₂ (fun a p => p.OfAttribute (c.key a.name)) c.accessedAttributes fromAttributes
  keys : (w.properties.map (·.key)).Nodup

/-! ### Methods -/

section Outcomes

variable {origin : Semantic.Function → Origin} {fs : List Semantic.Function} {outcomes : List Outcome}

theorem settled_filter (h : List.Forall₂ (fun f o => o.function = f ∧ o.Settled (origin f)) fs outcomes)
    (p : Semantic.Function → Bool) :
    List.Forall₂ (fun f o => o.function = f ∧ o.Settled (origin f)) (fs.filter p)
      (outcomes.filter (p ·.function)) := by
  induction h with
  | nil => exact .nil
  | cons ho _ ih =>
    obtain ⟨rfl, -⟩ := id ho
    rw [List.filter_cons, List.filter_cons]
    split
    · exact .cons ho ih
    · exact ih

theorem plainMethods_origins (h : List.Forall₂ (fun f o => o.function = f ∧ o.Settled (origin f)) fs outcomes) :
    (plainMethods outcomes).map (·.origin) =
      (fs.filter fun f => f.isWrappable && f.role != .property).map origin := by
  rw [plainMethods, origins_of_settled (settled_filter h (·.role != .property)), List.filter_filter]

theorem methodProperties_of_settled {c : Semantic.Class}
    (h : List.Forall₂ (fun f o => o.function = f ∧ o.Settled (.method (c.key f.name))) fs outcomes) :
    List.Forall₂ (fun f p => p.OfMethod (c.key f.name)) (fs.filter fun f => f.isWrappable && f.role == .property)
      (outcomes.filterMap (methodProperty c)) := by
  induction h with
  | nil => exact .nil
  | cons ho _ ih =>
    obtain ⟨rfl, hsettled⟩ := ho
    cases hsettled with
    | @wrapped f w hfits hmade =>
      by_cases hrole : f.role = .property
      · have hproperty : methodProperty c ⟨f, .ok w⟩ = some ⟨c.key f.name, w, none, w.docstring⟩ := if_pos hrole
        rw [List.filterMap_cons_some hproperty, List.filter_cons_of_pos (by simp [hfits, hrole])]
        exact .cons ⟨rfl, hmade, rfl⟩ ih
      · have hproperty : methodProperty c ⟨f, .ok w⟩ = none := if_neg hrole
        rw [List.filterMap_cons_none hproperty, List.filter_cons_of_neg (by simp [hrole])]
        exact ih
    | @failed f e hfits =>
      have hproperty : methodProperty c ⟨f, .error e⟩ = none := ite_self none
      rw [List.filterMap_cons_none hproperty, List.filter_cons_of_neg (by simp [hfits])]
      exact ih

end Outcomes

/-! ### Attributes -/

theorem wrapAttribute_accessors {target : Target} {c : Semantic.Class} {a : Semantic.Attribute} {p : Property}
    {t t' : ScopeTree} (h : wrapAttribute target c a t = (.ok p, t')) : p.OfAttribute (c.key a.name) := by
  obtain ⟨delivery, passing, t₁, setter, -, -, hgetter, hsetter, hp⟩ := wrapAttribute_ok h
  rcases wrapAttribute_cases target c a t with ⟨-, q, t₂, hrun, hkey⟩ | ⟨-, e, hrun, -⟩
  · cases h.symm.trans hrun
    exact ⟨hkey, (congrArg (·.1.origin) hgetter).symm, setter, hp, (congrArg (·.1.origin) hsetter).symm⟩
  · cases h.symm.trans hrun

/-- Those of the attributes that get accessors where some names are taken: of several of one name, the first that can be
wrapped. -/
def Semantic.accessed (taken : List String) : List Attribute → List Attribute
  | [] => []
  | a :: rest =>
    if taken.contains a.name then accessed taken rest
    else if a.isWrappable then a :: accessed (a.name :: taken) rest
    else accessed taken rest

theorem wrapAttributes_accessors {target : Target} {moduleName : String} {c : Semantic.Class} {taken : List String}
    {attributes : List Semantic.Attribute} {t t' : ScopeTree} {r : Reported (List Property)}
    (h : wrapAttributes target moduleName c taken attributes t = (r, t')) :
    List.Forall₂ (fun a p => p.OfAttribute (c.key a.name)) (Semantic.accessed taken attributes) r.value := by
  induction attributes generalizing taken t r with
  | nil =>
    obtain ⟨rfl, rfl⟩ := Prod.mk.inj h
    exact .nil
  | cons a attributes ih =>
    unfold wrapAttributes at h
    unfold Semantic.accessed
    by_cases hin : taken.contains a.name = true
    · rw [if_pos hin] at h ⊢
      exact ih h
    · rw [if_neg hin] at h ⊢
      obtain ⟨made, t₁, h₁, h₂⟩ := Alloc.bind_eq h
      rcases wrapAttribute_cases target c a t with ⟨hfits, p, t₂, hrun, -⟩ | ⟨hfits, e, hrun, -⟩ <;>
        obtain ⟨rfl, rfl⟩ := Prod.mk.inj (h₁.symm.trans hrun) <;>
        obtain ⟨more, t₃, h₃, h₄⟩ := Alloc.bind_eq h₂ <;>
        obtain ⟨rfl, rfl⟩ := Prod.mk.inj h₄ <;>
        have hmore := ih h₃
      · rw [if_pos hfits]
        exact .cons (wrapAttribute_accessors hrun) hmore
      · rw [if_neg (by simp [hfits])]
        exact hmore

/-- Where no two attributes have one name, those with accessors are the ones whose names are free from the start. -/
theorem accessed_eq_filter {attributes : List Semantic.Attribute} (hnames : (attributes.map (·.name)).Nodup)
    (taken : List String) :
    Semantic.accessed taken attributes = attributes.filter fun a => a.isWrappable && !taken.contains a.name := by
  induction attributes generalizing taken with
  | nil => rfl
  | cons a attributes ih =>
    obtain ⟨ha, hnames⟩ := List.nodup_cons.1 hnames
    -- the name that is taken now is none of the later ones
    have hlater : attributes.filter (fun b => b.isWrappable && !(a.name :: taken).contains b.name) =
        attributes.filter fun b => b.isWrappable && !taken.contains b.name := by
      refine List.filter_congr fun b hb => ?_
      have hne : b.name ≠ a.name := fun heq => ha (List.mem_map.2 ⟨b, hb, heq⟩)
      rw [List.contains_cons, beq_false_of_ne hne, Bool.false_or]
    rw [Semantic.accessed, ih hnames, ih hnames, hlater, List.filter_cons]
    cases a.isWrappable <;> cases taken.contains a.name <;> rfl

/-! ### Classes -/

section Classes

variable {target : Target} {moduleName : String} {t t' : ScopeTree}

theorem nodup_propertyNames {c : Semantic.Class} (hmethods : (c.methods.map (·.name)).Nodup)
    (hattributes : (c.attributes.map (·.name)).Nodup) :
    (c.propertyMethods.map (·.name) ++ c.accessedAttributes.map (·.name)).Nodup := by
  have hsub : (c.propertyMethods.map (·.name)).Sublist (c.methods.map (·.name)) :=
    (List.filter_sublist.trans List.filter_sublist).map _
  have hsub' : (c.accessedAttributes.map (·.name)).Sublist (c.attributes.map (·.name)) :=
    (List.filter_sublist.trans List.filter_sublist).map _
  refine (hsub.nodup hmethods).append (hsub'.nodup hattributes) fun name hname hname' => ?_
  obtain ⟨a, ha, rfl⟩ := List.mem_map.1 hname'
  have hfree := (List.mem_filter.1 ha).2
  simp only [Bool.and_eq_true, Bool.not_eq_true', List.contains_eq_mem, decide_eq_false_iff_not] at hfree
  exact hfree.2 hname

theorem property_keys {c : Semantic.Class} {fs : List Semantic.Function} {as : List Semantic.Attribute}
    {ps qs : List Property} (hfs : List.Forall₂ (fun f p => p.OfMethod (c.key f.name)) fs ps)
    (has : List.Forall₂ (fun a p => p.OfAttribute (c.key a.name)) as qs) :
    (ps ++ qs).map (·.key) = (fs.map (·.name) ++ as.map (·.name)).map c.key := by
  rw [List.map_append, List.map_append, List.map_map, List.map_map]
  exact congrArg₂ (· ++ ·) (forall₂_map_eq (hfs.imp fun f p hp => hp.key_eq))
    (forall₂_map_eq (has.imp fun a p hp => hp.key_eq))

theorem wrapClass_arranged {c : Semantic.Class} {r : Reported Wrapper.Class}
    (hmethods : (c.methods.map (·.name)).Nodup) (hattributes : (c.attributes.map (·.name)).Nodup)
    (h : wrapClass target moduleName c t = (r, t')) : c.Arranged r.value := by
  obtain ⟨allocator, t₁, h₁, h⟩ := Alloc.bind_eq h
  obtain ⟨outcomes, t₂, h₂, h⟩ := Alloc.bind_eq h
  obtain ⟨attributes, t₃, h₃, h⟩ := Alloc.bind_eq h
  obtain ⟨rfl, rfl⟩ := Prod.mk.inj h
  have hsettled := outcomes_settled (methodJob c) (fun _ => rfl) h₂
  have hproperties : List.Forall₂ _ c.propertyMethods _ := methodProperties_of_settled hsettled
  have hnames : (outcomes.filterMap (methodProperty c)).map (·.key.member) = c.propertyMethods.map (·.name) :=
    forall₂_map_eq (hproperties.imp fun f p hp => congrArg MemberKey.member hp.key_eq)
  have hpublic : ((publicAttributes c).map (·.name)).Nodup := (List.filter_sublist.map _).nodup hattributes
  have haccessors := wrapAttributes_accessors h₃
  rw [hnames, accessed_eq_filter hpublic] at haccessors
  refine ⟨rfl, plainMethods_origins hsettled, ⟨_, _, rfl, hproperties, haccessors⟩, ?_⟩
  rw [property_keys hproperties haccessors]
  exact (nodup_propertyNames hmethods hattributes).map fun x y hxy => congrArg MemberKey.member hxy

theorem wrapClassList_each {classes : List Semantic.Class} {r : Reported (List Wrapper.Class)}
    (h : wrapClassList target moduleName classes t = (r, t')) :
    List.Forall₂ (fun c w => ∃ t one t', wrapClass target moduleName c t = (one, t') ∧ one.value = w)
      classes r.value := by
  induction classes generalizing t r with
  | nil =>
    obtain ⟨rfl, rfl⟩ := Prod.mk.inj h
    exact .nil
  | cons c classes ih =>
    obtain ⟨one, t₁, h₁, h⟩ := Alloc.bind_eq h
    obtain ⟨more, t₂, h₂, h⟩ := Alloc.bind_eq h
    obtain ⟨rfl, rfl⟩ := Prod.mk.inj h
    exact .cons ⟨t, one, t₁, h₁, rfl⟩ (ih h₂)

theorem wrapModule_classes {m : Semantic.Module} {r : Reported WrappedModule} (h : wrapModule target m = .ok r) :
    List.Forall₂ (fun c w => ∃ t one t', wrapClass target m.name c t = (one, t') ∧ one.value = w)
      (exposedClasses target m) r.value.module.classes := by
  obtain ⟨parts, hparts, hmodule⟩ := wrapModule_parts h
  obtain ⟨outcomes, t₁, h₁, hparts⟩ := Alloc.bind_eq hparts
  obtain ⟨classes, t₂, h₂, hparts⟩ := Alloc.bind_eq hparts
  obtain ⟨globals, t₃, h₃, hparts⟩ := Alloc.bind_eq hparts
  obtain ⟨name, t₄, h₄, hparts⟩ := Alloc.bind_eq hparts
  cases hparts
  rw [← hmodule]
  unfold wrapClasses at h₂
  unfold exposedClasses
  by_cases hclasses : target.supportsClasses = true
  · rw [if_pos hclasses] at h₂ ⊢
    exact wrapClassList_each h₂
  · rw [if_neg hclasses] at h₂ ⊢
    cases h₂
    exact .nil

end Classes

/-! ### Private members -/

section Private

variable {target : Target} {t t' : ScopeTree} {w : Wrapper.Function} {key : MemberKey}

theorem MemberMade.origin_cases {c : Semantic.Class} (h : MemberMade target c t t' w) :
    (∃ f ∈ publicMethods c, w.origin = .method (c.key f.name)) ∨
      ∃ a ∈ publicAttributes c, w.origin = .getter (c.key a.name) ∨ w.origin = .setter (c.key a.name) := by
  cases h with
  | method f hf h =>
    rcases (methodJob c f).run_cases target t with ⟨-, w', t₁, hrun, horigin⟩ | ⟨-, e, hrun, -⟩
    · cases h.symm.trans hrun
      exact .inl ⟨f, hf, horigin⟩
    · cases h.symm.trans hrun
  | getter a ha delivery hd h => exact .inr ⟨a, ha, .inl (congrArg (·.1.origin) h).symm⟩
  | setter a ha passing hp h => exact .inr ⟨a, ha, .inr (congrArg (·.1.origin) h).symm⟩

theorem Made.exists_member {m : Semantic.Module} (h : Made target m t t' w)
    (horigin : w.origin = .method key ∨ w.origin = .getter key ∨ w.origin = .setter key) :
    ∃ c ∈ m.classes, MemberMade target c t t' w := by
  cases h with
  | function f hf h =>
    rcases (functionJob f).run_cases target t with ⟨-, w', t₁, hrun, hfunction⟩ | ⟨-, e, hrun, -⟩
    · cases h.symm.trans hrun
      simp [hfunction, functionJob] at horigin
    · cases h.symm.trans hrun
  | allocator c hc h =>
    have hallocator : w.origin = .allocator c.name := (congrArg (·.1.origin) h).symm
    simp [hallocator] at horigin
  | member c hc h => exact ⟨c, hc, h⟩
  | accessor v h =>
    have haccessor : w.origin = .variableAccessor v.name := (congrArg (·.1.origin) h).symm
    simp [haccessor] at horigin

/-- No wrapper stands for a private member of the class. -/
structure Semantic.Class.Guarded (c : Semantic.Class) (ws : List Wrapper.Function) : Prop where
  attributes : ∀ a ∈ c.attributes, a.isPrivate = true → ∀ w ∈ ws,
    w.origin ≠ .getter (c.key a.name) ∧ w.origin ≠ .setter (c.key a.name)
  methods : ∀ f ∈ c.methods, f.isPrivate = true → ∀ w ∈ ws, w.origin ≠ .method (c.key f.name)

theorem Made.exists_method {m : Semantic.Module} (h : Made target m t t' w) (horigin : w.origin = .method key) :
    ∃ c ∈ m.classes, ∃ f ∈ publicMethods c, key = c.key f.name := by
  obtain ⟨c, hc, h⟩ := h.exists_member (.inl horigin)
  rcases h.origin_cases with ⟨f, hf, h⟩ | ⟨a, -, h | h⟩
  · exact ⟨c, hc, f, hf, Origin.method.inj (horigin.symm.trans h)⟩
  · cases horigin.symm.trans h
  · cases horigin.symm.trans h

theorem Made.exists_attribute {m : Semantic.Module} (h : Made target m t t' w)
    (horigin : w.origin = .getter key ∨ w.origin = .setter key) :
    ∃ c ∈ m.classes, ∃ a ∈ publicAttributes c, key = c.key a.name := by
  obtain ⟨c, hc, h⟩ := h.exists_member (.inr horigin)
  rcases h.origin_cases with ⟨f, -, h⟩ | ⟨a, ha, h⟩
  · simp [h] at horigin
  · refine ⟨c, hc, a, ha, ?_⟩
    rcases horigin with horigin | horigin <;> rcases h with h | h <;> cases horigin.symm.trans h <;> rfl

/-- Members of one name in classes of one name are the same, so one that is private is not among the public ones. -/
theorem wrapModule_guarded {m : Semantic.Module} {r : Reported WrappedModule} (h : wrapModule target m = .ok r)
    (hclasses : (m.classes.map (·.name)).Nodup) {c : Semantic.Class} (hc : c ∈ m.classes)
    (hmethods : (c.methods.map (·.name)).Nodup) (hattributes : (c.attributes.map (·.name)).Nodup) :
    c.Guarded r.value.module.allFunctions := by
  have hsame : ∀ d ∈ m.classes, ∀ {x y}, c.key x = d.key y → c = d ∧ x = y := by
    intro d hd x y hkey
    exact ⟨List.inj_on_of_nodup_map hclasses hc hd (congrArg MemberKey.className hkey),
      congrArg MemberKey.member hkey⟩
  have hattribute : ∀ a ∈ c.attributes, a.isPrivate = true → ∀ w ∈ r.value.module.allFunctions,
      ¬(w.origin = .getter (c.key a.name) ∨ w.origin = .setter (c.key a.name)) := by
    intro a ha hprivate w hw horigin
    obtain ⟨t, t', -, -, hmade⟩ := wrapModule_made h hw
    obtain ⟨d, hd, b, hb, hkey⟩ := hmade.exists_attribute horigin
    obtain ⟨rfl, hname⟩ := hsame d hd hkey
    obtain ⟨hb, hpublic⟩ := List.mem_filter.1 hb
    obtain rfl := List.inj_on_of_nodup_map hattributes ha hb hname
    simp [hprivate] at hpublic
  refine ⟨fun a ha hprivate w hw => not_or.1 (hattribute a ha hprivate w hw), fun f hf hprivate w hw horigin => ?_⟩
  obtain ⟨t, t', -, -, hmade⟩ := wrapModule_made h hw
  obtain ⟨d, hd, g, hg, hkey⟩ := hmade.exists_method horigin
  obtain ⟨rfl, hname⟩ := hsame d hd hkey
  obtain ⟨hg, hpublic⟩ := List.mem_filter.1 hg
  obtain rfl := List.inj_on_of_nodup_map hmethods hf hg hname
  simp [hprivate] at hpublic

end Private

/-! ### Main statement -/

/-- Every class of a module whose members have distinct names is arranged, and keeps its private members to itself. -/
theorem wrapModule_arranged {m : Semantic.Module} (hname : isIdentifier m.name = true)
    (hclasses : (m.classes.map (·.name)).Nodup) :
    ∃ r, wrapModule .fortran m = .ok r ∧
      List.Forall₂ (fun c wc => (c.methods.map (·.name)).Nodup → (c.attributes.map (·.name)).Nodup →
        c.Arranged wc ∧ c.Guarded r.value.module.allFunctions) m.classes r.value.module.classes := by
  obtain ⟨r, hr⟩ := wrapModule_ok .fortran hname
  have hclass : List.Forall₂ (fun c wc => c ∈ m.classes ∧ ∃ t one t', wrapClass .fortran m.name c t = (one, t') ∧
      one.value = wc) m.classes r.value.module.classes :=
    (List.forall₂_and_left _ _).2 ⟨fun c hc => hc, wrapModule_classes hr⟩
  refine ⟨r, hr, hclass.imp fun c wc hc hmethods hattributes => ?_⟩
  obtain ⟨hc, t, one, t', hwrap, rfl⟩ := hc
  exact ⟨wrapClass_arranged hmethods hattributes hwrap, wrapModule_guarded hr hclasses hc hmethods hattributes⟩

/-- A method that would be a property cannot be wrapped, and another has taken the name of an attribute. -/
def shelf : Semantic.Class where
  name := "Shelf"
  methods := [
    { name := "push", arguments := [{ name := "self", type := .object "Shelf", bound := true },
      { name := "item", type := .scalar .int32 }] },
    { name := "size", arguments := [{ name := "self", type := .object "Shelf", bound := true }],
      results := [{ name := "n", type := .scalar .int64 }], role := .property },
    { name := "spare", arguments := [{ name := "self", type := .object "Shelf", bound := true }],
      results := [{ name := "r", type := .tuple [] }], role := .property },
    { name := "audit", arguments := [{ name := "self", type := .object "Shelf", bound := true }], isPrivate := true },
    { name := "close", arguments := [{ name := "self", type := .object "Shelf", bound := true }],
      role := .destructor }]
  attributes := [
    { name := "spare", type := .scalar .int64 }, { name := "size", type := .scalar .int64 },
    { name := "secret", type := .scalar .int64, isPrivate := true },
    { name := "range", type := .uniformTuple (.scalar .int32) (some 2) },
    { name := "items", type := .list (.scalar .int32) }]

theorem wrapModule_arranged_shelf :
    ∃ r wc, wrapModule .fortran { name := "shelves", classes := [shelf] } = .ok r ∧
      r.value.module.classes = [wc] ∧
      wc.methods.map (·.origin) = [.method ⟨"Shelf", "push"⟩, .method ⟨"Shelf", "close"⟩] ∧
      wc.properties.map (·.key) = [⟨"Shelf", "size"⟩, ⟨"Shelf", "spare"⟩, ⟨"Shelf", "items"⟩] ∧
      ∀ w ∈ r.value.module.allFunctions, w.origin ≠ .getter ⟨"Shelf", "secret"⟩ := by
  obtain ⟨r, hr, hclass⟩ := wrapModule_arranged (m := { name := "shelves", classes := [shelf] }) rfl (by simp)
  obtain ⟨wc, rest, hwc, hrest, hclasses⟩ := List.forall₂_cons_left_iff.1 hclass
  obtain rfl := List.forall₂_nil_left_iff.1 hrest
  obtain ⟨harranged, hguarded⟩ := hwc (by decide) (by decide)
  obtain ⟨fromMethods, fromAttributes, hproperties, hmethods, hattributes⟩ := harranged.properties
  have hkeys := property_keys hmethods hattributes
  rw [← hproperties] at hkeys
  refine ⟨r, wc, hr, hclasses, harranged.methods.trans (by decide), hkeys.trans (by decide), fun w hw => ?_⟩
  exact (hguarded.attributes _ (List.mem_of_getElem? (i := 2) rfl) rfl w hw).1

end AbiBridge
