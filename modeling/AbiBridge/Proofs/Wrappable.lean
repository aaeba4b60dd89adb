import Mathlib
import AbiBridge.Wrap.Module
import AbiBridge.Proofs.Lowering

/-!
# What can be wrapped

Whether a function, an attribute or a variable can be wrapped is a matter of its types alone: the predicates
`isWrappable` below say when, and `Job.run_cases`, `wrapAttribute_cases` and `wrapVariable_cases` that the work comes
to what they say. One that cannot be wrapped is reported with the severity that its types decide, and the scope tree
is then as it was before.
-/

namespace AbiBridge

open Wrapper

/-! ### Types -/

namespace ValueType

/-- There is a form for arguments of the type. -/
def isPassable : ValueType → Bool
  | .functionRef | .tuple _ => false
  | _ => true

/-- There is a form for results of the type. -/
def isDeliverable : ValueType → Bool
  | .functionRef | .tuple _ | .uniformTuple _ none => false
  | _ => true

def isFunctionRef : ValueType → Bool
  | .functionRef => true
  | _ => false

end ValueType

theorem Passing.isSome_of? (type : ValueType) (optional : Bool) :
    (Passing.of? type optional).isSome = type.isPassable := by
  cases type <;> rfl

theorem Delivery.isSome_of? (type : ValueType) : (Delivery.of? type).isSome = type.isDeliverable := by
  cases type with
  | uniformTuple _ length => cases length <;> rfl
  | _ => rfl

/-! ### Functions -/

namespace Semantic.Function

/-- Every argument has a form. -/
def isPassable (f : Function) : Bool := f.arguments.all (·.type.isPassable)

/-- Every result has a form. -/
def isDeliverable (f : Function) : Bool := f.results.all (·.type.isDeliverable)

def isWrappable (f : Function) : Bool := f.isPassable && f.isDeliverable

/-- How it is reported that a function cannot be wrapped. Its arguments are looked at first. -/
def lossSeverity (f : Function) : Severity := if f.isPassable then .fatal else .warning

end Semantic.Function

theorem mapM_except_cases {ε α β : Type} {f : α → Except ε β} {fits : α → Bool} {P : ε → Prop}
    (hok : ∀ a, fits a = true → ∃ b, f a = .ok b) (herror : ∀ a, fits a = false → ∃ e, f a = .error e ∧ P e)
    (l : List α) :
    (l.all fits = true ∧ ∃ bs, l.mapM f = .ok bs) ∨ (l.all fits = false ∧ ∃ e, l.mapM f = .error e ∧ P e) := by
  induction l with
  | nil => exact .inl ⟨rfl, [], rfl⟩
  | cons a l ih =>
    rw [List.mapM_cons]
    cases ha : fits a with
    | false =>
      obtain ⟨e, he, hP⟩ := herror a ha
      exact .inr ⟨by rw [List.all_cons, ha, Bool.false_and], e, by rw [he]; rfl, hP⟩
    | true =>
      obtain ⟨b, hb⟩ := hok a ha
      rcases ih with ⟨hl, bs, hbs⟩ | ⟨hl, e, he, hP⟩
      · exact .inl ⟨by rw [List.all_cons, ha, hl]; rfl, b :: bs, by rw [hb, hbs]; rfl⟩
      · exact .inr ⟨by rw [List.all_cons, ha, hl]; rfl, e, by rw [hb, he]; rfl, hP⟩

namespace CrossingPlan

theorem argument_ok (label : String) (a : Semantic.Argument) (h : a.type.isPassable = true) :
    ∃ p, argument label a = .ok p := by
  rw [← Passing.isSome_of? a.type a.optional] at h
  obtain ⟨p, hp⟩ := Option.isSome_iff_exists.1 h
  exact ⟨(a, p), by rw [argument, hp]⟩

theorem argument_error (label : String) (a : Semantic.Argument) (h : a.type.isPassable = false) :
    ∃ e, argument label a = .error e ∧ e.severity = .warning := by
  rw [← Passing.isSome_of? a.type a.optional, Option.isSome_eq_false_iff, Option.isNone_iff_eq_none] at h
  exact ⟨.unsupportedArgument label a.name a.type, by rw [argument, h], rfl⟩

theorem result_ok (label : String) (r : Semantic.Result) (h : r.type.isDeliverable = true) :
    ∃ p, result label r = .ok p := by
  rw [← Delivery.isSome_of?] at h
  obtain ⟨p, hp⟩ := Option.isSome_iff_exists.1 h
  exact ⟨(r, p), by rw [result, hp]⟩

theorem result_error (label : String) (r : Semantic.Result) (h : r.type.isDeliverable = false) :
    ∃ e, result label r = .error e ∧ e.severity = .fatal := by
  rw [← Delivery.isSome_of?, Option.isSome_eq_false_iff, Option.isNone_iff_eq_none] at h
  exact ⟨.unsupportedResult label r.name r.type, by rw [result, h], rfl⟩

theorem of_cases (f : Semantic.Function) :
    (f.isWrappable = true ∧ ∃ plan, CrossingPlan.of f = .ok plan) ∨
      (f.isWrappable = false ∧ ∃ e, CrossingPlan.of f = .error e ∧ e.severity = f.lossSeverity) := by
  unfold CrossingPlan.of Semantic.Function.isWrappable Semantic.Function.lossSeverity
  rcases mapM_except_cases (argument_ok f.name) (argument_error f.name) f.arguments with
    ⟨hargs, as, has⟩ | ⟨hargs, e, he, hseverity⟩
  · have hpass : f.isPassable = true := hargs
    rcases mapM_except_cases (result_ok f.name) (result_error f.name) f.results with
      ⟨hres, rs, hrs⟩ | ⟨hres, e, he, hseverity⟩
    · have hdeliver : f.isDeliverable = true := hres
      exact .inl ⟨by rw [hpass, hdeliver]; rfl, ⟨as, rs⟩, by rw [has, hrs]; rfl⟩
    · have hdeliver : f.isDeliverable = false := hres
      exact .inr ⟨by rw [hpass, hdeliver]; rfl, e, by rw [has, he]; rfl, by rw [hseverity, if_pos hpass]⟩
  · have hpass : f.isPassable = false := hargs
    exact .inr ⟨by rw [hpass]; rfl, e, by rw [he]; rfl, by rw [hseverity, if_neg (by simp [hpass])]⟩

end CrossingPlan

theorem Job.run_cases (target : Target) (job : Job) (t : ScopeTree) :
    (job.function.isWrappable = true ∧ ∃ w t', job.run target t = (.ok w, t') ∧ w.origin = job.origin) ∨
      (job.function.isWrappable = false ∧
        ∃ e, job.run target t = (.error e, t) ∧ e.severity = job.function.lossSeverity) := by
  rcases CrossingPlan.of_cases job.function with ⟨hf, plan, hplan⟩ | ⟨hf, e, he, hseverity⟩
  · exact .inl ⟨hf, _, _, Job.run_eq_ok hplan target t, rfl⟩
  · exact .inr ⟨hf, e, by rw [Job.run, he]; rfl, hseverity⟩

/-- The outcome of a function is the one that its types decide. -/
inductive Outcome.Settled (origin : Origin) : Outcome → Prop
  | wrapped {f : Semantic.Function} {w : Wrapper.Function} (fits : f.isWrappable = true) (made : w.origin = origin) :
    Settled origin ⟨f, .ok w⟩
  | failed {f : Semantic.Function} {e : WrapFailure} (fits : f.isWrappable = false)
    (reported : e.severity = f.lossSeverity) : Settled origin ⟨f, .error e⟩

def Outcome.isWrapped (o : Outcome) : Bool := o.wrapper?.isSome

section Outcomes

variable {target : Target} (job : Semantic.Function → Job) {fs : List Semantic.Function} {outcomes : List Outcome}
  {t t' : ScopeTree}

theorem outcomes_settled (hjob : ∀ f, (job f).function = f)
    (h : (fs.mapM fun f => do return (⟨f, ← (job f).run target⟩ : Outcome)) t = (outcomes, t')) :
    List.Forall₂ (fun f o => o.function = f ∧ o.Settled (job f).origin) fs outcomes := by
  induction fs generalizing t outcomes with
  | nil =>
    obtain ⟨rfl, rfl⟩ := Prod.mk.inj h
    exact .nil
  | cons f fs ih =>
    rw [List.mapM_cons] at h
    obtain ⟨o, t₁, h₁, h⟩ := Alloc.bind_eq h
    obtain ⟨rest, t₂, h₂, h⟩ := Alloc.bind_eq h
    obtain ⟨rfl, rfl⟩ := Prod.mk.inj h
    obtain ⟨made, t₀, h₀, h₁⟩ := Alloc.bind_eq h₁
    obtain ⟨rfl, rfl⟩ := Prod.mk.inj h₁
    refine .cons ⟨rfl, ?_⟩ (ih h₂)
    have hcases := (job f).run_cases target t
    rw [hjob f] at hcases
    rcases hcases with ⟨hf, w, t', hrun, horigin⟩ | ⟨hf, e, hrun, hseverity⟩ <;>
      obtain ⟨rfl, -⟩ := Prod.mk.inj (h₀.symm.trans hrun)
    · exact .wrapped hf horigin
    · exact .failed hf hseverity

/-- A function that cannot be wrapped leaves the tree as it is, so it might as well not be there. -/
theorem outcomes_filter (hjob : ∀ f, (job f).function = f)
    (h : (fs.mapM fun f => do return (⟨f, ← (job f).run target⟩ : Outcome)) t = (outcomes, t')) :
    ((fs.filter Semantic.Function.isWrappable).mapM fun f => do return (⟨f, ← (job f).run target⟩ : Outcome)) t =
      (outcomes.filter Outcome.isWrapped, t') := by
  induction fs generalizing t outcomes with
  | nil =>
    obtain ⟨rfl, rfl⟩ := Prod.mk.inj h
    rfl
  | cons f fs ih =>
    rw [List.mapM_cons] at h
    obtain ⟨o, t₁, h₁, h⟩ := Alloc.bind_eq h
    obtain ⟨rest, t₂, h₂, h⟩ := Alloc.bind_eq h
    obtain ⟨rfl, rfl⟩ := Prod.mk.inj h
    have hrest := ih h₂
    obtain ⟨made, t₀, h₀, h₁'⟩ := Alloc.bind_eq h₁
    obtain ⟨rfl, rfl⟩ := Prod.mk.inj h₁'
    have hcases := (job f).run_cases target t
    rw [hjob f] at hcases
    rcases hcases with ⟨hf, w, t', hrun, -⟩ | ⟨hf, e, hrun, -⟩ <;>
      obtain ⟨rfl, rfl⟩ := Prod.mk.inj (h₀.symm.trans hrun)
    · rw [List.filter_cons_of_pos hf, List.mapM_cons, Alloc.bind_of_eq h₁, Alloc.bind_of_eq hrest,
        List.filter_cons_of_pos (by rfl)]
      rfl
    · rw [List.filter_cons_of_neg (by simp [hf]), hrest, List.filter_cons_of_neg (by simp [Outcome.isWrapped,
        Outcome.wrapper?, Except.toOption])]

end Outcomes

/-! ### Attributes -/

namespace Semantic.Attribute

/-- An attribute of this type becomes a property. -/
def isWrappable (a : Attribute) : Bool := !(a.type.isTuple || a.type.isFunctionRef)

def lossSeverity (a : Attribute) : Severity := if a.type.isFunctionRef then .fatal else .warning

end Semantic.Attribute

theorem attributeForms_cases (c : Semantic.Class) (a : Semantic.Attribute) :
    (a.isWrappable = true ∧ ∃ forms, attributeForms c a = .ok forms) ∨
      (a.isWrappable = false ∧ ∃ e, attributeForms c a = .error e ∧ e.severity = a.lossSeverity) := by
  obtain ⟨name, type, isPrivate, isAlias⟩ := a
  cases type with
  | tuple => exact .inr ⟨rfl, _, rfl, rfl⟩
  | uniformTuple => exact .inr ⟨rfl, _, rfl, rfl⟩
  | functionRef => exact .inr ⟨rfl, _, rfl, rfl⟩
  | _ => exact .inl ⟨rfl, _, rfl⟩

theorem wrapAttribute_cases (target : Target) (c : Semantic.Class) (a : Semantic.Attribute) (t : ScopeTree) :
    (a.isWrappable = true ∧
        ∃ p t', wrapAttribute target c a t = (.ok p, t') ∧ p.key = ⟨c.name, a.name⟩) ∨
      (a.isWrappable = false ∧ ∃ e, wrapAttribute target c a t = (.error e, t) ∧ e.severity = a.lossSeverity) := by
  rcases attributeForms_cases c a with ⟨ha, forms, hforms⟩ | ⟨ha, e, he, hseverity⟩
  · refine .inl ⟨ha, _, _, by rw [wrapAttribute, hforms]; rfl, rfl⟩
  · exact .inr ⟨ha, e, by rw [wrapAttribute, he]; rfl, hseverity⟩

/-! ### Variables -/

/-- A variable of this type is exposed. -/
def Semantic.Variable.isWrappable (v : Semantic.Variable) : Bool := v.type.isScalar || v.type.isArray

theorem wrapVariable_cases (target : Target) (v : Semantic.Variable) (t : ScopeTree) :
    (v.isWrappable = true ∧ ∃ w t', wrapVariable target v t = (.ok w, t')) ∨
      (v.isWrappable = false ∧ ∃ e, wrapVariable target v t = (.error e, t) ∧ e.severity = .warning) := by
  obtain ⟨name, type, isPrivate, span⟩ := v
  cases type with
  | scalar => exact .inl ⟨rfl, _, _, rfl⟩
  | array => exact .inl ⟨rfl, _, _, rfl⟩
  | _ => exact .inr ⟨rfl, _, rfl, rfl⟩

/-! ### Modules -/

theorem wrapModule_of_parts {target : Target} {m : Semantic.Module} {r : Reported Wrapper.Module} {t' : ScopeTree}
    (hname : isIdentifier m.name = true) (h : wrapParts target m (.new target m.name m.usedSymbols) = (r, t')) :
    wrapModule target m = .ok ⟨⟨r.value, t'⟩, r.reports⟩ := by
  have hrun : (wrapParts target m).run (.new target m.name m.usedSymbols) = (r, t') := h
  rw [wrapModule, if_pos hname, hrun]

/-- Something of each kind that cannot be wrapped, among things that can. -/
def patchyModule : Semantic.Module where
  name := "patchy"
  globals := [
    { name := "names", type := .set (.scalar .int32) },
    { name := "cells", type := .array .float64 2 .rowMajor }]
  functions := [
    { name := "visit", arguments := [{ name := "f", type := .functionRef }],
      results := [{ name := "r", type := .tuple [] }] },
    { name := "split", arguments := [], results := [{ name := "r", type := .uniformTuple (.scalar .int32) none }] },
    { name := "visit", arguments := [{ name := "n", type := .scalar .int32 }] }]
  interfaces := [{ name := "visits", functions := ["visit", "split"] }]
  classes := [{
    name := "Grid"
    methods := [
      { name := "size", arguments := [{ name := "self", type := .object "Grid", bound := true }],
        results := [{ name := "r", type := .tuple [] }], role := .property },
      { name := "mask", arguments := [{ name := "self", type := .object "Grid", bound := true }],
        results := [{ name := "r", type := .scalar .int64 }], role := .property }]
    attributes := [
      { name := "size", type := .scalar .int64 }, { name := "size", type := .tuple [] },
      { name := "mask", type := .functionRef }, { name := "hook", type := .functionRef },
      { name := "pair", type := .uniformTuple (.scalar .int32) (some 2) }] }]
  initFunction := some "visit"

end AbiBridge
