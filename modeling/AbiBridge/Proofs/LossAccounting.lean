import Mathlib
import AbiBridge.Proofs.Wrappable
import AbiBridge.Proofs.Reporting

/-!
# Nothing is lost in silence

`Module.losses` lists from the declarations alone what a module loses when it is wrapped for a target, in order, each
with the symbol and the severity that it should be reported with. `wrapModule_losses` says that the reports are these,
counts them, and says which functions are wrapped and which are listed as removed.

An attribute is passed over where a property of its name is there already. The work keeps a list of the names taken so
far; `wrapAttributes_losses` carries along that these are the names `Class.hasProperty` speaks of.
-/

namespace AbiBridge

open Wrapper

/-! ### What is lost -/

/-- The symbol that is lost, if it is not a whole section, and how that is reported. -/
abbrev Loss := Option String × Severity

def Diagnostic.loss (d : Diagnostic) : Loss := (d.location.symbol, d.severity)

/-- The classes of a module, on a target that has classes. -/
def exposedClasses (target : Target) (m : Semantic.Module) : List Semantic.Class :=
  if target.supportsClasses then m.classes else []

namespace Semantic

def Module.lostFunctions (m : Module) : List Function := (exposedFunctions m).filter (!·.isWrappable)

def Module.lostVariables (m : Module) : List Variable := (publicVariables m).filter (!·.isWrappable)

namespace Class

variable (c : Class)

def lostMethods : List Function := (publicMethods c).filter (!·.isWrappable)

/-- A method or one of the attributes `earlier` makes a property of the name. -/
def hasProperty (earlier : List Attribute) (name : String) : Bool :=
  ((publicMethods c).any fun f => f.role = .property && f.isWrappable && f.name == name)
    || earlier.any fun a => a.isWrappable && a.name == name

/-- Those of the attributes `rest`, which come after `earlier`, that make no property and find none of their name. -/
def lostAmong (earlier rest : List Attribute) : List Attribute :=
  ((rest.zipIdx earlier.length).filter fun p =>
    !p.1.isWrappable && !c.hasProperty ((earlier ++ rest).take p.2) p.1.name).map Prod.fst

def lostAttributes : List Attribute := c.lostAmong [] (publicAttributes c)

/-- The symbol of a member. -/
def symbol (member : String) : String := c.name ++ "." ++ member

def losses : List Loss :=
  c.lostMethods.map (fun f => (some (c.symbol f.name), f.lossSeverity))
    ++ c.lostAttributes.map fun a => (some (c.symbol a.name), a.lossSeverity)

end Class

/-- A section with something in it is lost where it is not supported. -/
def sectionLosses (supported isEmpty : Bool) : List Loss := if supported || isEmpty then [] else [(none, .warning)]

def Module.losses (target : Target) (m : Module) : List Loss :=
  m.lostFunctions.map (fun f => (some f.name, f.lossSeverity))
    ++ sectionLosses target.supportsInterfaces m.interfaces.isEmpty
    ++ ((exposedClasses target m).flatMap Class.losses ++ sectionLosses target.supportsClasses m.classes.isEmpty)
    ++ m.lostVariables.map fun v => (some v.name, .warning)

end Semantic

theorem loss_reportAt (moduleName : String) (symbol : Option String) (span : Semantic.Span) (e : WrapFailure) :
    (reportAt moduleName symbol span e).loss = (symbol, e.severity) :=
  rfl

/-! ### Functions and methods -/

section Outcomes

variable {origin : Semantic.Function → Origin} {fs : List Semantic.Function} {outcomes : List Outcome}

theorem origins_of_settled (h : List.Forall₂ (fun f o => o.function = f ∧ o.Settled (origin f)) fs outcomes) :
    (outcomes.filterMap (·.wrapper?)).map (·.origin) = (fs.filter (·.isWrappable)).map origin := by
  induction h with
  | nil => rfl
  | cons ho _ ih =>
    obtain ⟨rfl, hsettled⟩ := ho
    cases hsettled with
    | wrapped hfits hmade => rw [List.filter_cons_of_pos hfits, List.map_cons, ← ih, ← hmade]; rfl
    | failed hfits => rw [List.filter_cons_of_neg (by simp [hfits]), ← ih]; rfl

theorem removed_of_settled (h : List.Forall₂ (fun f o => o.function = f ∧ o.Settled (origin f)) fs outcomes) :
    (outcomes.filter (·.failure?.isSome)).map (·.function) = fs.filter (!·.isWrappable) := by
  induction h with
  | nil => rfl
  | cons ho _ ih =>
    obtain ⟨rfl, hsettled⟩ := ho
    cases hsettled with
    | wrapped hfits => simpa [Outcome.failure?, hfits] using ih
    | failed hfits => simpa [Outcome.failure?, hfits] using ih

theorem losses_of_settled (h : List.Forall₂ (fun f o => o.function = f ∧ o.Settled (origin f)) fs outcomes)
    (moduleName : String) (symbol : Semantic.Function → String) :
    (reportOutcomes moduleName symbol outcomes).map Diagnostic.loss =
      (fs.filter (!·.isWrappable)).map fun f => (some (symbol f), f.lossSeverity) := by
  induction h with
  | nil => rfl
  | cons ho _ ih =>
    obtain ⟨rfl, hsettled⟩ := ho
    cases hsettled with
    | wrapped hfits => rw [List.filter_cons_of_neg (by simp [hfits]), ← ih]; rfl
    | failed hfits hreported => rw [List.filter_cons_of_pos (by simp [hfits]), List.map_cons, ← ih, ← hreported]; rfl

theorem taken_of_settled (h : List.Forall₂ (fun f o => o.function = f ∧ o.Settled (origin f)) fs outcomes)
    (c : Semantic.Class) (name : String) :
    ((outcomes.filterMap (methodProperty c)).map (·.key.member)).contains name =
      fs.any fun f => f.role = .property && f.isWrappable && f.name == name := by
  induction h with
  | nil => rfl
  | cons ho _ ih =>
    obtain ⟨rfl, hsettled⟩ := ho
    rw [List.any_cons, ← ih]
    cases hsettled with
    | @wrapped f w hfits =>
      by_cases hrole : f.role = .property
      · have hproperty : methodProperty c ⟨f, .ok w⟩ = some ⟨⟨c.name, f.name⟩, w, none, w.docstring⟩ := if_pos hrole
        rw [List.filterMap_cons_some hproperty, List.map_cons, List.contains_cons, BEq.comm]
        simp [hrole, hfits]
      · have hproperty : methodProperty c ⟨f, .ok w⟩ = none := if_neg hrole
        rw [List.filterMap_cons_none hproperty]
        simp [hrole]
    | @failed f e hfits =>
      have hproperty : methodProperty c ⟨f, .error e⟩ = none := ite_self none
      rw [List.filterMap_cons_none hproperty]
      simp [hfits]

end Outcomes

/-! ### Attributes -/

namespace Semantic.Class

variable (c : Class) (earlier rest : List Attribute) (a : Attribute)

theorem hasProperty_concat (name : String) :
    c.hasProperty (earlier ++ [a]) name = (c.hasProperty earlier name || (a.isWrappable && a.name == name)) := by
  unfold hasProperty
  rw [List.any_append, List.any_cons, List.any_nil, Bool.or_false, Bool.or_assoc]

theorem lostAmong_cons :
    c.lostAmong earlier (a :: rest) =
      (if !a.isWrappable && !c.hasProperty earlier a.name then [a] else []) ++ c.lostAmong (earlier ++ [a]) rest := by
  have hlength : (earlier ++ [a]).length = earlier.length + 1 := List.length_append
  have happend : earlier ++ a :: rest = earlier ++ [a] ++ rest := List.append_cons earlier a rest
  unfold lostAmong
  rw [List.zipIdx_cons, hlength, ← happend, List.filter_cons, List.take_left]
  split <;> rfl

end Semantic.Class

theorem wrapAttributes_losses {target : Target} {moduleName : String} {c : Semantic.Class} {taken : List String}
    {earlier rest : List Semantic.Attribute} {t t' : ScopeTree} {r : Reported (List Property)}
    (htaken : ∀ name, taken.contains name = c.hasProperty earlier name)
    (h : wrapAttributes target moduleName c taken rest t = (r, t')) :
    r.reports.map Diagnostic.loss =
      (c.lostAmong earlier rest).map fun a => (some (c.symbol a.name), a.lossSeverity) := by
  induction rest generalizing taken earlier t r with
  | nil =>
    obtain ⟨rfl, rfl⟩ := Prod.mk.inj h
    rfl
  | cons a rest ih =>
    unfold wrapAttributes at h
    rw [c.lostAmong_cons, ← htaken]
    by_cases hin : taken.contains a.name = true
    · rw [if_pos hin] at h
      rw [hin, Bool.not_true, Bool.and_false, if_neg Bool.false_ne_true, List.nil_append]
      refine ih (fun name => ?_) h
      -- the attribute may be one that makes a property, but its name is taken already
      rw [c.hasProperty_concat, ← htaken]
      by_cases hname : a.name = name
      · rw [← hname, hin, Bool.true_or]
      · rw [beq_false_of_ne hname, Bool.and_false, Bool.or_false]
    · rw [if_neg hin] at h
      rw [Bool.not_eq_true] at hin
      obtain ⟨made, t₁, h₁, h₂⟩ := Alloc.bind_eq h
      rcases wrapAttribute_cases target c a t with ⟨ha, p, t₂, hrun, -⟩ | ⟨ha, e, hrun, hseverity⟩ <;>
        obtain ⟨rfl, rfl⟩ := Prod.mk.inj (h₁.symm.trans hrun) <;>
        obtain ⟨more, t₃, h₃, h₄⟩ := Alloc.bind_eq h₂ <;>
        obtain ⟨rfl, rfl⟩ := Prod.mk.inj h₄ <;>
        rw [ha, hin]
      · have hmore : ∀ name, (a.name :: taken).contains name = c.hasProperty (earlier ++ [a]) name := by
          intro name
          rw [c.hasProperty_concat, ← htaken, List.contains_cons, ha, Bool.true_and, Bool.or_comm, BEq.comm]
        show more.reports.map Diagnostic.loss = _
        exact ih hmore h₃
      · have hmore : ∀ name, taken.contains name = c.hasProperty (earlier ++ [a]) name := by
          intro name
          rw [c.hasProperty_concat, ← htaken, ha, Bool.false_and, Bool.or_false]
        rw [List.map_cons, loss_reportAt, ih hmore h₃, hseverity]
        rfl

/-! ### Classes, variables and sections -/

section Parts

variable {target : Target} {moduleName : String} {m : Semantic.Module} {t t' : ScopeTree}

theorem wrapClass_losses {c : Semantic.Class} {r : Reported Wrapper.Class}
    (h : wrapClass target moduleName c t = (r, t')) : r.reports.map Diagnostic.loss = c.losses := by
  obtain ⟨allocator, t₁, h₁, h⟩ := Alloc.bind_eq h
  obtain ⟨outcomes, t₂, h₂, h⟩ := Alloc.bind_eq h
  obtain ⟨attributes, t₃, h₃, h⟩ := Alloc.bind_eq h
  obtain ⟨rfl, rfl⟩ := Prod.mk.inj h
  have hsettled := outcomes_settled (methodJob c) (fun _ => rfl) h₂
  have htaken : ∀ name, ((outcomes.filterMap (methodProperty c)).map (·.key.member)).contains name =
      c.hasProperty [] name := by
    intro name
    rw [taken_of_settled hsettled, Semantic.Class.hasProperty, List.any_nil, Bool.or_false]
  rw [List.map_append, losses_of_settled hsettled, wrapAttributes_losses htaken h₃]
  rfl

theorem wrapClassList_losses {classes : List Semantic.Class} {r : Reported (List Wrapper.Class)}
    (h : wrapClassList target moduleName classes t = (r, t')) :
    r.reports.map Diagnostic.loss = classes.flatMap Semantic.Class.losses := by
  induction classes generalizing t r with
  | nil =>
    obtain ⟨rfl, rfl⟩ := Prod.mk.inj h
    rfl
  | cons c rest ih =>
    obtain ⟨one, t₁, h₁, h⟩ := Alloc.bind_eq h
    obtain ⟨more, t₂, h₂, h⟩ := Alloc.bind_eq h
    obtain ⟨rfl, rfl⟩ := Prod.mk.inj h
    rw [List.map_append, wrapClass_losses h₁, ih h₂, List.flatMap_cons]

theorem sectionReport_losses (feature : Feature) (isEmpty : Bool) :
    (sectionReport target m feature isEmpty).map Diagnostic.loss = Semantic.sectionLosses false isEmpty := by
  cases isEmpty <;> rfl

theorem wrapClasses_losses {r : Reported (List Wrapper.Class)} (h : wrapClasses target m t = (r, t')) :
    r.reports.map Diagnostic.loss = (exposedClasses target m).flatMap Semantic.Class.losses ++
      Semantic.sectionLosses target.supportsClasses m.classes.isEmpty := by
  unfold wrapClasses at h
  unfold exposedClasses
  cases hclasses : target.supportsClasses with
  | true =>
    rw [if_pos hclasses] at h
    rw [if_pos rfl, wrapClassList_losses h]
    exact (List.append_nil _).symm
  | false =>
    rw [if_neg (by simp [hclasses])] at h
    obtain ⟨rfl, rfl⟩ := Prod.mk.inj h
    rw [if_neg Bool.false_ne_true, sectionReport_losses, List.flatMap_nil, List.nil_append]

theorem wrapInterfaces_losses (outcomes : List Outcome) :
    (wrapInterfaces target m outcomes).reports.map Diagnostic.loss =
      Semantic.sectionLosses target.supportsInterfaces m.interfaces.isEmpty := by
  unfold wrapInterfaces
  cases hinterfaces : target.supportsInterfaces with
  | true => rfl
  | false => exact sectionReport_losses .interfaces m.interfaces.isEmpty

theorem wrapVariables_losses {vs : List Semantic.Variable} {r : Reported (List Wrapper.Variable)}
    (h : wrapVariables target moduleName vs t = (r, t')) :
    r.reports.map Diagnostic.loss = (vs.filter (!·.isWrappable)).map fun v => (some v.name, .warning) := by
  induction vs generalizing t r with
  | nil =>
    obtain ⟨rfl, rfl⟩ := Prod.mk.inj h
    rfl
  | cons v rest ih =>
    obtain ⟨one, t₁, h₁, h₂⟩ := Alloc.bind_eq h
    obtain ⟨more, t₃, h₃, h₄⟩ := Alloc.bind_eq h₂
    rcases wrapVariable_cases target v t with ⟨hv, w, t₂, hrun⟩ | ⟨hv, e, hrun, hseverity⟩ <;>
      obtain ⟨rfl, rfl⟩ := Prod.mk.inj (h₁.symm.trans hrun) <;>
      obtain ⟨rfl, rfl⟩ := Prod.mk.inj h₄
    · rw [List.filter_cons_of_neg (by simp [hv]), ← ih h₃]
    · rw [List.filter_cons_of_pos (by simp [hv]), List.map_cons, List.map_cons, loss_reportAt, hseverity, ih h₃]

end Parts

/-! ### Counting -/

namespace Semantic

/-- How many sections of the module are lost. -/
def Module.lostSections (target : Target) (m : Module) : Nat :=
  (if target.supportsInterfaces || m.interfaces.isEmpty then 0 else 1)
    + if target.supportsClasses || m.classes.isEmpty then 0 else 1

theorem length_sectionLosses (supported isEmpty : Bool) :
    (sectionLosses supported isEmpty).length = if supported || isEmpty then 0 else 1 := by
  unfold sectionLosses
  split <;> rfl

def isFatal (l : Loss) : Bool := l.2 == .fatal

theorem countP_sectionLosses (supported isEmpty : Bool) : (sectionLosses supported isEmpty).countP isFatal = 0 := by
  unfold sectionLosses
  split <;> rfl

theorem Module.length_losses (target : Target) (m : Module) :
    (m.losses target).length = m.lostFunctions.length
      + ((exposedClasses target m).map fun c => c.lostMethods.length + c.lostAttributes.length).sum
      + m.lostVariables.length + m.lostSections target := by
  have hclass : ∀ c : Class, c.losses.length = c.lostMethods.length + c.lostAttributes.length := by
    intro c
    simp [Class.losses]
  simp only [Module.losses, List.length_append, List.length_map, List.length_flatMap, length_sectionLosses, hclass,
    Module.lostSections]
  omega

theorem Module.countP_losses (target : Target) (m : Module) :
    (m.losses target).countP isFatal = m.lostFunctions.countP (·.isPassable)
      + ((exposedClasses target m).map fun c =>
          c.lostMethods.countP (·.isPassable) + c.lostAttributes.countP (·.type.isFunctionRef)).sum := by
  have hfunction : ∀ (symbol : Function → Option String) (fs : List Function),
      (fs.map fun f => (symbol f, f.lossSeverity)).countP isFatal = fs.countP (·.isPassable) := by
    intro symbol fs
    rw [List.countP_map]
    congr 1
    funext f
    simp only [Function.comp_apply, isFatal, Function.lossSeverity]
    cases f.isPassable <;> rfl
  have hattribute : ∀ (symbol : Attribute → Option String) (as : List Attribute),
      (as.map fun a => (symbol a, a.lossSeverity)).countP isFatal = as.countP (·.type.isFunctionRef) := by
    intro symbol as
    rw [List.countP_map]
    congr 1
    funext a
    simp only [Function.comp_apply, isFatal, Attribute.lossSeverity]
    cases a.type.isFunctionRef <;> rfl
  have hvariable : (m.lostVariables.map fun v => ((some v.name, .warning) : Loss)).countP isFatal = 0 := by
    rw [List.countP_map]
    exact List.countP_eq_zero.2 fun v _ => Bool.false_ne_true
  have hclass : List.countP isFatal ∘ Class.losses = fun c =>
      c.lostMethods.countP (·.isPassable) + c.lostAttributes.countP (·.type.isFunctionRef) := by
    funext c
    rw [Function.comp_apply, Class.losses, List.countP_append, hfunction, hattribute]
  simp only [Module.losses, List.countP_append, hfunction, hvariable, countP_sectionLosses, List.countP_flatMap, hclass]
  rfl

end Semantic

theorem Sink.totals_reportAll (cap : Nat) (ds : List Diagnostic) :
    ((withCap cap).reportAll ds).totalWarnings + ((withCap cap).reportAll ds).totalFatal =
        (ds.map Diagnostic.loss).length ∧
      ((withCap cap).reportAll ds).totalFatal = (ds.map Diagnostic.loss).countP Semantic.isFatal := by
  have hfatal : (ofSeverity .fatal ds).length = (ds.map Diagnostic.loss).countP Semantic.isFatal := by
    rw [List.countP_map, List.countP_eq_length_filter]
    rfl
  have htotal : (ofSeverity .warning ds).length + (ofSeverity .fatal ds).length = ds.length := by
    have hwarning : ofSeverity .warning ds = ds.filter (!·.severity == .fatal) := by
      refine List.filter_congr fun d _ => ?_
      cases d.severity <;> rfl
    rw [hwarning, Nat.add_comm, ofSeverity, ← List.length_eq_length_filter_add]
  rw [reportAll_withCap, List.length_map]
  exact ⟨htotal, hfatal⟩

/-- The functions that can be wrapped are, in their order, and the others are listed as removed. Every loss is reported
once with its symbol and severity, and the totals count all of them, whatever the sink has room for. -/
theorem wrapModule_losses (target : Target) (m : Semantic.Module) (hname : isIdentifier m.name = true) :
    ∃ made, wrapModule target m = .ok made ∧
      made.value.module.functions.map (·.origin) =
        ((exposedFunctions m).filter (·.isWrappable)).map (fun f => .function f.name) ∧
      made.value.module.removedFunctions = m.lostFunctions.map (·.name) ∧
      made.reports.map Diagnostic.loss = m.losses target ∧
      ∀ cap, ((Sink.withCap cap).reportAll made.reports).totalWarnings
            + ((Sink.withCap cap).reportAll made.reports).totalFatal =
          m.lostFunctions.length
            + ((exposedClasses target m).map fun c => c.lostMethods.length + c.lostAttributes.length).sum
            + m.lostVariables.length + m.lostSections target ∧
        ((Sink.withCap cap).reportAll made.reports).totalFatal =
          m.lostFunctions.countP (·.isPassable)
            + ((exposedClasses target m).map fun c =>
                c.lostMethods.countP (·.isPassable) + c.lostAttributes.countP (·.type.isFunctionRef)).sum := by
  obtain ⟨r, t', hrun⟩ : ∃ r t', wrapParts target m (.new target m.name m.usedSymbols) = (r, t') := ⟨_, _, rfl⟩
  refine ⟨_, wrapModule_of_parts hname hrun, ?_⟩
  obtain ⟨outcomes, t₁, h₁, h⟩ := Alloc.bind_eq hrun
  obtain ⟨classes, t₂, h₂, h⟩ := Alloc.bind_eq h
  obtain ⟨globals, t₃, h₃, h⟩ := Alloc.bind_eq h
  obtain ⟨name, t₄, h₄, h⟩ := Alloc.bind_eq h
  obtain ⟨rfl, rfl⟩ := Prod.mk.inj h
  have hsettled := outcomes_settled functionJob (fun _ => rfl) h₁
  have hlosses : (reportOutcomes m.name (·.name) outcomes ++ (wrapInterfaces target m outcomes).reports
      ++ classes.reports ++ globals.reports).map Diagnostic.loss = m.losses target := by
    simp only [List.map_append, losses_of_settled hsettled, wrapInterfaces_losses, wrapClasses_losses h₂,
      wrapVariables_losses h₃]
    rfl
  refine ⟨origins_of_settled hsettled, ?_, hlosses, fun cap => ?_⟩
  · show (outcomes.filter (·.failure?.isSome)).map (·.function.name) = m.lostFunctions.map (·.name)
    rw [Semantic.Module.lostFunctions, ← removed_of_settled hsettled, List.map_map]
    rfl
  · obtain ⟨htotal, hfatal⟩ := Sink.totals_reportAll cap (reportOutcomes m.name (·.name) outcomes
      ++ (wrapInterfaces target m outcomes).reports ++ classes.reports ++ globals.reports)
    rw [hlosses] at htotal hfatal
    exact ⟨htotal.trans (m.length_losses target), hfatal.trans (m.countP_losses target)⟩

/-- Of eight things that cannot be wrapped two attributes find a property of their name; three of the other six are
fatal. -/
theorem wrapModule_losses_patchy : isIdentifier patchyModule.name = true ∧
    ∃ made, wrapModule .fortran patchyModule = .ok made ∧
      made.value.module.functions.map (·.origin) = [.function "visit"] ∧
      made.value.module.removedFunctions = ["visit", "split"] ∧
      made.reports.map Diagnostic.loss = [(some "visit", .warning), (some "split", .fatal),
        (some "Grid.size", .fatal), (some "Grid.hook", .fatal), (some "Grid.pair", .warning),
        (some "names", .warning)] ∧
      ((Sink.withCap 0).reportAll made.reports).totalWarnings
        + ((Sink.withCap 0).reportAll made.reports).totalFatal = 6 ∧
      ((Sink.withCap 0).reportAll made.reports).totalFatal = 3 := by
  have hname : isIdentifier patchyModule.name = true := by decide +kernel
  obtain ⟨made, hmade, horigins, hremoved, hlosses, hcount⟩ := wrapModule_losses .fortran patchyModule hname
  exact ⟨hname, made, hmade, horigins.trans (by decide +kernel), hremoved.trans (by decide +kernel),
    hlosses.trans (by decide +kernel), (hcount 0).1.trans (by decide +kernel), (hcount 0).2.trans (by decide +kernel)⟩

end AbiBridge
