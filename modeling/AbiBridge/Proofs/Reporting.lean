import Mathlib
import AbiBridge.Pipeline.Output

/-!
# What a sink holds

A sink that has been reported a list of diagnostics holds the first ones of each severity and the number of all of them
(`reportAll_withCap`). Taking over a sink with the same cap is the same as being reported its diagnostics
(`collect_summary`): what the other sink dropped would have been dropped anyway, and its totals count it. So the sinks
of the single modules of a run add up to one sink for the whole run (`wrapAll_reports_as_one`), wherever the cap cuts.
-/

namespace AbiBridge

/-! ### Sinks -/

namespace Sink

/-- The diagnostics of one severity. -/
def ofSeverity (severity : Severity) (ds : List Diagnostic) : List Diagnostic :=
  ds.filter (·.severity == severity)

/-- What a sink holds of the diagnostics that were reported to it. -/
def summary (cap : Nat) (ds : List Diagnostic) : Sink where
  fatal := (ofSeverity .fatal ds).take cap
  warnings := (ofSeverity .warning ds).take cap
  totalFatal := (ofSeverity .fatal ds).length
  totalWarnings := (ofSeverity .warning ds).length
  cap := cap

variable {cap : Nat}

theorem ofSeverity_append (severity : Severity) (ds es : List Diagnostic) :
    ofSeverity severity (ds ++ es) = ofSeverity severity ds ++ ofSeverity severity es :=
  List.filter_append ds es

theorem store_take {α : Type} (xs : List α) (x : α) :
    (if (xs.take cap).length < cap then xs.take cap ++ [x] else xs.take cap) = (xs ++ [x]).take cap := by
  rw [List.take_append, List.length_take]
  by_cases hroom : xs.length < cap
  · have hone : 1 ≤ cap - xs.length := by omega
    rw [if_pos (by omega), List.take_of_length_le (l := [x]) hone]
  · have hfull : cap - xs.length = 0 := by omega
    rw [if_neg (by omega), hfull, List.take_zero, List.append_nil]

/-- Storing as much of another list as there is room for; the other list may be cut off where this one is full. -/
theorem store_take_append {α : Type} {other : Nat} (hcap : cap ≤ other) (xs ys : List α) :
    xs.take cap ++ (ys.take other).take (cap - (xs.take cap).length) = (xs ++ ys).take cap := by
  have hroom : min (cap - min cap xs.length) other = cap - xs.length := by omega
  rw [List.take_append, List.take_take, List.length_take, hroom]

theorem note_summary (ds : List Diagnostic) (d : Diagnostic) :
    (summary cap ds).note d = summary cap (ds ++ [d]) := by
  symm
  unfold note
  cases hseverity : d.severity with
  | fatal =>
    have hfatal : ofSeverity .fatal [d] = [d] := by simp [ofSeverity, hseverity]
    have hwarning : ofSeverity .warning [d] = [] := by simp [ofSeverity, hseverity]
    rw [summary, ofSeverity_append, hfatal, ← store_take, List.length_append, ofSeverity_append, hwarning,
      List.append_nil]
    rfl
  | warning =>
    have hfatal : ofSeverity .fatal [d] = [] := by simp [ofSeverity, hseverity]
    have hwarning : ofSeverity .warning [d] = [d] := by simp [ofSeverity, hseverity]
    rw [summary, ofSeverity_append, hfatal, List.append_nil, ofSeverity_append, hwarning, ← store_take,
      List.length_append]
    rfl

theorem reportAll_summary (ds es : List Diagnostic) :
    (summary cap ds).reportAll es = summary cap (ds ++ es) := by
  unfold reportAll
  induction es generalizing ds with
  | nil => rw [List.foldl_nil, List.append_nil]
  | cons e es ih => rw [List.foldl_cons, note_summary, ih, List.append_assoc, List.singleton_append]

theorem withCap_eq_summary (cap : Nat) : withCap cap = summary cap [] := by
  simp [withCap, summary, ofSeverity]

theorem reportAll_withCap (ds : List Diagnostic) : (withCap cap).reportAll ds = summary cap ds := by
  rw [withCap_eq_summary, reportAll_summary, List.nil_append]

/-- A sink that stores no less than this one is taken over as if its diagnostics had been reported here. -/
theorem collect_summary {other : Nat} (hcap : cap ≤ other) (ds es : List Diagnostic) :
    (summary cap ds).collect (summary other es) = summary cap (ds ++ es) := by
  have hcount : ∀ xs : List Diagnostic, max xs.length (xs.take other).length = xs.length := by
    intro xs
    rw [List.length_take]
    omega
  simp only [collect, summary, hcount, store_take_append hcap, ofSeverity_append, List.length_append]

end Sink

/-! ### Runs -/

/-- What wrapping a module reports, or the one diagnostic of a module that cannot have its name. -/
def Semantic.Module.reports (target : Target) (m : Semantic.Module) : List Diagnostic :=
  match wrapModule target m with
  | .ok made => made.reports
  | .error _ => [(WrapFailure.moduleNameUnavailable m.name).diagnostic ⟨m.name, none, m.span⟩]

/-- All that is reported for modules, in their order. -/
def reportsOf (target : Target) (modules : List Semantic.Module) : List Diagnostic :=
  modules.flatMap (·.reports target)

/-- All that is made of modules, in their order. -/
def wrappersOf (target : Target) (modules : List Semantic.Module) : List WrappedModule :=
  modules.filterMap fun m => (wrapModule target m).toOption.map (·.value)

theorem wrapModule_error {target : Target} {m : Semantic.Module} {e : WrapFailure}
    (h : wrapModule target m = .error e) : e = .moduleNameUnavailable m.name := by
  unfold wrapModule at h
  split at h
  · cases h
  · exact (Except.error.inj h).symm

theorem wrapReported_eq (target : Target) (m : Semantic.Module) :
    wrapReported target m = ((wrapModule target m).toOption.map (·.value), m.reports target) := by
  unfold wrapReported Semantic.Module.reports
  cases h : wrapModule target m with
  | ok made => rfl
  | error e => rw [wrapModule_error h]; rfl

theorem wrapEach_summary (options : Options) (ds : List Diagnostic) (modules : List Semantic.Module) :
    wrapEach options (.summary options.maxDiagnostics ds) modules =
      (wrappersOf options.target modules,
        .summary options.maxDiagnostics (ds ++ reportsOf options.target modules)) := by
  induction modules generalizing ds with
  | nil => rw [reportsOf, List.flatMap_nil, List.append_nil]; rfl
  | cons m rest ih =>
    have hmade : wrappersOf options.target (m :: rest) =
        ((wrapModule options.target m).toOption.map (·.value)).toList ++ wrappersOf options.target rest := by
      rw [wrappersOf, List.filterMap_cons]
      cases (wrapModule options.target m).toOption <;> rfl
    simp only [wrapEach]
    rw [wrapReported_eq, Sink.reportAll_withCap, Sink.collect_summary le_rfl, ih, hmade, reportsOf, reportsOf,
      List.flatMap_cons, List.append_assoc]

theorem wrapAll_modules (modules : List Semantic.Module) (options : Options) :
    (wrapAll modules options).modules = wrappersOf options.target modules := by
  have h := wrapEach_summary options [] modules
  rw [← Sink.withCap_eq_summary] at h
  exact congrArg Prod.fst h

theorem wrapAll_diagnostics (modules : List Semantic.Module) (options : Options) :
    (wrapAll modules options).diagnostics =
      .summary options.maxDiagnostics (reportsOf options.target modules) := by
  have h := wrapEach_summary options [] modules
  rw [← Sink.withCap_eq_summary] at h
  exact congrArg Prod.snd h

theorem wrapAll_success (modules : List Semantic.Module) (options : Options) :
    (wrapAll modules options).success = (!(wrapAll modules options).diagnostics.hasFatal &&
      !(options.denyWarnings && (wrapAll modules options).diagnostics.hasWarnings)) := rfl

theorem wrapAll_fingerprint (modules : List Semantic.Module) (options : Options) :
    (wrapAll modules options).fingerprint = fingerprint (wrapAll modules options).modules := rfl

/-- The sinks of the modules add up to what one sink would hold. Of the options, the cap decides only how much of it
is stored, and modules that come later have no influence on what is made and reported before them. -/
theorem wrapAll_reports_as_one (modules : List Semantic.Module) (options : Options) :
    (wrapAll modules options).diagnostics =
        (Sink.withCap options.maxDiagnostics).reportAll (reportsOf options.target modules) ∧
      (wrapAll modules options).diagnostics.fatal =
        ((reportsOf options.target modules).filter (·.severity == .fatal)).take options.maxDiagnostics ∧
      (wrapAll modules options).diagnostics.warnings =
        ((reportsOf options.target modules).filter (·.severity == .warning)).take options.maxDiagnostics ∧
      (wrapAll modules options).diagnostics.totalFatal =
        (reportsOf options.target modules).countP (·.severity == .fatal) ∧
      (wrapAll modules options).diagnostics.totalWarnings =
        (reportsOf options.target modules).countP (·.severity == .warning) ∧
      (∀ cap, (wrapAll modules { options with maxDiagnostics := cap }).modules = (wrapAll modules options).modules ∧
        (wrapAll modules { options with maxDiagnostics := cap }).fingerprint =
          (wrapAll modules options).fingerprint ∧
        (wrapAll modules { options with maxDiagnostics := cap }).diagnostics.totalFatal =
          (wrapAll modules options).diagnostics.totalFatal ∧
        (wrapAll modules { options with maxDiagnostics := cap }).diagnostics.totalWarnings =
          (wrapAll modules options).diagnostics.totalWarnings ∧
        (wrapAll modules { options with maxDiagnostics := cap }).success = (wrapAll modules options).success) ∧
      ∀ more, (wrapAll (modules ++ more) options).modules =
          (wrapAll modules options).modules ++ (wrapAll more options).modules ∧
        reportsOf options.target (modules ++ more) =
          reportsOf options.target modules ++ reportsOf options.target more := by
  have hsink := wrapAll_diagnostics modules options
  refine ⟨?_, ?_, ?_, ?_, ?_, fun cap => ?_, fun more => ⟨?_, ?_⟩⟩
  · rw [hsink, Sink.reportAll_withCap]
  · rw [hsink]; rfl
  · rw [hsink]; rfl
  · rw [hsink, List.countP_eq_length_filter]; rfl
  · rw [hsink, List.countP_eq_length_filter]; rfl
  · have hmodules : (wrapAll modules { options with maxDiagnostics := cap }).modules =
        (wrapAll modules options).modules := by rw [wrapAll_modules, wrapAll_modules]
    have hfatal : (wrapAll modules { options with maxDiagnostics := cap }).diagnostics.totalFatal =
        (wrapAll modules options).diagnostics.totalFatal := by rw [wrapAll_diagnostics, hsink]; rfl
    have hwarnings : (wrapAll modules { options with maxDiagnostics := cap }).diagnostics.totalWarnings =
        (wrapAll modules options).diagnostics.totalWarnings := by rw [wrapAll_diagnostics, hsink]; rfl
    refine ⟨hmodules, ?_, hfatal, hwarnings, ?_⟩
    · rw [wrapAll_fingerprint, wrapAll_fingerprint, hmodules]
    · rw [wrapAll_success, wrapAll_success, Sink.hasFatal, Sink.hasFatal, Sink.hasWarnings, Sink.hasWarnings, hfatal,
        hwarnings]
  · rw [wrapAll_modules, wrapAll_modules, wrapAll_modules, wrappersOf, List.filterMap_append]; rfl
  · exact List.flatMap_append

end AbiBridge
