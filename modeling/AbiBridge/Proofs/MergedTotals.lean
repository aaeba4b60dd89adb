import Mathlib
import AbiBridge.Diagnostic.Sink

/-!
# Totals of merged sinks

The lists and totals of a sink can be set as one likes, so a total may fall short of what is stored. When a sink takes
over another one, the totals of the other are corrected and its own are not. So, as long as the sum is a word, its total
covers what is stored afterwards exactly if it fell short by no more than what it counts and does not store of the other
(`extend_covers_iff`): the shortfall never grows (`shortfall_extend_le`), and nothing that is taken over makes one. A
sink that starts empty and is only reported to and extended, by whatever sinks, never has one (`Grown.shortfall`).
-/

namespace AbiBridge.Sink

variable (s other : Sink) (severity : Severity)

/-! ### One severity -/

/-- The stored diagnostics of a severity. -/
def stored : Severity → List Diagnostic
  | .fatal => s.fatal
  | .warning => s.warnings

/-- The total of a severity. -/
def total : Severity → Nat
  | .fatal => s.totalFatal
  | .warning => s.totalWarnings

/-- The sink has diagnostics of a severity, by its own account. -/
def has : Severity → Bool
  | .fatal => s.hasFatal
  | .warning => s.hasWarnings

/-- By how much the total of a severity falls short of what is stored. -/
def shortfall : Nat := (s.stored severity).length - s.total severity

/-- What is counted when the other sink is taken over. -/
def counted : Nat := s.total severity + max (other.total severity) (other.stored severity).length

/-- How many diagnostics of the other sink are counted and not stored when it is taken over. -/
def unstored : Nat :=
  max (other.total severity) (other.stored severity).length -
    ((other.stored severity).take (s.cap - (s.stored severity).length)).length

theorem has_iff : s.has severity = true ↔ 0 < s.total severity := by
  cases severity <;> simp [has, total, hasFatal, hasWarnings]

theorem stored_extend : (s.extend other).stored severity =
    s.stored severity ++ (other.stored severity).take (s.cap - (s.stored severity).length) := by
  cases severity <;> rfl

theorem total_inWords : s.inWords.total severity = Word.wrap (s.total severity) := by
  cases severity <;> rfl

theorem total_extend : (s.extend other).total severity = Word.wrap (s.counted other severity) := by
  rw [extend, total_inWords]
  cases severity <;> rfl

/-! ### Merging -/

theorem length_stored_extend : ((s.extend other).stored severity).length + s.unstored other severity =
    (s.stored severity).length + max (other.total severity) (other.stored severity).length := by
  have htaken := List.length_take_le' (s.cap - (s.stored severity).length) (other.stored severity)
  have hmax := le_max_right (other.total severity) (other.stored severity).length
  rw [stored_extend, List.length_append, unstored]
  omega

variable {s other severity}

/-- A total covers what is stored after a merge exactly if it fell short before by no more than what the merge counts
and does not store. -/
theorem extend_covers_iff (h : s.counted other severity < Word.count) :
    ((s.extend other).stored severity).length ≤ (s.extend other).total severity ↔
      s.shortfall severity ≤ s.unstored other severity := by
  have hlen := s.length_stored_extend other severity
  rw [total_extend, Word.wrap_of_lt h, counted, shortfall]
  omega

theorem shortfall_extend_le (h : s.counted other severity < Word.count) :
    (s.extend other).shortfall severity ≤ s.shortfall severity := by
  have hlen := s.length_stored_extend other severity
  rw [shortfall, total_extend, Word.wrap_of_lt h, counted, shortfall]
  omega

theorem has_extend_iff (h : s.counted other severity < Word.count) : (s.extend other).has severity = true ↔
    s.has severity = true ∨ other.has severity = true ∨ other.stored severity ≠ [] := by
  rw [has_iff, has_iff, has_iff, total_extend, Word.wrap_of_lt h, counted, ← List.length_pos_iff]
  omega

/-! ### Sinks in use -/

theorem total_note (d : Diagnostic) :
    (s.note d).total severity = s.total severity + if d.severity = severity then 1 else 0 := by
  unfold note
  cases hd : d.severity <;> cases severity <;> rfl

theorem inWords_of_lt (h : ∀ severity, s.total severity < Word.count) : s.inWords = s := by
  have hfatal : Word.wrap s.totalFatal = s.totalFatal := Word.wrap_of_lt (h .fatal)
  have hwarnings : Word.wrap s.totalWarnings = s.totalWarnings := Word.wrap_of_lt (h .warning)
  rw [inWords, hfatal, hwarnings]

/-- Totals that words can hold are added as numbers. -/
theorem extend_eq_collect (h : ∀ severity, s.counted other severity < Word.count) :
    s.extend other = s.collect other := by
  refine inWords_of_lt fun severity => ?_
  cases severity with
  | fatal => exact h .fatal
  | warning => exact h .warning

/-- The diagnostics of a run are reported one by one. -/
theorem reportAll_eq_foldl {ds : List Diagnostic} (h : ∀ severity, s.total severity + ds.length < Word.count) :
    s.reportAll ds = ds.foldl report s := by
  unfold reportAll
  induction ds generalizing s with
  | nil => rfl
  | cons d ds ih =>
    have hnote : ∀ severity, (s.note d).total severity ≤ s.total severity + 1 := fun severity => by
      rw [total_note]
      split <;> omega
    have hroom : ∀ severity, (s.note d).total severity + ds.length < Word.count := fun severity => by
      have := h severity
      have := hnote severity
      rw [List.length_cons] at *
      omega
    have hreport : s.report d = s.note d :=
      inWords_of_lt fun severity => lt_of_le_of_lt (Nat.le_add_right _ _) (hroom severity)
    rw [List.foldl_cons, List.foldl_cons, hreport]
    exact ih hroom

variable (s severity) in
theorem length_stored_report_le (d : Diagnostic) :
    ((s.report d).stored severity).length ≤ (s.stored severity).length + if d.severity = severity then 1 else 0 := by
  unfold report note
  cases hd : d.severity <;> cases severity <;> simp only [stored, inWords] <;> split <;> simp

theorem shortfall_report_le {d : Diagnostic} (h : (s.note d).total severity < Word.count) :
    (s.report d).shortfall severity ≤ s.shortfall severity := by
  have hstored := s.length_stored_report_le severity d
  have htotal : (s.report d).total severity = (s.note d).total severity := by
    rw [report, total_inWords, Word.wrap_of_lt h]
  rw [shortfall, htotal, total_note, shortfall]
  omega

/-- The sink started empty and was then reported to and extended, by sinks of any kind, without a total that no word
can hold. -/
inductive Grown : Sink → Prop
  | empty (cap : Nat) : Grown (withCap cap)
  | report {s : Sink} (h : Grown s) (d : Diagnostic) (room : ∀ severity, s.total severity + 1 < 2 ^ 64) :
    Grown (s.report d)
  | extend {s : Sink} (h : Grown s) (other : Sink) (room : ∀ severity, s.counted other severity < 2 ^ 64) :
    Grown (s.extend other)

theorem Grown.shortfall (h : s.Grown) : s.shortfall severity = 0 := by
  induction h with
  | empty cap => cases severity <;> rfl
  | @report s _ d room ih =>
    have hnote : (s.note d).total severity < Word.count := by
      refine lt_of_le_of_lt ?_ (room severity)
      rw [total_note]
      split <;> omega
    exact Nat.le_zero.1 (ih ▸ shortfall_report_le hnote)
  | extend _ other room ih => exact Nat.le_zero.1 (ih ▸ shortfall_extend_le (room severity))

variable (s other severity)

/-- After a merge the total of a severity is what was counted, as a word. If a word can hold it, the total covers what
is stored exactly if the sink did not fall short by more than what it counts and does not store of the other. What is
stored shows in the flag exactly if it is not the sink's own alone, or was counted by one of the two. So both hold,
whatever the other sink is, if the sink did not fall short before, and one that has grown from an empty sink never
does. -/
theorem extend_counts_iff :
    (s.extend other).total severity = s.counted other severity % 2 ^ 64 ∧
    (s.counted other severity < 2 ^ 64 →
      (((s.extend other).stored severity).length ≤ (s.extend other).total severity ↔
        s.shortfall severity ≤ s.unstored other severity) ∧
      (((s.extend other).stored severity ≠ [] → (s.extend other).has severity = true) ↔
        (s.stored severity ≠ [] → s.has severity = true ∨ other.has severity = true ∨ other.stored severity ≠ [])) ∧
      ((s.stored severity).length ≤ s.total severity →
        ((s.extend other).stored severity).length ≤ (s.extend other).total severity ∧
          ((s.extend other).stored severity ≠ [] → (s.extend other).has severity = true))) ∧
    (s.Grown → (s.stored severity).length ≤ s.total severity) := by
  refine ⟨total_extend .., fun hcounted => ?_, fun h => Nat.sub_eq_zero_iff_le.1 h.shortfall⟩
  have hcovers := extend_covers_iff hcounted
  refine ⟨hcovers, ?_, fun hown => ?_⟩
  · rw [has_extend_iff hcounted, stored_extend]
    refine ⟨fun h hne => h (List.append_ne_nil_of_left_ne_nil hne _), fun h hne => ?_⟩
    by_cases hown : s.stored severity = []
    · -- what is stored afterwards comes from the other sink
      refine .inr (.inr fun hnone => hne ?_)
      rw [hown, hnone, List.take_nil, List.append_nil]
    · exact h hown
  · have hzero : s.shortfall severity = 0 := Nat.sub_eq_zero_iff_le.2 hown
    have hle := hcovers.2 (hzero ▸ Nat.zero_le _)
    exact ⟨hle, fun hne => (has_iff _ severity).2 ((List.length_pos_iff.2 hne).trans_le hle)⟩

/-- A sink that stores a warning and counts none. -/
def lagging : Sink := { warnings := [.make 100 .warning "apply" ⟨"geometry", none, default⟩] }

/-- A sink that has room for one warning, and was reported one. -/
def brimful : Sink := (withCap 1).report (.make 200 .warning "area" ⟨"geometry", none, default⟩)

theorem extend_counts_brimful :
    brimful.Grown ∧ (brimful.stored .warning).length ≤ brimful.total .warning ∧
      ((brimful.extend lagging).stored .warning).length ≤ (brimful.extend lagging).total .warning ∧
      (brimful.extend lagging).total .warning = 2 := by
  have hgrown : brimful.Grown := .report (.empty 1) _ (by rintro (_ | _) <;> decide)
  obtain ⟨htotal, hmerge, hown⟩ := extend_counts_iff brimful lagging .warning
  exact ⟨hgrown, hown hgrown, ((hmerge (by decide)).2.2 (hown hgrown)).1, htotal⟩

/-- A total that falls short stays so when an empty sink is taken over. One that does not can be wrapped around to
nothing. -/
theorem lagging_extend_empty :
    (((lagging.extend (withCap 20)).stored .warning).length = 1 ∧ (lagging.extend (withCap 20)).total .warning = 0 ∧
      (lagging.extend (withCap 20)).hasWarnings = false) ∧
    (brimful.stored .warning).length ≤ brimful.total .warning ∧
      ((brimful.extend { totalWarnings := 2 ^ 64 - 1 }).stored .warning).length = 1 ∧
      (brimful.extend { totalWarnings := 2 ^ 64 - 1 }).hasWarnings = false := by
  decide

end AbiBridge.Sink
