import Mathlib
import AbiBridge.Proofs.FreshNames

/-!
# Proposed names

`Target.freeName_least`: the name that is proposed for a candidate is its legal spelling if that is free, and else that
spelling with the least counter that makes it free. The search needs no bound (`Naming.Finds`): one of the first numbers
is free, as there are only so many keywords and symbols.

A candidate gets its legal spelling before the counter, so that a name with a counter is legal only if the counter does
not spoil it (`Target.SpoiledByCounter`): behind a name between double underscores it takes away the two at the end, and
behind the empty name its own underscore comes first. `Target.isLegal_freeName` says that these are the only cases;
elsewhere the proposed name is legal, and proposed again for itself.
-/

namespace AbiBridge

namespace Naming

/-! ### Counters -/

/-- A number in decimal, with zeros in front as far as the width asks for them. -/
structure PaddedDecimal (width n : Nat) (text : String) : Prop where
  digits : ∀ c ∈ text.toList, c.isDigit = true
  value : Nat.ofDigitChars 10 text.toList 0 = n
  width_le : width ≤ text.length
  tight : width < text.length → text.toList.head? ≠ some '0'

theorem head?_toDigits_ne_zero {n : Nat} (hn : 0 < n) : (Nat.toDigits 10 n).head? ≠ some '0' := by
  induction n using Nat.strong_induction_on with
  | _ n ih =>
    by_cases hlt : n < 10
    · rw [Nat.toDigits_of_lt_base hlt]
      interval_cases n <;> decide
    · rw [Nat.toDigits_of_base_le (by decide) (by omega), List.head?_append_of_ne_nil _ Nat.toDigits_ne_nil]
      exact ih (n / 10) (by omega) (by omega)

theorem counterText_padded (n : Nat) : PaddedDecimal 4 n (counterText n) := by
  have hlen : (counterText n).length = 4 - (Nat.toDigits 10 n).length + (Nat.toDigits 10 n).length := by
    rw [← String.length_toList]
    simp [counterText]
  refine ⟨fun c => isDigit_of_mem_counterText, ofDigitChars_counterText n, by omega, fun hlong => ?_⟩
  -- a number of more than four digits is not padded, and it is not zero
  have hnone : 4 - (Nat.toDigits 10 n).length = 0 := by omega
  rw [counterText, String.toList_ofList, hnone, List.replicate_zero, List.nil_append]
  refine head?_toDigits_ne_zero (Nat.pos_of_ne_zero ?_)
  rintro rfl
  simp [Nat.toDigits_zero] at hlen hlong
  omega

theorem counterText_ne_nil (n : Nat) : (counterText n).toList ≠ [] := by
  simp [counterText, Nat.toDigits_ne_nil]

/-! ### The search -/

/-- The search for a number that is not taken, from `start` on and however long it takes, ends with the name. -/
inductive Finds (taken : String → Bool) (stem : String) : Nat → String → Prop
  | here {start : Nat} (h : taken (numbered stem start) = false) : Finds taken stem start (numbered stem start)
  | next {start : Nat} {name : String} (h : taken (numbered stem start) = true)
    (rest : Finds taken stem (start + 1) name) : Finds taken stem start name

theorem finds_of_least {taken : String → Bool} {stem : String} {start k : Nat}
    (hbelow : ∀ j < k, taken (numbered stem (start + j)) = true) (hfree : taken (numbered stem (start + k)) = false) :
    Finds taken stem start (numbered stem (start + k)) := by
  induction k generalizing start with
  | zero => exact .here hfree
  | succ k ih =>
    have hshift : ∀ j, start + 1 + j = start + (j + 1) := fun j => by omega
    have hrest : Finds taken stem (start + 1) (numbered stem (start + 1 + k)) :=
      ih (fun j hj => hshift j ▸ hbelow (j + 1) (by omega)) (hshift k ▸ hfree)
    exact .next (hbelow 0 (by omega)) (hshift k ▸ hrest)

/-! ### Underscores -/

/-- The name starts with an underscore. -/
def isHidden (name : String) : Bool := ['_'].isPrefixOf name.toList

theorem isHidden_of_isDunder {name : String} (h : isDunder name = true) : isHidden name = true := by
  simp only [isDunder, Bool.and_eq_true, List.isPrefixOf_iff_prefix] at h
  exact List.isPrefixOf_iff_prefix.2 ((List.prefix_append ['_'] ['_']).trans h.1.2)

theorem isHidden_private (name : String) : isHidden ("private" ++ name) = false := by
  rw [isHidden, String.toList_append]
  rfl

theorem isHidden_numbered (stem : String) (n : Nat) :
    isHidden (numbered stem n) = true ↔ stem = "" ∨ isHidden stem = true := by
  unfold isHidden numbered
  cases hcs : stem.toList with
  | nil =>
    have hempty : stem = "" := String.toList_eq_nil_iff.1 hcs
    simp [hempty]
  | cons c cs =>
    have hne : stem ≠ "" := fun h => by simp [h] at hcs
    simp [hcs, hne]

theorem isDunder_numbered (stem : String) (n : Nat) : isDunder (numbered stem n) = false := by
  rw [Bool.eq_false_iff]
  intro h
  simp only [isDunder, Bool.and_eq_true, List.isSuffixOf_iff_suffix] at h
  have hlast : '_' = (counterText n).toList.getLast (counterText_ne_nil n) := by
    simpa [numbered, List.getLast_cons (counterText_ne_nil n)] using h.2.getLast (by simp)
  have hmem : '_' ∈ (counterText n).toList := hlast ▸ List.getLast_mem (counterText_ne_nil n)
  exact absurd (isDigit_of_mem_counterText hmem) (by decide)

end Naming

namespace Target

open Naming

variable (t : Target)

/-! ### The least counter -/

theorem freeName_of_free {symbols : List String} {candidate : String}
    (h : t.hasClash symbols (t.legalize candidate) = false) : t.freeName symbols candidate = t.legalize candidate := by
  simp [freeName, h]

/-- A name that clashes gets the first counter that is free, which is not larger than there are things to clash with. -/
theorem freeName_of_clash {symbols : List String} {candidate : String}
    (h : t.hasClash symbols (t.legalize candidate) = true) :
    ∃ k ≤ t.keywords.length + symbols.dedup.length,
      t.freeName symbols candidate = numbered (t.legalize candidate) (1 + k) ∧
        ∀ j < k, t.hasClash symbols (numbered (t.legalize candidate) (1 + j)) = true := by
  obtain ⟨k, -, heq, hbelow, -⟩ := firstFree_eq (t.hasClash symbols) (t.legalize candidate)
    (t.keywords.length + symbols.length) 1
  obtain ⟨j, hj, hfree⟩ := t.exists_numbered_free symbols.dedup (t.legalize candidate) 1
  refine ⟨k, ?_, by rw [freeName, if_pos h, heq], hbelow⟩
  by_contra hlt
  have hclash := t.hasClash_mono (List.subset_dedup symbols) (hbelow j (by omega))
  rw [hfree] at hclash
  cases hclash

/-- The proposed name is free. It is the legal spelling of the candidate if that is free, and else this spelling with
the least counter from one on that makes it free; a search through the counters finds it. -/
theorem freeName_least (symbols : List String) (candidate : String) :
    t.isReserved (t.freeName symbols candidate) = false ∧
    (∀ s ∈ symbols, t.sameName s (t.freeName symbols candidate) = false) ∧
    (t.hasClash symbols (t.legalize candidate) = false → t.freeName symbols candidate = t.legalize candidate) ∧
    (t.hasClash symbols (t.legalize candidate) = true →
      Finds (t.hasClash symbols) (t.legalize candidate) 1 (t.freeName symbols candidate) ∧
      ∃ n, t.freeName symbols candidate = t.legalize candidate ++ "_" ++ counterText n ∧
        PaddedDecimal 4 n (counterText n) ∧ 1 ≤ n ∧ n ≤ t.keywords.length + symbols.dedup.length + 1 ∧
        ∀ m, 1 ≤ m → m < n → t.hasClash symbols (t.legalize candidate ++ "_" ++ counterText m) = true) := by
  have hfree := t.freeName_hasClash symbols candidate
  have hapart := hfree
  simp only [hasClash, Bool.or_eq_false_iff, List.any_eq_false, Bool.not_eq_true] at hapart
  refine ⟨hapart.1, hapart.2, t.freeName_of_free, fun hclash => ?_⟩
  obtain ⟨k, hk, heq, hbelow⟩ := t.freeName_of_clash hclash
  rw [heq] at hfree ⊢
  refine ⟨finds_of_least hbelow hfree, 1 + k, rfl, counterText_padded _, by omega, by omega, fun m hm hlt => ?_⟩
  obtain ⟨j, rfl⟩ := Nat.exists_eq_add_of_le hm
  exact hbelow j (by omega)

theorem freeName_least_real :
    Target.fortran.hasClash ["REAL_0001"] (Target.fortran.legalize "Real") = true ∧
      Target.fortran.freeName ["REAL_0001"] "Real" = "Real_0002" ∧
      Finds (Target.fortran.hasClash ["REAL_0001"]) "Real" 1 "Real_0002" := by
  obtain ⟨hclash, hname⟩ : Target.fortran.hasClash ["REAL_0001"] (Target.fortran.legalize "Real") = true ∧
      Target.fortran.freeName ["REAL_0001"] "Real" = "Real_0002" := by decide +kernel
  have hfinds := ((freeName_least .fortran ["REAL_0001"] "Real").2.2.2 hclash).1
  rw [hname] at hfinds
  exact ⟨hclash, hname, hfinds⟩

/-! ### Legal spellings -/

/-- The name starts with an underscore only if the language has names between double underscores and it is one. -/
def isLegal (name : String) : Bool := !isHidden name || t.keepsDunder && isDunder name

theorem isLegal_iff {name : String} :
    t.isLegal name = true ↔ (isHidden name = true → t = .cuda ∧ isDunder name = true) := by
  cases t <;> cases hhidden : isHidden name <;> simp [isLegal, keepsDunder, hhidden]

theorem legalize_eq (name : String) : t.legalize name = if t.isLegal name then name else "private" ++ name := by
  unfold legalize isLegal isHidden
  cases t.keepsDunder && isDunder name <;> cases ['_'].isPrefixOf name.toList <;> rfl

theorem legalize_eq_self_iff {name : String} : t.legalize name = name ↔ t.isLegal name = true := by
  rw [legalize_eq]
  split
  · simpa
  · rename_i hlegal
    refine iff_of_false (fun h => ?_) hlegal
    have hlen := congrArg String.length h
    simp at hlen

theorem isLegal_legalize (name : String) : t.isLegal (t.legalize name) = true := by
  rw [legalize_eq]
  split
  · assumption
  · simp [isLegal, isHidden_private]

/-- The candidate is a legal name, and is none any more with a counter behind it. -/
def SpoiledByCounter (candidate : String) : Prop :=
  candidate = "" ∨ t.keepsDunder = true ∧ isDunder candidate = true

variable {t}

theorem SpoiledByCounter.isLegal {candidate : String} (h : t.SpoiledByCounter candidate) :
    t.isLegal candidate = true := by
  rcases h with rfl | ⟨hkeeps, hdunder⟩
  · rfl
  · simp [Target.isLegal, hkeeps, hdunder]

theorem isLegal_numbered {candidate : String} (n : Nat) :
    t.isLegal (numbered (t.legalize candidate) n) = true ↔ ¬ t.SpoiledByCounter candidate := by
  have hown : t.isLegal (numbered (t.legalize candidate) n) = true ↔
      ¬ (t.legalize candidate = "" ∨ isHidden (t.legalize candidate) = true) := by
    rw [isLegal, isDunder_numbered, Bool.and_false, Bool.or_false, Bool.not_eq_true', Bool.eq_false_iff, ne_eq,
      isHidden_numbered]
  rw [hown, not_iff_not, legalize_eq]
  split
  · rename_i hlegal
    refine or_congr_right ⟨fun hhidden => ?_, fun hdunder => isHidden_of_isDunder hdunder.2⟩
    simpa [isLegal, hhidden] using hlegal
  · rename_i hlegal
    refine iff_of_false ?_ fun h => hlegal h.isLegal
    simp [isHidden_private]

/-! ### Names that are proposed again -/

variable (t)

theorem length_legalize_le (symbols : List String) (candidate : String) :
    (t.legalize candidate).length ≤ (t.freeName symbols candidate).length := by
  cases hclash : t.hasClash symbols (t.legalize candidate) with
  | false => rw [t.freeName_of_free hclash]
  | true =>
    obtain ⟨k, -, heq, -⟩ := t.freeName_of_clash hclash
    rw [heq]
    simp [numbered]
    omega

/-- A proposed name is legal, unless the candidate clashes and the counter spoils it. -/
theorem isLegal_freeName (symbols : List String) (candidate : String) :
    t.isLegal (t.freeName symbols candidate) = true ↔
      ¬ (t.hasClash symbols candidate = true ∧ t.SpoiledByCounter candidate) := by
  have hown : t.SpoiledByCounter candidate → t.legalize candidate = candidate :=
    fun h => t.legalize_eq_self_iff.2 h.isLegal
  cases hclash : t.hasClash symbols (t.legalize candidate) with
  | false =>
    rw [t.freeName_of_free hclash]
    refine iff_of_true (t.isLegal_legalize candidate) ?_
    rintro ⟨hclash', h⟩
    rw [hown h, hclash'] at hclash
    cases hclash
  | true =>
    obtain ⟨k, -, heq, -⟩ := t.freeName_of_clash hclash
    rw [heq, isLegal_numbered, not_iff_not]
    exact ⟨fun h => ⟨hown h ▸ hclash, h⟩, And.right⟩

/-- A name that is free is proposed for itself exactly if it is legal. -/
theorem freeName_eq_self_iff {symbols : List String} {name : String} (hfree : t.hasClash symbols name = false) :
    t.freeName symbols name = name ↔ t.isLegal name = true := by
  constructor
  · intro h
    by_contra hlegal
    have hlen := t.length_legalize_le symbols name
    rw [h, legalize_eq, if_neg hlegal] at hlen
    simp at hlen
  · intro hlegal
    have hown := t.legalize_eq_self_iff.2 hlegal
    rw [t.freeName_of_free (by rwa [hown]), hown]

/-- A proposed name is its own legal spelling, and is proposed again for itself, exactly if it is legal. It is so unless
the candidate clashes and the counter spoils it, and whatever is proposed the second time is. -/
theorem freeName_stable_iff (symbols : List String) (candidate : String) :
    let name := t.freeName symbols candidate
    (t.legalize name = name ↔ (isHidden name = true → t = .cuda ∧ isDunder name = true)) ∧
    (t.legalize name = name ↔ ¬ (t.hasClash symbols candidate = true ∧ t.SpoiledByCounter candidate)) ∧
    (t.freeName symbols name = name ↔ ¬ (t.hasClash symbols candidate = true ∧ t.SpoiledByCounter candidate)) ∧
    t.legalize (t.freeName symbols name) = t.freeName symbols name ∧
    t.freeName symbols (t.freeName symbols name) = t.freeName symbols name := by
  intro name
  have hfree : t.hasClash symbols name = false := t.freeName_hasClash symbols candidate
  have hlegal : t.isLegal (t.freeName symbols name) = true :=
    (t.isLegal_freeName symbols name).2 fun h => by simp [hfree] at h
  refine ⟨?_, ?_, ?_, t.legalize_eq_self_iff.2 hlegal, ?_⟩
  · rw [legalize_eq_self_iff, isLegal_iff]
  · rw [legalize_eq_self_iff, isLegal_freeName]
  · rw [t.freeName_eq_self_iff hfree, isLegal_freeName]
  · exact (t.freeName_eq_self_iff (t.freeName_hasClash symbols name)).2 hlegal

/-- For a reserved word between double underscores `__global___0001` is proposed, and `_0001` for the empty name where
that is in use. -/
theorem freeName_global_illegal :
    (Target.cuda.legalize (Target.cuda.freeName [] "__global__") ≠ Target.cuda.freeName [] "__global__" ∧
      Target.cuda.freeName [] (Target.cuda.freeName [] "__global__") ≠ Target.cuda.freeName [] "__global__") ∧
    Target.fortran.legalize (Target.fortran.freeName [""] "") ≠ Target.fortran.freeName [""] "" ∧
      Target.fortran.freeName [""] (Target.fortran.freeName [""] "") ≠ Target.fortran.freeName [""] "" := by
  have hillegal : ∀ (t : Target) (symbols : List String) (candidate : String), t.hasClash symbols candidate = true →
      t.SpoiledByCounter candidate → t.legalize (t.freeName symbols candidate) ≠ t.freeName symbols candidate ∧
        t.freeName symbols (t.freeName symbols candidate) ≠ t.freeName symbols candidate := by
    intro t symbols candidate hclash hspoiled
    rw [ne_eq, ne_eq, t.legalize_eq_self_iff, t.freeName_eq_self_iff (t.freeName_hasClash symbols candidate),
      isLegal_freeName, not_not]
    exact ⟨⟨hclash, hspoiled⟩, hclash, hspoiled⟩
  have hglobal : Target.cuda.hasClash [] "__global__" = true := (hasClash_iff _).2 (by decide +kernel)
  have hempty : Target.fortran.hasClash [""] "" = true := (hasClash_iff _).2 (by simp)
  exact ⟨hillegal _ _ _ hglobal (.inr ⟨rfl, by decide +kernel⟩), hillegal _ _ _ hempty (.inl rfl)⟩

end Target

end AbiBridge
