import Mathlib
import AbiBridge.Naming.Free

/-!
# Free names are free

`Target.freeName_hasClash`: the name made from a candidate clashes with neither a keyword nor a symbol.
The search for a counter tries one number more than there are keywords and symbols. Two numbered names
with one stem have different canonical spellings (`canonical_numbered_inj`), so a keyword or a symbol
blocks one counter at most, and one of the tried numbers is free. The search finds the first free number,
so that a name which is still free among more symbols is still the one that is made (`freeName_eq_of_subset`).
-/

namespace AbiBridge

namespace Naming

theorem ofDigitChars_counterText (n : Nat) : Nat.ofDigitChars 10 (counterText n).toList 0 = n := by
  simp [counterText, Nat.ofDigitChars_append, Nat.ofDigitChars_ten_toDigits]

theorem isDigit_of_mem_counterText {n : Nat} {c : Char} (h : c ∈ (counterText n).toList) : c.isDigit = true := by
  simp only [counterText, String.toList_ofList, List.mem_append, List.mem_replicate] at h
  rcases h with ⟨-, rfl⟩ | h
  · decide
  · exact Nat.isDigit_of_mem_toDigits (by decide) (by decide) h

theorem toLower_of_mem_counterText {n : Nat} {c : Char} (h : c ∈ (counterText n).toList) :
    c.toLower = c := by
  have hd := isDigit_of_mem_counterText h
  simp only [Char.isDigit, Bool.and_eq_true, decide_eq_true_eq] at hd
  have hu : ¬ (c.val ≥ 'A'.val ∧ c.val ≤ 'Z'.val) := by
    rintro ⟨hA, -⟩
    exact absurd (UInt32.le_trans hA hd.2) (by decide)
  simp only [Char.toLower, hu, ↓reduceDIte]

theorem toList_foldCase_numbered (stem : String) (n : Nat) :
    (foldCase (numbered stem n)).toList = (foldCase (stem ++ "_")).toList ++ (counterText n).toList := by
  have hc : (counterText n).toList.map Char.toLower = (counterText n).toList :=
    List.map_congr_left (fun c hc => toLower_of_mem_counterText hc) |>.trans (List.map_id _)
  simp [foldCase, numbered, hc]

/-- The search stops at the first number that is not taken, unless it runs out of tries. -/
theorem firstFree_eq (taken : String → Bool) (stem : String) (tries start : Nat) :
    ∃ k ≤ tries, firstFree taken stem tries start = numbered stem (start + k) ∧
      (∀ j < k, taken (numbered stem (start + j)) = true) ∧
      (k < tries → taken (numbered stem (start + k)) = false) := by
  induction tries generalizing start with
  | zero => exact ⟨0, Nat.le_refl 0, rfl, fun j hj => absurd hj (Nat.not_lt_zero j), fun h => absurd h (Nat.lt_irrefl 0)⟩
  | succ tries ih =>
    by_cases ht : taken (numbered stem start) = true
    · obtain ⟨k, hk, heq, hbelow, hstop⟩ := ih (start + 1)
      refine ⟨k + 1, by omega, ?_, fun j hj => ?_, fun h => ?_⟩
      · rw [firstFree, if_pos ht, heq]; congr 1; omega
      · cases j with
        | zero => exact ht
        | succ j =>
          have := hbelow j (by omega)
          rwa [show start + 1 + j = start + (j + 1) by omega] at this
      · have := hstop (by omega)
        rwa [show start + 1 + k = start + (k + 1) by omega] at this
    · refine ⟨0, Nat.zero_le _, by rw [firstFree, if_neg ht]; rfl, fun j hj => absurd hj (Nat.not_lt_zero j), fun _ => ?_⟩
      exact Bool.eq_false_iff.2 ht

end Naming

namespace Target

open Naming

variable (t : Target)

theorem canonical_numbered_inj {stem : String} {m n : Nat}
    (h : t.canonical (numbered stem m) = t.canonical (numbered stem n)) : m = n := by
  have hl : (counterText m).toList = (counterText n).toList := by
    cases t with
    | fortran =>
      have h' := congrArg String.toList h
      simp only [canonical, toList_foldCase_numbered] at h'
      exact List.append_cancel_left h'
    | cuda =>
      have h' := congrArg String.toList h
      simp only [canonical, numbered, String.toList_append] at h'
      exact List.append_cancel_left h'
  rw [← ofDigitChars_counterText m, hl, ofDigitChars_counterText n]

theorem hasClash_iff {symbols : List String} {name : String} :
    t.hasClash symbols name = true ↔
      t.canonical name ∈ (t.keywords ++ symbols).map t.canonical := by
  simp only [hasClash, isReserved, Bool.or_eq_true, List.any_eq_true, sameName_iff, List.map_append,
    List.mem_append, List.mem_map]

/-- Of one number more than there are keywords and symbols, one is not blocked. -/
theorem exists_numbered_free (symbols : List String) (stem : String) (start : Nat) :
    ∃ k ≤ t.keywords.length + symbols.length,
      t.hasClash symbols (numbered stem (start + k)) = false := by
  by_contra hall
  push Not at hall
  -- the spellings of these numbers are all different, and were they all blocked they would be too many
  have hsub : (Finset.range (t.keywords.length + symbols.length + 1)).image
      (fun k => t.canonical (numbered stem (start + k))) ⊆
      ((t.keywords ++ symbols).map t.canonical).toFinset := by
    intro c hc
    obtain ⟨k, hk, rfl⟩ := Finset.mem_image.1 hc
    have hclash := hall k (Nat.lt_succ_iff.1 (Finset.mem_range.1 hk))
    exact List.mem_toFinset.2 (t.hasClash_iff.1 (by simpa using hclash))
  have hcard := Finset.card_le_card hsub
  rw [Finset.card_image_of_injective _ fun a b h => Nat.add_left_cancel (t.canonical_numbered_inj h),
    Finset.card_range] at hcard
  have hlen := hcard.trans (List.toFinset_card_le _)
  simp at hlen

theorem freeName_hasClash (symbols : List String) (candidate : String) :
    t.hasClash symbols (t.freeName symbols candidate) = false := by
  rw [freeName]
  split
  · obtain ⟨k, hk, heq, hbelow, hstop⟩ := firstFree_eq (t.hasClash symbols) (t.legalize candidate)
      (t.keywords.length + symbols.length) 1
    obtain ⟨j, hj, hfree⟩ := t.exists_numbered_free symbols (t.legalize candidate) 1
    rw [heq]
    -- the search stops at `k`: not after the free `j`, and before it only at a free number
    rcases Nat.lt_trichotomy j k with hlt | rfl | hgt
    · rw [hbelow j hlt] at hfree; cases hfree
    · exact hfree
    · exact hstop (by omega)
  · exact Bool.eq_false_iff.2 ‹_›

theorem freeName_notMem (symbols : List String) (candidate : String) :
    t.freeName symbols candidate ∉ symbols := by
  intro h
  have hclash : t.hasClash symbols (t.freeName symbols candidate) = true :=
    t.hasClash_iff.2 (List.mem_map_of_mem (List.mem_append_right _ h))
  rw [t.freeName_hasClash] at hclash
  cases hclash

theorem hasClash_mono {symbols symbols' : List String} (hsub : symbols ⊆ symbols') {name : String}
    (h : t.hasClash symbols name = true) : t.hasClash symbols' name = true := by
  rw [t.hasClash_iff, List.map_append, List.mem_append] at h ⊢
  exact h.imp_right fun hmem => List.map_subset _ hsub hmem

/-- A free name stays the first one while the names tried before it stay taken. -/
theorem freeName_eq_of_subset {symbols symbols' : List String} (hsub : symbols ⊆ symbols') {candidate : String}
    (hfree : t.hasClash symbols' (t.freeName symbols candidate) = false) :
    t.freeName symbols' candidate = t.freeName symbols candidate := by
  have hfree' := t.freeName_hasClash symbols' candidate
  unfold freeName at hfree hfree' ⊢
  by_cases hclash : t.hasClash symbols (t.legalize candidate) = true
  · have hclash' := t.hasClash_mono hsub hclash
    rw [if_pos hclash] at hfree
    rw [if_pos hclash'] at hfree'
    rw [if_pos hclash, if_pos hclash']
    obtain ⟨k, -, heq, hbelow, -⟩ := firstFree_eq (t.hasClash symbols) (t.legalize candidate)
      (t.keywords.length + symbols.length) 1
    obtain ⟨k', -, heq', hbelow', -⟩ := firstFree_eq (t.hasClash symbols') (t.legalize candidate)
      (t.keywords.length + symbols'.length) 1
    rw [heq] at hfree ⊢
    rw [heq'] at hfree' ⊢
    -- what either search passes over is taken among the larger list of symbols
    rcases Nat.lt_trichotomy k k' with hlt | rfl | hgt
    · rw [hbelow' k hlt] at hfree
      cases hfree
    · rfl
    · rw [t.hasClash_mono hsub (hbelow k' hgt)] at hfree'
      cases hfree'
  · rw [if_neg hclash] at hfree ⊢
    rw [if_neg (Bool.eq_false_iff.1 hfree)]

end Target

end AbiBridge
