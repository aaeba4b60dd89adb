import Mathlib
import AbiBridge.Json.Printer
import AbiBridge.Proofs.Decoding
import AbiBridge.Proofs.NumeralText

/-!
# Documents are read back from their text

The compact text of a document that has no unreadable part is read as that document (`parse?_render`), so
different documents have different texts (`render_inj`). The reader is given a text with something behind it:
of a numeral, which has no end mark of its own, nothing may follow that would continue it. A quantity of fuel
of twice the length of the text is enough for a value, and one more for a list of values.
-/

namespace AbiBridge.Json

/-! ### Strings -/

theorem unit?_hexDigit {n : Nat} (h : n < 32) : unit? '0' '0' (hexDigit (n / 16)) (hexDigit n) = some n := by
  revert n
  decide

theorem ofUnit_of_lt {n : Nat} (h : n < 32) : Piece.ofUnit n = .char (Char.ofNat n) := by
  have hu : (isHighSurrogate n || isLowSurrogate n) = false := by
    simp only [isHighSurrogate, isLowSurrogate, Bool.or_eq_false_iff, Bool.and_eq_false_iff,
      decide_eq_false_iff_not]
    omega
  simp [Piece.ofUnit, hu]

theorem pieces?_letter (acc : List Piece) {l e : Char} (hl : l ≠ 'u') (he : escaped? l = some e)
    (rest : List Char) : pieces? acc ('\\' :: l :: rest) = pieces? (.char e :: acc) rest := by
  rw [pieces?.eq_4 acc l rest (fun _ _ _ _ _ hu _ => hl hu), he]

theorem pieces?_control (acc : List Piece) {c l : Char} {n : Nat} (hc : c.toNat = n) (hl : l ≠ 'u')
    (he : escaped? l = some (Char.ofNat n)) (rest : List Char) :
    pieces? acc ('\\' :: l :: rest) = pieces? (.char c :: acc) rest := by
  rw [pieces?_letter acc hl he, ← hc, Char.ofNat_toNat]

theorem pieces?_unit (acc : List Piece) {c : Char} (h : c.toNat < 32) (rest : List Char) :
    pieces? acc ('\\' :: 'u' :: '0' :: '0' :: hexDigit (c.toNat / 16) :: hexDigit c.toNat :: rest)
      = pieces? (.char c :: acc) rest := by
  rw [pieces?, unit?_hexDigit h]
  simp only [ofUnit_of_lt h, Char.ofNat_toNat]

theorem pieces?_plain (acc : List Piece) {c : Char} (hq : c ≠ '"') (hb : c ≠ '\\') (hc : ¬ c.toNat < 32)
    (rest : List Char) : pieces? acc (c :: rest) = pieces? (.char c :: acc) rest := by
  rw [pieces?.eq_5 acc c rest hq (fun _ _ _ _ _ h _ => hb h) (fun _ _ h _ => hb h), if_neg hc]

/-- What stands for a character inside a string is read as that character. -/
theorem pieces?_escape (acc : List Piece) (c : Char) (rest : List Char) :
    pieces? acc (escape c ++ rest) = pieces? (.char c :: acc) rest := by
  unfold escape
  split_ifs with hq hb h8 h9 h10 h12 h13 hc
  · subst hq
    exact pieces?_letter acc (by decide) rfl rest
  · subst hb
    exact pieces?_letter acc (by decide) rfl rest
  · exact pieces?_control acc h8 (by decide) rfl rest
  · exact pieces?_control acc h9 (by decide) rfl rest
  · exact pieces?_control acc h10 (by decide) rfl rest
  · exact pieces?_control acc h12 (by decide) rfl rest
  · exact pieces?_control acc h13 (by decide) rfl rest
  · exact pieces?_unit acc hc rest
  · exact pieces?_plain acc hq hb hc rest

theorem pieces?_flatMap_escape (acc : List Piece) (cs rest : List Char) :
    pieces? acc (cs.flatMap escape ++ '"' :: rest) = some (acc.reverse ++ cs.map .char, rest) := by
  induction cs generalizing acc with
  | nil => simp [pieces?]
  | cons c cs ih =>
    rw [List.flatMap_cons, List.append_assoc, pieces?_escape, ih]
    simp

theorem joinPieces?_chars (acc cs : List Char) :
    joinPieces? acc (cs.map .char) = some (String.ofList (acc.reverse ++ cs)) := by
  induction cs generalizing acc with
  | nil => simp [joinPieces?]
  | cons c cs ih => simp [joinPieces?, ih]

theorem toList_quote (s : String) : (quote s).toList = '"' :: (s.toList.flatMap escape ++ ['"']) := by
  simp [quote]

theorem stringBody?_escape (s : String) (rest : List Char) :
    stringBody? (s.toList.flatMap escape ++ '"' :: rest) = some (some s, rest) := by
  rw [stringBody?, pieces?_flatMap_escape]
  simp [joinPieces?_chars]

/-! ### Documents that can be read -/

mutual

/-- No part of the document is unreadable. -/
def Readable : Json → Prop
  | .unreadable => False
  | .arr items => ReadableItems items
  | .obj members => ReadableMembers members
  | _ => True

def ReadableItems : List Json → Prop
  | [] => True
  | j :: rest => j.Readable ∧ ReadableItems rest

def ReadableMembers : List (String × Json) → Prop
  | [] => True
  | (_, j) :: rest => j.Readable ∧ ReadableMembers rest

end

theorem readableItems_iff {items : List Json} : ReadableItems items ↔ ∀ j ∈ items, j.Readable := by
  induction items with
  | nil => simp [ReadableItems]
  | cons j items ih => simp [ReadableItems, ih]

theorem readableMembers_iff {members : List (String × Json)} :
    ReadableMembers members ↔ ∀ m ∈ members, m.2.Readable := by
  induction members with
  | nil => simp [ReadableMembers]
  | cons m members ih => simp [ReadableMembers, ih]

@[simp] theorem readable_null : Readable .null := trivial
@[simp] theorem readable_bool (b : Bool) : Readable (.bool b) := trivial
@[simp] theorem readable_num (n : Numeral) : Readable (.num n) := trivial
@[simp] theorem readable_str (s : String) : Readable (.str s) := trivial
@[simp] theorem readable_int (n : Int) : Readable (.int n) := trivial
@[simp] theorem readable_nat (n : Nat) : Readable (.nat n) := trivial

@[simp] theorem readable_arr (items : List Json) : Readable (.arr items) ↔ ∀ j ∈ items, j.Readable :=
  readableItems_iff

@[simp] theorem readable_obj (members : List (String × Json)) :
    Readable (.obj members) ↔ ∀ m ∈ members, m.2.Readable :=
  readableMembers_iff

@[simp] theorem readable_tagged (tag : String) (body : Json) : Readable (.tagged tag body) ↔ body.Readable := by
  simp [tagged]

@[simp] theorem readable_list {α : Type} (f : α → Json) (l : List α) :
    Readable (.list f l) ↔ ∀ a ∈ l, (f a).Readable := by
  simp [Json.list]

@[simp] theorem readable_ofOption {α : Type} (f : α → Json) (o : Option α) :
    Readable (.ofOption f o) ↔ ∀ a ∈ o, (f a).Readable := by
  cases o <;> simp [ofOption]

@[simp] theorem readable_float (x : Binary64) : Readable (.float x) := by
  unfold Json.float
  split <;> simp

/-! ### Steps of the reader -/

theorem skipBlanks_of_not {c : Char} {cs : List Char} (h : isBlank c = false) :
    skipBlanks (c :: cs) = c :: cs := by
  simp [skipBlanks, h]

theorem value?_null (fuel : Nat) (rest : List Char) :
    value? (fuel + 1) ('n' :: 'u' :: 'l' :: 'l' :: rest) = some (.null, rest) := rfl

theorem value?_true (fuel : Nat) (rest : List Char) :
    value? (fuel + 1) ('t' :: 'r' :: 'u' :: 'e' :: rest) = some (.bool true, rest) := rfl

theorem value?_false (fuel : Nat) (rest : List Char) :
    value? (fuel + 1) ('f' :: 'a' :: 'l' :: 's' :: 'e' :: rest) = some (.bool false, rest) := rfl

theorem value?_str (fuel : Nat) (s : String) (rest : List Char) :
    value? (fuel + 1) ((quote s).toList ++ rest) = some (.str s, rest) := by
  have h : (quote s).toList ++ rest = '"' :: (s.toList.flatMap escape ++ '"' :: rest) := by
    simp [toList_quote]
  rw [h, value?, skipBlanks_of_not rfl]
  simp only [stringBody?_escape]

/-- A numeral begins as no other value does, and not with a blank. -/
theorem exists_text_nonblank (n : Numeral) :
    ∃ c cs, n.text.toList = c :: cs ∧ isBlank c = false ∧ ∀ x, Digit.ofChar? x = none → x ≠ '-' → c ≠ x := by
  obtain ⟨c, cs, hc, hne⟩ := exists_text n
  refine ⟨c, cs, hc, ?_, fun x hx hs => hne x hx fun _ => hs⟩
  simp only [isBlank, Bool.or_eq_false_iff, decide_eq_false_iff_not]
  refine ⟨⟨⟨?_, ?_⟩, ?_⟩, ?_⟩ <;> exact hne _ rfl fun _ => by decide

theorem value?_num (fuel : Nat) (n : Numeral) {rest : List Char} (h : EndsNumeral rest) :
    value? (fuel + 1) (n.text.toList ++ rest) = some (.num n, rest) := by
  have hread := numeral?_append n h
  obtain ⟨c, cs, hc, hb, hne⟩ := exists_text_nonblank n
  rw [hc, List.cons_append] at hread ⊢
  rw [value?, skipBlanks_of_not hb]
  split
  case h_7 => rw [hread]
  all_goals
    next h' => exact absurd (List.cons.inj h').1 (hne _ rfl (by decide))

theorem value?_arr_nil (fuel : Nat) (rest : List Char) :
    value? (fuel + 1) ('[' :: ']' :: rest) = some (.arr [], rest) := rfl

theorem value?_obj_nil (fuel : Nat) (rest : List Char) :
    value? (fuel + 1) ('\x7b' :: '\x7d' :: rest) = some (.obj [], rest) := rfl

theorem value?_arr {fuel : Nat} {c : Char} {cs rest : List Char} {items : List Json} (hb : isBlank c = false)
    (hc : c ≠ ']') (h : items? fuel (c :: cs) = some (items, rest)) :
    value? (fuel + 1) ('[' :: c :: cs) = some (.arr items, rest) := by
  rw [value?, skipBlanks_of_not rfl]
  simp only [skipBlanks_of_not hb]
  split
  · next h' => exact absurd (List.cons.inj h').1 hc
  · rw [h]

theorem items?_last {fuel : Nat} {cs rest : List Char} {j : Json}
    (h : value? fuel cs = some (j, ']' :: rest)) : items? (fuel + 1) cs = some ([j], rest) := by
  rw [items?, h]
  simp only [skipBlanks_of_not (show isBlank ']' = false from rfl)]

theorem items?_cons {fuel : Nat} {cs cs' rest : List Char} {j : Json} {items : List Json}
    (h : value? fuel cs = some (j, ',' :: cs')) (hr : items? fuel cs' = some (items, rest)) :
    items? (fuel + 1) cs = some (j :: items, rest) := by
  rw [items?, h]
  simp only [skipBlanks_of_not (show isBlank ',' = false from rfl), hr]

theorem ofMembers_some (members : List (String × Json)) :
    ofMembers (members.map fun m => (some m.1, m.2)) = .obj members := by
  rw [ofMembers, mapM_map_some]
  intro m _
  rfl

theorem value?_obj {fuel : Nat} {cs rest : List Char} {members : List (String × Json)}
    (h : members? fuel ('"' :: cs) = some (members.map fun m => (some m.1, m.2), rest)) :
    value? (fuel + 1) ('\x7b' :: '"' :: cs) = some (.obj members, rest) := by
  rw [value?, skipBlanks_of_not rfl]
  simp only [skipBlanks_of_not (show isBlank '"' = false from rfl)]
  split
  · next h' => exact absurd (List.cons.inj h').1 (by decide)
  · rw [h, ← ofMembers_some]

theorem members?_last {fuel : Nat} {k : String} {cs rest : List Char} {j : Json}
    (h : value? fuel cs = some (j, '\x7d' :: rest)) :
    members? (fuel + 1) ((quote k).toList ++ ':' :: cs) = some ([(some k, j)], rest) := by
  have hk : (quote k).toList ++ ':' :: cs = '"' :: (k.toList.flatMap escape ++ '"' :: ':' :: cs) := by
    simp [toList_quote]
  rw [hk, members?, skipBlanks_of_not rfl]
  simp only [stringBody?_escape, skipBlanks_of_not (show isBlank ':' = false from rfl), h,
    skipBlanks_of_not (show isBlank '\x7d' = false from rfl)]

theorem members?_cons {fuel : Nat} {k : String} {cs cs' rest : List Char} {j : Json}
    {members : List (Option String × Json)} (h : value? fuel cs = some (j, ',' :: cs'))
    (hr : members? fuel cs' = some (members, rest)) :
    members? (fuel + 1) ((quote k).toList ++ ':' :: cs) = some ((some k, j) :: members, rest) := by
  have hk : (quote k).toList ++ ':' :: cs = '"' :: (k.toList.flatMap escape ++ '"' :: ':' :: cs) := by
    simp [toList_quote]
  rw [hk, members?, skipBlanks_of_not rfl]
  simp only [stringBody?_escape, skipBlanks_of_not (show isBlank ':' = false from rfl), h,
    skipBlanks_of_not (show isBlank ',' = false from rfl), hr]

/-! ### Whole documents -/

theorem EndsNumeral.nil : EndsNumeral [] :=
  ⟨by simp [NoDigit], by simp, by simp⟩

theorem EndsNumeral.cons {c : Char} (h : c = ',' ∨ c = ']' ∨ c = '\x7d') (rest : List Char) :
    EndsNumeral (c :: rest) := by
  refine ⟨noDigit_cons.2 ?_, fun cs hc => ?_, fun cs => ⟨fun hc => ?_, fun hc => ?_⟩⟩
  · rcases h with rfl | rfl | rfl <;> rfl
  all_goals
    have hc := (List.cons.inj hc).1
    subst hc
    revert h
    decide

theorem toList_render_arr (items : List Json) :
    (arr items).render.toList = '[' :: ((renderItems items).toList ++ [']']) := by
  simp [render]

theorem toList_render_obj (members : List (String × Json)) :
    (obj members).render.toList = '\x7b' :: ((renderMembers members).toList ++ ['\x7d']) := by
  simp [render]

theorem toList_renderItems_cons (j j' : Json) (items : List Json) :
    (renderItems (j :: j' :: items)).toList = j.render.toList ++ ',' :: (renderItems (j' :: items)).toList := by
  simp [renderItems]

theorem toList_renderMembers_singleton (k : String) (j : Json) :
    (renderMembers [(k, j)]).toList = (quote k).toList ++ ':' :: j.render.toList := by
  simp [renderMembers]

theorem toList_renderMembers_cons (k : String) (j : Json) (m : String × Json) (members : List (String × Json)) :
    (renderMembers ((k, j) :: m :: members)).toList
      = (quote k).toList ++ ':' :: (j.render.toList ++ ',' :: (renderMembers (m :: members)).toList) := by
  simp [renderMembers]

theorem exists_render (j : Json) :
    ∃ c cs, j.render.toList = c :: cs ∧ isBlank c = false ∧ c ≠ ']' := by
  cases j with
  | null => exact ⟨_, _, rfl, rfl, by decide⟩
  | bool b => cases b <;> exact ⟨_, _, rfl, rfl, by decide⟩
  | num n =>
    obtain ⟨c, cs, hc, hb, hne⟩ := exists_text_nonblank n
    exact ⟨c, cs, hc, hb, hne _ rfl (by decide)⟩
  | str s => exact ⟨_, _, toList_quote s, rfl, by decide⟩
  | arr items => exact ⟨_, _, toList_render_arr items, rfl, by decide⟩
  | obj members => exact ⟨_, _, toList_render_obj members, rfl, by decide⟩
  | unreadable => exact ⟨_, _, rfl, rfl, by decide⟩

theorem exists_renderItems (j : Json) (items : List Json) :
    ∃ c cs, (renderItems (j :: items)).toList = c :: cs ∧ isBlank c = false ∧ c ≠ ']' := by
  obtain ⟨c, cs, hc, hb, hne⟩ := exists_render j
  cases items with
  | nil => exact ⟨c, cs, hc, hb, hne⟩
  | cons j' items => exact ⟨c, _, by rw [toList_renderItems_cons, hc]; rfl, hb, hne⟩

theorem exists_renderMembers (m : String × Json) (members : List (String × Json)) :
    ∃ cs, (renderMembers (m :: members)).toList = '"' :: cs := by
  cases members with
  | nil => exact ⟨_, by rw [toList_renderMembers_singleton, toList_quote]; rfl⟩
  | cons m' members => exact ⟨_, by rw [toList_renderMembers_cons, toList_quote]; rfl⟩

theorem length_render_pos (j : Json) : 0 < j.render.toList.length := by
  obtain ⟨c, cs, hc, -, -⟩ := exists_render j
  simp [hc]

/-- With this much fuel every text that is short enough is read back. -/
structure Reads (fuel : Nat) : Prop where
  value : ∀ {j : Json} {rest : List Char}, j.Readable → 2 * j.render.toList.length ≤ fuel → EndsNumeral rest →
    value? fuel (j.render.toList ++ rest) = some (j, rest)
  items : ∀ {j : Json} {items : List Json} {rest : List Char}, j.Readable → ReadableItems items →
    2 * (renderItems (j :: items)).toList.length < fuel →
      items? fuel ((renderItems (j :: items)).toList ++ ']' :: rest) = some (j :: items, rest)
  members : ∀ {m : String × Json} {members : List (String × Json)} {rest : List Char}, m.2.Readable →
    ReadableMembers members → 2 * (renderMembers (m :: members)).toList.length < fuel →
      members? fuel ((renderMembers (m :: members)).toList ++ '\x7d' :: rest)
        = some ((m :: members).map fun m => (some m.1, m.2), rest)

namespace Reads

variable {fuel : Nat}

theorem value_succ (h : Reads fuel) {j : Json} {rest : List Char} (hj : j.Readable)
    (hf : 2 * j.render.toList.length ≤ fuel + 1) (hr : EndsNumeral rest) :
    value? (fuel + 1) (j.render.toList ++ rest) = some (j, rest) := by
  cases j with
  | null => exact value?_null fuel rest
  | bool b =>
    cases b with
    | true => exact value?_true fuel rest
    | false => exact value?_false fuel rest
  | num n => exact value?_num fuel n hr
  | str s => exact value?_str fuel s rest
  | arr items =>
    cases items with
    | nil => exact value?_arr_nil fuel rest
    | cons j items =>
      obtain ⟨c, cs, hc, hb, hne⟩ := exists_renderItems j items
      rw [toList_render_arr] at hf ⊢
      simp only [List.length_cons, List.length_append, List.length_nil] at hf
      have hread : items? fuel ((renderItems (j :: items)).toList ++ ']' :: rest) = some (j :: items, rest) :=
        h.items hj.1 hj.2 (by omega)
      rw [List.cons_append, List.append_assoc, List.singleton_append]
      rw [hc] at hread ⊢
      exact value?_arr hb hne hread
  | obj members =>
    cases members with
    | nil => exact value?_obj_nil fuel rest
    | cons m members =>
      obtain ⟨cs, hc⟩ := exists_renderMembers m members
      rw [toList_render_obj] at hf ⊢
      simp only [List.length_cons, List.length_append, List.length_nil] at hf
      have hread : members? fuel ((renderMembers (m :: members)).toList ++ '\x7d' :: rest)
          = some ((m :: members).map fun m => (some m.1, m.2), rest) :=
        h.members hj.1 hj.2 (by omega)
      rw [List.cons_append, List.append_assoc, List.singleton_append]
      rw [hc] at hread ⊢
      exact value?_obj hread
  | unreadable => cases hj

theorem items_succ (h : Reads fuel) {j : Json} {items : List Json} {rest : List Char} (hj : j.Readable)
    (hitems : ReadableItems items) (hf : 2 * (renderItems (j :: items)).toList.length < fuel + 1) :
    items? (fuel + 1) ((renderItems (j :: items)).toList ++ ']' :: rest) = some (j :: items, rest) := by
  cases items with
  | nil =>
    rw [renderItems] at hf ⊢
    exact items?_last (h.value hj (by omega) (.cons (by decide) rest))
  | cons j' items =>
    rw [toList_renderItems_cons] at hf ⊢
    simp only [List.length_append, List.length_cons] at hf
    rw [List.append_assoc, List.cons_append]
    exact items?_cons (h.value hj (by omega) (.cons (by decide) _))
      (h.items hitems.1 hitems.2 (by omega))

theorem members_succ (h : Reads fuel) {m : String × Json} {members : List (String × Json)} {rest : List Char}
    (hm : m.2.Readable) (hmembers : ReadableMembers members)
    (hf : 2 * (renderMembers (m :: members)).toList.length < fuel + 1) :
    members? (fuel + 1) ((renderMembers (m :: members)).toList ++ '\x7d' :: rest)
      = some ((m :: members).map fun m => (some m.1, m.2), rest) := by
  obtain ⟨k, j⟩ := m
  cases members with
  | nil =>
    rw [toList_renderMembers_singleton] at hf ⊢
    simp only [List.length_append, List.length_cons] at hf
    rw [List.append_assoc, List.cons_append]
    exact members?_last (h.value hm (by omega) (.cons (by decide) rest))
  | cons m' members =>
    rw [toList_renderMembers_cons] at hf ⊢
    simp only [List.length_append, List.length_cons] at hf
    rw [List.append_assoc, List.cons_append, List.append_assoc, List.cons_append]
    exact members?_cons (h.value hm (by omega) (.cons (by decide) _))
      (h.members hmembers.1 hmembers.2 (by omega))

end Reads

-- by induction on the fuel, which every call of the reader lowers
theorem reads (fuel : Nat) : Reads fuel := by
  induction fuel with
  | zero =>
    refine ⟨?_, ?_, ?_⟩
    · intro j rest _ hf
      have := length_render_pos j
      omega
    · intro _ _ _ _ _ hf
      omega
    · intro _ _ _ _ _ hf
      omega
  | succ fuel ih => exact ⟨ih.value_succ, ih.items_succ, ih.members_succ⟩

/-- A document is read back from its text. -/
theorem parse?_render {j : Json} (h : j.Readable) : parse? j.render = some j := by
  have hread := (reads (2 * j.render.toList.length + 2)).value h (by omega) .nil
  rw [List.append_nil] at hread
  simp only [parse?, hread]
  rfl

theorem render_inj {j j' : Json} (h : j.Readable) (h' : j'.Readable) (he : j.render = j'.render) : j = j' := by
  have hread := parse?_render h
  rw [he, parse?_render h'] at hread
  exact (Option.some.inj hread).symm

end AbiBridge.Json
