import Mathlib
import AbiBridge.Json.Decode

/-!
# What decoders recover

`Decoder.Recovers d toJson a`: from the document of `a` the decoder `d` gets `a` back, in any room that is as
large as the document is deep. Records are recovered field by field: an object with distinct member names
holds each of its members (`fields?_obj`), and a field that is held is recovered whether it is required or has
a default.
-/

namespace AbiBridge

open Json

/-- The decoder gets the value back from its document, given the room that the document takes. -/
def Decoder.Recovers {α : Type} (d : Decoder α) (toJson : α → Json) (a : α) : Prop :=
  ∀ room, (toJson a).depth ≤ room → d room (toJson a) = some a

namespace Json

theorem depth_le_of_mem_items {j : Json} {items : List Json} (h : j ∈ items) : j.depth ≤ depthItems items := by
  induction items with
  | nil => cases h
  | cons i items ih =>
    rw [depthItems]
    rcases List.mem_cons.1 h with rfl | h
    · exact Nat.le_max_left _ _
    · exact (ih h).trans (Nat.le_max_right _ _)

theorem depth_le_of_mem_members {k : String} {j : Json} {members : List (String × Json)}
    (h : (k, j) ∈ members) : j.depth ≤ depthMembers members := by
  induction members with
  | nil => cases h
  | cons m members ih =>
    rw [depthMembers]
    rcases List.mem_cons.1 h with rfl | h
    · exact Nat.le_max_left _ _
    · exact (ih h).trans (Nat.le_max_right _ _)

theorem exists_room_arr {items : List Json} {room : Nat} (h : (arr items).depth ≤ room) :
    ∃ inner, room = inner + 1 ∧ ∀ j ∈ items, j.depth ≤ inner := by
  rw [depth] at h
  refine ⟨room - 1, by omega, fun j hj => ?_⟩
  have := depth_le_of_mem_items hj
  omega

theorem exists_room_obj {members : List (String × Json)} {room : Nat} (h : (obj members).depth ≤ room) :
    ∃ inner, room = inner + 1 ∧ ∀ k j, (k, j) ∈ members → j.depth ≤ inner := by
  rw [depth] at h
  refine ⟨room - 1, by omega, fun k j hj => ?_⟩
  have := depth_le_of_mem_members hj
  omega

theorem exists_room_tagged {tag : String} {body : Json} {room : Nat} (h : (tagged tag body).depth ≤ room) :
    ∃ inner, room = inner + 1 ∧ body.depth ≤ inner := by
  obtain ⟨inner, rfl, hbody⟩ := exists_room_obj h
  exact ⟨inner, rfl, hbody tag body (List.mem_singleton.2 rfl)⟩

end Json

theorem bind_of_some {α β : Type} {x : Option α} {g : α → Option β} {a : α} {r : Option β} (hx : x = some a)
    (hg : g a = r) : (x >>= g) = r := by
  rw [hx]
  exact hg

theorem mapM_map_some {α β : Type} {f : α → β} {g : β → Option α} {l : List α} (h : ∀ a ∈ l, g (f a) = some a) :
    (l.map f).mapM g = some l := by
  induction l with
  | nil => rfl
  | cons a l ih =>
    obtain ⟨ha, hl⟩ := List.forall_mem_cons.1 h
    rw [List.map_cons, List.mapM_cons, ha, ih hl]
    rfl

namespace Decoder.Recovers

variable {α : Type} {d : Decoder α} {toJson : α → Json}

theorem bool (b : Bool) : Decoder.bool.Recovers .bool b := fun _ _ => rfl

theorem string (s : String) : Decoder.string.Recovers .str s := fun _ _ => rfl

theorem intBetween {low high n : Int} (hl : low ≤ n) (hh : n ≤ high) :
    (Decoder.intBetween low high).Recovers .int n := by
  intro room _
  simp [Decoder.intBetween, Json.int, Numeral.toInt?_ofInt, hl, hh]

theorem int64 {n : Int} (hl : -2 ^ 63 ≤ n) (hh : n < 2 ^ 63) : Decoder.int64.Recovers .int n :=
  intBetween (by omega) (by omega)

theorem natBits {width n : Nat} (h : n < 2 ^ width) : (Decoder.natBits width).Recovers .nat n := by
  intro room hroom
  have hn : Decoder.intBetween 0 (Nat.pow 2 width - 1 : Nat) room (.nat n) = some (n : Int) := by
    refine intBetween (Int.natCast_nonneg n) ?_ room hroom
    have : n ≤ Nat.pow 2 width - 1 := Nat.le_sub_one_of_lt h
    exact_mod_cast this
  rw [Decoder.natBits, hn]
  rfl

theorem nullable {o : Option α} (h : ∀ a ∈ o, d.Recovers toJson a) (hn : ∀ a, toJson a ≠ .null) :
    d.nullable.Recovers (.ofOption toJson) o := by
  intro room hroom
  cases o with
  | none => rfl
  | some a =>
    have ha : d room (toJson a) = some a := h a rfl room hroom
    show d.nullable room (toJson a) = some (some a)
    rw [Decoder.nullable.eq_2 d room (toJson a) (hn a), ha]
    rfl

theorem list {l : List α} (h : ∀ a ∈ l, d.Recovers toJson a) : d.list.Recovers (.list toJson) l := by
  intro room hroom
  obtain ⟨inner, rfl, hitems⟩ := exists_room_arr hroom
  exact mapM_map_some fun a ha => h a ha inner (hitems _ (List.mem_map_of_mem ha))

theorem each (l : List α) (h : ∀ a, d.Recovers toJson a) : d.list.Recovers (.list toJson) l :=
  list fun a _ => h a

end Decoder.Recovers

namespace Json

/-- The record holds a document under that name, and has the room to read it. -/
structure Fields.Holds (f : Fields) (name : String) (j : Json) : Prop where
  get? : f.get? name = some j
  room : j.depth ≤ f.room

namespace Fields.Holds

variable {α : Type} {f : Fields} {name : String} {d : Decoder α} {toJson : α → Json} {a : α}

theorem required (h : f.Holds name (toJson a)) (hd : d.Recovers toJson a) : f.required name d = some a := by
  rw [Fields.required, h.get?]
  exact hd f.room h.room

theorem defaulted (h : f.Holds name (toJson a)) (value : α) (hd : d.Recovers toJson a) :
    f.defaulted name value d = some a := by
  rw [Fields.defaulted, h.get?]
  exact hd f.room h.room

theorem optional {o : Option α} (h : f.Holds name (.ofOption toJson o)) (hd : d.nullable.Recovers (.ofOption toJson) o) :
    f.optional name d = some o := by
  rw [Fields.optional, h.get?]
  exact hd f.room h.room

end Fields.Holds

theorem lookup_of_mem {members : List (String × Json)} (hnd : (members.map Prod.fst).Nodup) {k : String} {j : Json}
    (h : (k, j) ∈ members) : members.lookup k = some j := by
  induction members with
  | nil => cases h
  | cons m members ih =>
    obtain ⟨hm, hnd⟩ := List.nodup_cons.1 hnd
    rcases List.mem_cons.1 h with rfl | h
    · exact List.lookup_cons_self
    · have hne : k ≠ m.1 := by
        rintro rfl
        exact hm (List.mem_map.2 ⟨_, h, rfl⟩)
      rw [List.lookup_cons, beq_false_of_ne hne]
      exact ih hnd h

/-- An object whose member names are those of the record, each once. -/
theorem fields?_obj (names : List String) {members : List (String × Json)} (closed : Bool)
    (hnames : members.map Prod.fst = names) (hnd : names.Nodup) {room : Nat} (h : (obj members).depth ≤ room) :
    ∃ f, fields? names closed room (.obj members) = some f ∧ ∀ k j, (k, j) ∈ members → f.Holds k j := by
  obtain ⟨inner, rfl, hinner⟩ := exists_room_obj h
  have hrep : nonRepeating names members = true := by
    subst hnames
    refine List.all_eq_true.2 fun n hn => decide_eq_true ?_
    have hc : (members.map Prod.fst).count n ≤ 1 := List.nodup_iff_count_le_one.1 hnd n
    rwa [List.count, List.countP_map, List.countP_eq_length_filter] at hc
  have hclosed : (!closed || members.all fun m => names.contains m.1) = true := by
    subst hnames
    rw [Bool.or_eq_true]
    exact .inr (List.all_eq_true.2 fun m hm => List.contains_iff_mem.2 (List.mem_map_of_mem hm))
  refine ⟨⟨inner, false, members⟩, ?_, fun k j hm => ⟨lookup_of_mem (hnames ▸ hnd) hm, hinner k j hm⟩⟩
  rw [fields?, hrep, hclosed]
  rfl

end Json

end AbiBridge
