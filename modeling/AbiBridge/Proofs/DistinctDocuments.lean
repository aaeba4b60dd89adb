import Mathlib
import AbiBridge.Scope.Tree
import AbiBridge.Proofs.ModuleRoundTrip
import AbiBridge.Proofs.ShortestDecimal

/-!
# Different values have different documents

`toJson` keeps everything: the case of an alternative is a member name or a bare string, and no two cases share
one; a list keeps its order; `null` stands for an absent value only where no present one is written `null`. So
values with the same document are the same (`toJson_inj`), for types, expressions and statements of any depth.
Nothing is asked of the size of an integer. A floating-point number has to be finite (`Json.float_inj`), since
all the others are written `null`.
-/

namespace AbiBridge

namespace Json

/-! ### Parts of a document -/

@[simp] theorem tagged_inj {t t' : String} {j j' : Json} : tagged t j = tagged t' j' ↔ t = t' ∧ j = j' := by
  simp [tagged]

@[simp] theorem str_ne_tagged {s t : String} {j : Json} : str s ≠ tagged t j := by
  simp [tagged]

@[simp] theorem tagged_ne_str {s t : String} {j : Json} : tagged t j ≠ str s := by
  simp [tagged]

@[simp] theorem tagged_ne_null {t : String} {j : Json} : tagged t j ≠ null := by
  simp [tagged]

@[simp] theorem int_inj {m n : Int} : int m = int n ↔ m = n := by
  refine ⟨fun h => ?_, congrArg int⟩
  have := congrArg Numeral.toInt? (num.inj h)
  rw [Numeral.toInt?_ofInt, Numeral.toInt?_ofInt] at this
  exact Option.some.inj this

@[simp] theorem nat_inj {m n : Nat} : nat m = nat n ↔ m = n := by
  simp [nat]

@[simp] theorem nat_ne_null (n : Nat) : nat n ≠ null := by
  simp [nat, int]

theorem eq_of_map {α : Type} {f : α → Json} {l l' : List α} (hf : ∀ a ∈ l, ∀ b ∈ l', f a = f b → a = b)
    (h : l.map f = l'.map f) : l = l' := by
  induction l generalizing l' with
  | nil => cases l' with
    | nil => rfl
    | cons b l' => cases h
  | cons a l ih => cases l' with
    | nil => cases h
    | cons b l' =>
      obtain ⟨hab, hrest⟩ := List.cons.inj h
      rw [hf a (by simp) b (by simp) hab]
      rw [ih (fun a ha b hb => hf a (by simp [ha]) b (by simp [hb])) hrest]

theorem eq_of_list {α : Type} {f : α → Json} {l l' : List α} (hf : ∀ a ∈ l, ∀ b ∈ l', f a = f b → a = b)
    (h : list f l = list f l') : l = l' :=
  eq_of_map hf (arr.inj h)

theorem eq_of_ofOption {α : Type} {f : α → Json} {o o' : Option α} (hnull : ∀ a, f a ≠ null)
    (hf : ∀ a ∈ o, ∀ b ∈ o', f a = f b → a = b) (h : ofOption f o = ofOption f o') : o = o' := by
  cases o with
  | none => cases o' with
    | none => rfl
    | some b => exact absurd h.symm (hnull b)
  | some a => cases o' with
    | none => exact absurd h (hnull a)
    | some b => rw [hf a rfl b rfl h]

@[simp] theorem list_inj {α : Type} {f : α → Json} (hf : ∀ a b, f a = f b ↔ a = b) {l l' : List α} :
    list f l = list f l' ↔ l = l' :=
  ⟨eq_of_list fun a _ b _ => (hf a b).1, congrArg (list f)⟩

@[simp] theorem ofOption_inj {α : Type} {f : α → Json} (hnull : ∀ a, f a ≠ null) (hf : ∀ a b, f a = f b ↔ a = b)
    {o o' : Option α} : ofOption f o = ofOption f o' ↔ o = o' :=
  ⟨eq_of_ofOption hnull fun a _ b _ => (hf a b).1, congrArg (ofOption f)⟩

/-- A finite number is determined by its value in a document. -/
theorem float_inj {x y : Binary64} (hx : x.isFinite) (hy : y.isFinite) (h : float x = float y) : x = y := by
  rw [float, if_pos hx, float, if_pos hy] at h
  exact Binary64.numeral_inj (num.inj h)

end Json

open Json

/-- What a decoder gives back cannot have been lost. -/
theorem Decoder.Recovers.inj {α : Type} {d : Decoder α} {toJson : α → Json} {a b : α} (ha : d.Recovers toJson a)
    (hb : d.Recovers toJson b) (h : toJson a = toJson b) : a = b := by
  have hread := ha _ le_rfl
  rw [h, hb _ le_rfl] at hread
  exact (Option.some.inj hread).symm

@[simp] theorem ScalarKind.toJson_inj {a b : ScalarKind} : a.toJson = b.toJson ↔ a = b :=
  ⟨(recovers a).inj (recovers b), congrArg toJson⟩

@[simp] theorem StorageOrder.toJson_inj {a b : StorageOrder} : a.toJson = b.toJson ↔ a = b :=
  ⟨(recovers a).inj (recovers b), congrArg toJson⟩

@[simp] theorem Target.toJson_inj {a b : Target} : a.toJson = b.toJson ↔ a = b := by
  cases a <;> cases b <;> simp [toJson, name]

@[simp] theorem ScopeKind.tag_inj {a b : ScopeKind} : a.tag = b.tag ↔ a = b := by
  cases a <;> cases b <;> simp [tag]

namespace ValueType

theorem eq_of_toJson : (a b : ValueType) → a.toJson = b.toJson → a = b
  | .scalar _, b, h | .array .., b, h | .object _, b, h | .functionRef, b, h => by
    cases b <;> simp_all [toJson]
  | .uniformTuple element _, b, h => by
    cases b with
    | uniformTuple element' _ =>
      simp only [toJson, tagged_inj, obj.injEq, List.cons.injEq, Prod.mk.injEq, true_and, and_true] at h
      rw [eq_of_toJson element element' h.1, (ofOption_inj (by simp) (by simp)).1 h.2]
    | _ => simp [toJson] at h
  | .tuple elements, b, h => by
    cases b with
    | tuple elements' =>
      simp only [toJson, toJsonList_eq, tagged_inj, arr.injEq, true_and] at h
      rw [eq_of_map (fun t _ t' _ => eq_of_toJson t t') h]
    | _ => simp [toJson] at h
  | .list element, b, h => by
    cases b with
    | list element' =>
      simp only [toJson, tagged_inj, true_and] at h
      rw [eq_of_toJson element element' h]
    | _ => simp [toJson] at h
  | .set element, b, h => by
    cases b with
    | set element' =>
      simp only [toJson, tagged_inj, true_and] at h
      rw [eq_of_toJson element element' h]
    | _ => simp [toJson] at h
termination_by a => sizeOf a

@[simp] theorem toJson_inj {a b : ValueType} : a.toJson = b.toJson ↔ a = b :=
  ⟨eq_of_toJson a b, congrArg toJson⟩

end ValueType

namespace Wrapper

/-! ### Expressions -/

theorem Expr.toJson_ne_null (e : Expr) : e.toJson ≠ .null := by
  cases e <;> simp [toJson]

@[simp] theorem LocalType.toJson_inj {a b : LocalType} : a.toJson = b.toJson ↔ a = b := by
  cases a <;> cases b <;> simp [toJson]

@[simp] theorem Local.toJson_inj {a b : Local} : a.toJson = b.toJson ↔ a = b := by
  cases a
  cases b
  simp [toJson]

@[simp] theorem LocalType.readable_toJson (t : LocalType) : t.toJson.Readable := by
  cases t <;> simp [toJson]

@[simp] theorem Local.readable_toJson (l : Local) : l.toJson.Readable := by
  simp [toJson]

theorem exprsToJson_eq (es : List Expr) : exprsToJson es = es.map Expr.toJson := by
  induction es with
  | nil => rfl
  | cons e es ih => rw [exprsToJson, ih, List.map_cons]

theorem subscriptsToJson_eq (ss : List Subscript) : subscriptsToJson ss = ss.map Subscript.toJson := by
  induction ss with
  | nil => rfl
  | cons s ss ih => rw [subscriptsToJson, ih, List.map_cons]

theorem actualsToJson_eq (as : List Actual) : actualsToJson as = as.map Actual.toJson := by
  induction as with
  | nil => rfl
  | cons a as ih => rw [actualsToJson, ih, List.map_cons]

theorem Subscript.toJson_slice (start : Expr) (stop : Option Expr) (step : Expr) :
    (Subscript.slice start stop step).toJson =
      .tagged "slice" (.obj [("start", start.toJson), ("stop", .ofOption Expr.toJson stop), ("step", step.toJson)]) := by
  cases stop <;> rfl

theorem Subscript.toJson_element (position : Expr) :
    (Subscript.element position).toJson = .tagged "element" position.toJson := rfl

-- By recursion on the first expression. Every other case of the second one has another tag.
mutual

theorem Expr.eq_of_toJson : (a b : Expr) → a.toJson = b.toJson → a = b
  | .var _, b, h | .int _, b, h | .bool _, b, h | .null, b, h | .shape .., b, h => by
    cases b <;> simp_all [Expr.toJson]
  | .isNotNull e, b, h => by
    cases b with
    | isNotNull e' =>
      simp only [Expr.toJson, tagged_inj, true_and] at h
      rw [Expr.eq_of_toJson e e' h]
    | _ => simp [Expr.toJson] at h
  | .add l r, b, h => by
    cases b with
    | add l' r' =>
      simp only [Expr.toJson, tagged_inj, arr.injEq, List.cons.injEq, true_and, and_true] at h
      rw [Expr.eq_of_toJson l l' h.1, Expr.eq_of_toJson r r' h.2]
    | _ => simp [Expr.toJson] at h
  | .mul l r, b, h => by
    cases b with
    | mul l' r' =>
      simp only [Expr.toJson, tagged_inj, arr.injEq, List.cons.injEq, true_and, and_true] at h
      rw [Expr.eq_of_toJson l l' h.1, Expr.eq_of_toJson r r' h.2]
    | _ => simp [Expr.toJson] at h
  | .index _ subscripts, b, h => by
    cases b with
    | index _ subscripts' =>
      simp only [Expr.toJson, subscriptsToJson_eq, tagged_inj, obj.injEq, List.cons.injEq, Prod.mk.injEq, str.injEq,
        arr.injEq, true_and, and_true] at h
      rw [h.1, eq_of_map (fun s _ s' _ => Subscript.eq_of_toJson s s') h.2]
    | _ => simp [Expr.toJson] at h
  | .field base _, b, h => by
    cases b with
    | field base' _ =>
      simp only [Expr.toJson, tagged_inj, obj.injEq, List.cons.injEq, Prod.mk.injEq, str.injEq, true_and,
        and_true] at h
      rw [Expr.eq_of_toJson base base' h.1, h.2]
    | _ => simp [Expr.toJson] at h
  | .call _ arguments, b, h => by
    cases b with
    | call _ arguments' =>
      simp only [Expr.toJson, actualsToJson_eq, tagged_inj, obj.injEq, List.cons.injEq, Prod.mk.injEq, str.injEq,
        arr.injEq, true_and, and_true] at h
      rw [h.1, eq_of_map (fun a _ a' _ => Actual.eq_of_toJson a a') h.2]
    | _ => simp [Expr.toJson] at h
  | .tuple items, b, h => by
    cases b with
    | tuple items' =>
      simp only [Expr.toJson, exprsToJson_eq, tagged_inj, arr.injEq, true_and] at h
      rw [eq_of_map (fun e _ e' _ => Expr.eq_of_toJson e e') h]
    | _ => simp [Expr.toJson] at h
termination_by a => sizeOf a

theorem Subscript.eq_of_toJson : (a b : Subscript) → a.toJson = b.toJson → a = b
  | .slice start stop step, b, h => by
    cases b with
    | slice start' stop' step' =>
      simp only [Subscript.toJson_slice, tagged_inj, obj.injEq, List.cons.injEq, Prod.mk.injEq, true_and,
        and_true] at h
      rw [Expr.eq_of_toJson start start' h.1, Expr.eq_of_toJson step step' h.2.2,
        eq_of_ofOption Expr.toJson_ne_null (fun e _ e' _ => Expr.eq_of_toJson e e') h.2.1]
    | element _ => simp [Subscript.toJson_slice, Subscript.toJson_element] at h
  | .element position, b, h => by
    cases b with
    | element position' =>
      simp only [Subscript.toJson_element, tagged_inj, true_and] at h
      rw [Expr.eq_of_toJson position position' h]
    | slice _ _ _ => simp [Subscript.toJson_slice, Subscript.toJson_element] at h
termination_by a => sizeOf a

theorem Actual.eq_of_toJson : (a b : Actual) → a.toJson = b.toJson → a = b
  | .mk keyword value, .mk keyword' value', h => by
    simp only [Actual.toJson, obj.injEq, List.cons.injEq, Prod.mk.injEq, true_and, and_true] at h
    rw [(ofOption_inj (by simp) (by simp)).1 h.1, Expr.eq_of_toJson value value' h.2]
termination_by a => sizeOf a

end

@[simp] theorem Expr.toJson_inj {a b : Expr} : a.toJson = b.toJson ↔ a = b :=
  ⟨eq_of_toJson a b, congrArg toJson⟩

mutual

@[simp] theorem Expr.readable_toJson : (e : Expr) → e.toJson.Readable
  | .var _ | .int _ | .bool _ | .null | .shape .. => by simp [Expr.toJson]
  | .isNotNull e => by simp [Expr.toJson, Expr.readable_toJson e]
  | .add a b | .mul a b => by simp [Expr.toJson, Expr.readable_toJson a, Expr.readable_toJson b]
  | .index _ subscripts => by
    have h : ∀ s ∈ subscripts, s.toJson.Readable := fun s _ => Subscript.readable_toJson s
    simpa [Expr.toJson, subscriptsToJson_eq] using h
  | .field base _ => by simp [Expr.toJson, Expr.readable_toJson base]
  | .call _ arguments => by
    have h : ∀ a ∈ arguments, a.toJson.Readable := fun a _ => Actual.readable_toJson a
    simpa [Expr.toJson, actualsToJson_eq] using h
  | .tuple items => by
    have h : ∀ e ∈ items, e.toJson.Readable := fun e _ => Expr.readable_toJson e
    simpa [Expr.toJson, exprsToJson_eq] using h
termination_by e => sizeOf e

theorem Subscript.readable_toJson : (s : Subscript) → s.toJson.Readable
  | .slice start stop step => by
    have h : ∀ e ∈ stop, e.toJson.Readable := fun e _ => Expr.readable_toJson e
    simpa [Subscript.toJson_slice, Expr.readable_toJson start, Expr.readable_toJson step] using h
  | .element position => by simp [Subscript.toJson_element, Expr.readable_toJson position]
termination_by s => sizeOf s

theorem Actual.readable_toJson : (a : Actual) → a.toJson.Readable
  | .mk _ value => by simp [Actual.toJson, Expr.readable_toJson value]
termination_by a => sizeOf a

end

/-! ### Statements -/

theorem blockToJson_eq (block : List Stmt) : blockToJson block = block.map Stmt.toJson := by
  induction block with
  | nil => rfl
  | cons s rest ih => rw [blockToJson, ih, List.map_cons]

theorem Stmt.eq_of_toJson : (a b : Stmt) → a.toJson = b.toJson → a = b
  | .reinterpret .., b, h | .assign .., b, h | .aliasAssign .., b, h | .allocate .., b, h | .addressOf .., b, h
  | .deallocate _, b, h | .eval _, b, h => by
    cases b <;> simp_all [Stmt.toJson]
  | .branch _ body orelse, b, h => by
    cases b with
    | branch _ body' orelse' =>
      simp only [Stmt.toJson, blockToJson_eq, tagged_inj, obj.injEq, List.cons.injEq, Prod.mk.injEq, arr.injEq,
        Expr.toJson_inj, true_and, and_true] at h
      have hbody := eq_of_map (fun s _ s' _ => Stmt.eq_of_toJson s s') h.2.1
      have horelse := eq_of_map (fun s _ s' _ => Stmt.eq_of_toJson s s') h.2.2
      rw [h.1, hbody, horelse]
    | _ => simp [Stmt.toJson] at h
  | .forEach _ _ _ body, b, h => by
    cases b with
    | forEach _ _ _ body' =>
      simp only [Stmt.toJson, blockToJson_eq, tagged_inj, obj.injEq, List.cons.injEq, Prod.mk.injEq, str.injEq,
        arr.injEq, true_and, and_true] at h
      have hbody := eq_of_map (fun s _ s' _ => Stmt.eq_of_toJson s s') h.2.2.2
      rw [h.1, h.2.1, (ofOption_inj (by simp) (by simp)).1 h.2.2.1, hbody]
    | _ => simp [Stmt.toJson] at h
termination_by a => sizeOf a

@[simp] theorem blockToJson_inj {as bs : List Stmt} : blockToJson as = blockToJson bs ↔ as = bs := by
  refine ⟨fun h => ?_, congrArg blockToJson⟩
  rw [blockToJson_eq, blockToJson_eq] at h
  exact eq_of_map (fun s _ s' _ => Stmt.eq_of_toJson s s') h

theorem Stmt.readable_toJson : (s : Stmt) → s.toJson.Readable
  | .reinterpret .. | .assign .. | .aliasAssign .. | .allocate .. | .addressOf .. | .deallocate _ | .eval _ => by
    simp [Stmt.toJson]
  | .branch _ body orelse => by
    have hbody : ∀ s ∈ body, s.toJson.Readable := fun s _ => Stmt.readable_toJson s
    have horelse : ∀ s ∈ orelse, s.toJson.Readable := fun s _ => Stmt.readable_toJson s
    simpa [Stmt.toJson, blockToJson_eq] using ⟨hbody, horelse⟩
  | .forEach _ _ _ body => by
    have hbody : ∀ s ∈ body, s.toJson.Readable := fun s _ => Stmt.readable_toJson s
    simpa [Stmt.toJson, blockToJson_eq] using hbody
termination_by s => sizeOf s

theorem readable_blockToJson (block : List Stmt) : ∀ j ∈ blockToJson block, j.Readable := by
  simp [blockToJson_eq, Stmt.readable_toJson]

end Wrapper

end AbiBridge
