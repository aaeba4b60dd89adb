import Mathlib
import AbiBridge.Semantic.Codec
import AbiBridge.Proofs.Decoding
import AbiBridge.Proofs.JsonText

/-!
# A module is read back from its text

Each kind of node has its own record of members, and its decoder asks for them by name. `recovers` says of
every kind that the decoder gives back the node from the value that `toJson` made of it: the nodes may nest as
deep as there is room, and each integer has to fit the word that the decoder reads it into. Together with the
reader's own theorem (`Json.parse?_render`) this makes the text of a module as good as the module
(`Module.decode_parse?_render`). A float default is left out: its shortest decimal need not be read back by the
decoder as the same bits.
-/

namespace AbiBridge

open Json Decoder

/-! ### Documents without unreadable parts -/

@[simp] theorem ScalarKind.readable_toJson (k : ScalarKind) : k.toJson.Readable := trivial

@[simp] theorem StorageOrder.readable_toJson (o : StorageOrder) : o.toJson.Readable := trivial

namespace ValueType

mutual

@[simp] theorem readable_toJson : (t : ValueType) → t.toJson.Readable
  | .scalar _ | .array .. | .object _ | .functionRef => by simp [toJson]
  | .uniformTuple element _ => by simp [toJson, readable_toJson element]
  | .tuple elements => by simpa [toJson] using readable_toJsonList elements
  | .list element | .set element => by simp [toJson, readable_toJson element]

theorem readable_toJsonList : (ts : List ValueType) → ∀ j ∈ toJsonList ts, j.Readable
  | [] => by simp [toJsonList]
  | t :: ts => by simpa [toJsonList] using ⟨readable_toJson t, readable_toJsonList ts⟩

end

end ValueType

namespace Semantic

@[simp] theorem Span.readable_toJson (s : Span) : s.toJson.Readable := by
  simp [toJson, members]

@[simp] theorem Literal.readable_toJson (l : Literal) : l.toJson.Readable := by
  cases l <;> simp [toJson]

@[simp] theorem Argument.readable_toJson (a : Argument) : a.toJson.Readable := by
  simp [toJson]

@[simp] theorem Result.readable_toJson (r : Result) : r.toJson.Readable := by
  simp [toJson]

@[simp] theorem Function.readable_toJson (f : Function) : f.toJson.Readable := by
  simp [toJson, FunctionKind.toJson, MethodRole.toJson]

@[simp] theorem Interface.readable_toJson (i : Interface) : i.toJson.Readable := by
  simp [toJson]

@[simp] theorem Attribute.readable_toJson (a : Attribute) : a.toJson.Readable := by
  simp [toJson]

@[simp] theorem Class.readable_toJson (c : Class) : c.toJson.Readable := by
  simp [toJson]

@[simp] theorem Variable.readable_toJson (v : Variable) : v.toJson.Readable := by
  simp [toJson]

theorem Module.readable_toJson (m : Module) : m.toJson.Readable := by
  simp [toJson]
end Semantic

/-! ### Types -/

theorem ScalarKind.recovers (k : ScalarKind) : ScalarKind.decode.Recovers ScalarKind.toJson k := by
  intro room _
  cases k <;> rfl

theorem StorageOrder.recovers (o : StorageOrder) : StorageOrder.decode.Recovers StorageOrder.toJson o := by
  intro room _
  cases o <;> rfl

/-- The ranks and lengths in a type are 64-bit words. -/
inductive ValueType.InRange : ValueType → Prop where
  | scalar (kind : ScalarKind) : InRange (.scalar kind)
  | array {rank : Nat} (element : ScalarKind) (order : StorageOrder) (h : rank < 2 ^ 64) :
    InRange (.array element rank order)
  | object (className : String) : InRange (.object className)
  | uniformTuple {element : ValueType} {length : Option Nat} (he : InRange element)
    (hl : ∀ n ∈ length, n < 2 ^ 64) : InRange (.uniformTuple element length)
  | tuple {elements : List ValueType} (h : ∀ t ∈ elements, InRange t) : InRange (.tuple elements)
  | list {element : ValueType} (h : InRange element) : InRange (.list element)
  | set {element : ValueType} (h : InRange element) : InRange (.set element)
  | functionRef : InRange .functionRef

namespace ValueType

theorem toJsonList_eq (ts : List ValueType) : toJsonList ts = ts.map toJson := by
  induction ts with
  | nil => rfl
  | cons t ts ih => rw [toJsonList, ih, List.map_cons]

theorem recovers (listed : Bool) {t : ValueType} (h : t.InRange) :
    (ValueType.decode listed).Recovers toJson t := by
  induction h with
  | scalar kind =>
    intro room hroom
    obtain ⟨inner, rfl, hbody⟩ := exists_room_tagged hroom
    show (ScalarKind.decode inner kind.toJson).map ValueType.scalar = _
    rw [ScalarKind.recovers kind inner hbody]
    rfl
  | array element order hrank =>
    intro room hroom
    obtain ⟨inner, rfl, hbody⟩ := exists_room_tagged hroom
    obtain ⟨f, hf, holds⟩ := fields?_obj ["element", "rank", "order"] false rfl (by decide) hbody
    show decodeArray listed inner (.obj _) = _
    refine bind_of_some hf ?_
    refine bind_of_some ((holds _ _ (by simp)).required (ScalarKind.recovers element)) ?_
    refine bind_of_some ((holds _ _ (by simp)).required (.natBits hrank)) ?_
    exact bind_of_some ((holds _ _ (by simp)).required (StorageOrder.recovers order)) rfl
  | object className =>
    intro room hroom
    obtain ⟨inner, rfl, -⟩ := exists_room_tagged hroom
    rfl
  | @uniformTuple element length _ hl he =>
    intro room hroom
    obtain ⟨inner, rfl, hbody⟩ := exists_room_tagged hroom
    obtain ⟨inner, rfl, hfields⟩ := exists_room_obj hbody
    obtain ⟨f, hf, holds⟩ := fields?_obj ["element", "length"] false rfl (by decide) hbody
    have helement : (f.get? "element").bind (ValueType.decode listed inner) = some element := by
      rw [(holds "element" element.toJson (by simp)).get?]
      exact he inner (hfields "element" element.toJson (by simp))
    have hlength : f.optional "length" (.natBits 64) = some length :=
      (holds _ _ (by simp)).optional (.nullable (fun n hn => .natBits (hl n hn)) fun n h => by cases h)
    rw [toJson, ValueType.decode]
    simp only [tagged, case?, caseFields?, hf, helement, hlength]
  | @tuple elements _ ih =>
    intro room hroom
    obtain ⟨inner, rfl, hbody⟩ := exists_room_tagged hroom
    obtain ⟨inner, rfl, hitems⟩ := exists_room_arr hbody
    show ((toJsonList elements).mapM (ValueType.decode listed inner)).map ValueType.tuple = _
    rw [toJsonList_eq] at hitems ⊢
    rw [mapM_map_some fun t ht => ih t ht inner (hitems _ (List.mem_map_of_mem ht))]
    rfl
  | @list element _ ih =>
    intro room hroom
    obtain ⟨inner, rfl, hbody⟩ := exists_room_tagged hroom
    show (ValueType.decode listed inner element.toJson).map ValueType.list = _
    rw [ih inner hbody]
    rfl
  | @set element _ ih =>
    intro room hroom
    obtain ⟨inner, rfl, hbody⟩ := exists_room_tagged hroom
    show (ValueType.decode listed inner element.toJson).map ValueType.set = _
    rw [ih inner hbody]
    rfl
  | functionRef =>
    intro room _
    cases room <;> rfl

end ValueType

namespace Semantic

/-! ### Declarations -/

/-- Lines and columns are 32-bit words. -/
structure Span.InRange (s : Span) : Prop where
  line : s.line < 2 ^ 32
  column : s.column < 2 ^ 32
  endLine : s.endLine < 2 ^ 32
  endColumn : s.endColumn < 2 ^ 32

theorem Span.recovers {s : Span} (h : s.InRange) : Span.decode.Recovers Span.toJson s := by
  intro room hroom
  obtain ⟨f, hf, holds⟩ := fields?_obj fieldNames false rfl (by decide) hroom
  refine bind_of_some hf ?_
  refine bind_of_some ((holds _ _ (by simp [members])).required (.natBits h.line)) ?_
  refine bind_of_some ((holds _ _ (by simp [members])).required (.natBits h.column)) ?_
  refine bind_of_some ((holds _ _ (by simp [members])).required (.natBits h.endLine)) ?_
  exact bind_of_some ((holds _ _ (by simp [members])).required (.natBits h.endColumn)) rfl

/-- An integer literal is a signed 64-bit word. -/
def Literal.InRange : Literal → Prop
  | .int n => -2 ^ 63 ≤ n ∧ n < 2 ^ 63
  | _ => True

theorem Literal.recovers {l : Literal} (h : l.InRange) (hf : ∀ x, l ≠ .float x) :
    Literal.decode.Recovers Literal.toJson l := by
  intro room hroom
  cases l with
  | none => rfl
  | bool b =>
    obtain ⟨inner, rfl, -⟩ := exists_room_tagged hroom
    rfl
  | int n =>
    obtain ⟨inner, rfl, hbody⟩ := exists_room_tagged hroom
    show (Decoder.int64 inner (.int n)).map Literal.int = _
    rw [Recovers.int64 h.1 h.2 inner hbody]
    rfl
  | float x => exact absurd rfl (hf x)

/-- The integers of an argument fit their words. -/
structure Argument.InRange (a : Argument) : Prop where
  type : a.type.InRange
  default : ∀ l ∈ a.default, l.InRange

theorem Argument.recovers (listed : Bool) {a : Argument} (h : a.InRange) (hf : ∀ x, a.default ≠ some (.float x)) :
    (Argument.decode listed).Recovers Argument.toJson a := by
  intro room hroom
  obtain ⟨f, hfields, holds⟩ := fields?_obj fieldNames false rfl (by decide) hroom
  have hdefault : Literal.decode.nullable.Recovers (.ofOption Literal.toJson) a.default := by
    refine .nullable (fun l hl => Literal.recovers (h.default l hl) ?_) ?_
    · rintro x rfl
      exact hf x hl
    · intro l hl
      cases l <;> cases hl
  refine bind_of_some hfields ?_
  refine bind_of_some ((holds _ _ (by simp)).required (.string a.name)) ?_
  refine bind_of_some ((holds _ _ (by simp)).required (ValueType.recovers listed h.type)) ?_
  refine bind_of_some ((holds _ _ (by simp)).defaulted _ (.bool a.optional)) ?_
  refine bind_of_some ((holds _ _ (by simp)).defaulted _ (.bool a.bound)) ?_
  refine bind_of_some ((holds _ _ (by simp)).defaulted _ hdefault) ?_
  refine bind_of_some ((holds _ _ (by simp)).defaulted _ (.bool a.keywordOnly)) ?_
  exact bind_of_some ((holds _ _ (by simp)).defaulted _ (.bool a.contiguous)) rfl

theorem Result.recovers (listed : Bool) {r : Result} (h : r.type.InRange) :
    (Result.decode listed).Recovers Result.toJson r := by
  intro room hroom
  obtain ⟨f, hfields, holds⟩ := fields?_obj fieldNames false rfl (by decide) hroom
  refine bind_of_some hfields ?_
  refine bind_of_some ((holds _ _ (by simp)).required (.string r.name)) ?_
  refine bind_of_some ((holds _ _ (by simp)).required (ValueType.recovers listed h)) ?_
  refine bind_of_some ((holds _ _ (by simp)).defaulted _ (.bool r.isArgument)) ?_
  exact bind_of_some ((holds _ _ (by simp)).defaulted _ (.bool r.isAlias)) rfl

theorem FunctionKind.recovers (k : FunctionKind) : FunctionKind.decode.Recovers FunctionKind.toJson k := by
  intro room _
  cases k <;> rfl

theorem MethodRole.recovers (r : MethodRole) : MethodRole.decode.Recovers MethodRole.toJson r := by
  intro room _
  cases r <;> rfl

theorem recovers_text (o : Option String) : Decoder.string.nullable.Recovers (.ofOption .str) o :=
  .nullable (fun s _ => .string s) fun s h => by cases h

structure Function.InRange (f : Function) : Prop where
  arguments : ∀ a ∈ f.arguments, a.InRange
  results : ∀ r ∈ f.results, r.type.InRange
  span : f.span.InRange

theorem Function.recovers (listed : Bool) {f : Function} (h : f.InRange)
    (hf : ∀ a ∈ f.arguments, ∀ x, a.default ≠ some (.float x)) :
    (Function.decode listed).Recovers Function.toJson f := by
  intro room hroom
  obtain ⟨fs, hfields, holds⟩ := fields?_obj fieldNames false rfl (by decide) hroom
  refine bind_of_some hfields ?_
  refine bind_of_some ((holds _ _ (by simp)).required (.string f.name)) ?_
  refine bind_of_some ((holds _ _ (by simp)).required
    (.list fun a ha => Argument.recovers listed (h.arguments a ha) (hf a ha))) ?_
  refine bind_of_some ((holds _ _ (by simp)).defaulted _
    (.list fun r hr => Result.recovers listed (h.results r hr))) ?_
  refine bind_of_some ((holds _ _ (by simp)).defaulted _ (.bool f.isPrivate)) ?_
  refine bind_of_some ((holds _ _ (by simp)).defaulted _ (.bool f.isInline)) ?_
  refine bind_of_some ((holds _ _ (by simp)).defaulted _ (FunctionKind.recovers f.kind)) ?_
  refine bind_of_some ((holds _ _ (by simp)).defaulted _ (MethodRole.recovers f.role)) ?_
  refine bind_of_some ((holds _ _ (by simp)).defaulted _ (recovers_text f.docstring)) ?_
  exact bind_of_some ((holds _ _ (by simp)).defaulted _ (Span.recovers h.span)) rfl

theorem Interface.recovers (i : Interface) : Interface.decode.Recovers Interface.toJson i := by
  intro room hroom
  obtain ⟨f, hfields, holds⟩ := fields?_obj fieldNames false rfl (by decide) hroom
  refine bind_of_some hfields ?_
  refine bind_of_some ((holds _ _ (by simp)).required (.string i.name)) ?_
  refine bind_of_some ((holds _ _ (by simp)).required (.each i.functions .string)) ?_
  exact bind_of_some ((holds _ _ (by simp)).defaulted _ (.bool i.isInline)) rfl

theorem Attribute.recovers (listed : Bool) {a : Attribute} (h : a.type.InRange) :
    (Attribute.decode listed).Recovers Attribute.toJson a := by
  intro room hroom
  obtain ⟨f, hfields, holds⟩ := fields?_obj fieldNames false rfl (by decide) hroom
  refine bind_of_some hfields ?_
  refine bind_of_some ((holds _ _ (by simp)).required (.string a.name)) ?_
  refine bind_of_some ((holds _ _ (by simp)).required (ValueType.recovers listed h)) ?_
  refine bind_of_some ((holds _ _ (by simp)).defaulted _ (.bool a.isPrivate)) ?_
  exact bind_of_some ((holds _ _ (by simp)).defaulted _ (.bool a.isAlias)) rfl

structure Class.InRange (c : Class) : Prop where
  methods : ∀ f ∈ c.methods, f.InRange
  attributes : ∀ a ∈ c.attributes, a.type.InRange
  span : c.span.InRange

theorem Class.recovers (listed : Bool) {c : Class} (h : c.InRange)
    (hf : ∀ f ∈ c.methods, ∀ a ∈ f.arguments, ∀ x, a.default ≠ some (.float x)) :
    (Class.decode listed).Recovers Class.toJson c := by
  intro room hroom
  obtain ⟨f, hfields, holds⟩ := fields?_obj fieldNames false rfl (by decide) hroom
  refine bind_of_some hfields ?_
  refine bind_of_some ((holds _ _ (by simp)).required (.string c.name)) ?_
  refine bind_of_some ((holds _ _ (by simp)).defaulted _
    (.list fun m hm => Function.recovers listed (h.methods m hm) (hf m hm))) ?_
  refine bind_of_some ((holds _ _ (by simp)).defaulted _ (.each c.interfaces Interface.recovers)) ?_
  refine bind_of_some ((holds _ _ (by simp)).defaulted _
    (.list fun a ha => Attribute.recovers listed (h.attributes a ha))) ?_
  refine bind_of_some ((holds _ _ (by simp)).defaulted _ (recovers_text c.docstring)) ?_
  exact bind_of_some ((holds _ _ (by simp)).defaulted _ (Span.recovers h.span)) rfl

structure Variable.InRange (v : Variable) : Prop where
  type : v.type.InRange
  span : v.span.InRange

theorem Variable.recovers (listed : Bool) {v : Variable} (h : v.InRange) :
    (Variable.decode listed).Recovers Variable.toJson v := by
  intro room hroom
  obtain ⟨f, hfields, holds⟩ := fields?_obj fieldNames false rfl (by decide) hroom
  refine bind_of_some hfields ?_
  refine bind_of_some ((holds _ _ (by simp)).required (.string v.name)) ?_
  refine bind_of_some ((holds _ _ (by simp)).required (ValueType.recovers listed h.type)) ?_
  refine bind_of_some ((holds _ _ (by simp)).defaulted _ (.bool v.isPrivate)) ?_
  exact bind_of_some ((holds _ _ (by simp)).defaulted _ (Span.recovers h.span)) rfl

/-! ### Modules -/

/-- Every integer of a module fits its word. -/
structure Module.InRange (m : Module) : Prop where
  globals : ∀ v ∈ m.globals, v.InRange
  functions : ∀ f ∈ m.functions, f.InRange
  classes : ∀ c ∈ m.classes, c.InRange
  span : m.span.InRange

/-- The arguments that the functions and methods of a module declare. -/
def Module.arguments (m : Module) : List Argument :=
  (m.functions ++ m.classes.flatMap (·.methods)).flatMap (·.arguments)

theorem Module.recovers (listed : Bool) {m : Module} (h : m.InRange)
    (hf : ∀ a ∈ m.arguments, ∀ x, a.default ≠ some (.float x)) :
    (Module.decode listed).Recovers Module.toJson m := by
  intro room hroom
  obtain ⟨f, hfields, holds⟩ := fields?_obj fieldNames false rfl (by decide) hroom
  have hfunctions : ∀ f ∈ m.functions, ∀ a ∈ f.arguments, ∀ x, a.default ≠ some (.float x) := by
    intro f hm a ha
    exact hf a (List.mem_flatMap.2 ⟨f, List.mem_append_left _ hm, ha⟩)
  have hmethods : ∀ c ∈ m.classes, ∀ f ∈ c.methods, ∀ a ∈ f.arguments, ∀ x, a.default ≠ some (.float x) := by
    intro c hc f hm a ha
    exact hf a (List.mem_flatMap.2 ⟨f, List.mem_append_right _ (List.mem_flatMap.2 ⟨c, hc, hm⟩), ha⟩)
  refine bind_of_some hfields ?_
  refine bind_of_some ((holds _ _ (by simp)).required (.string m.name)) ?_
  refine bind_of_some ((holds _ _ (by simp)).defaulted _
    (.list fun v hv => Variable.recovers listed (h.globals v hv))) ?_
  refine bind_of_some ((holds _ _ (by simp)).defaulted _
    (.list fun f hm => Function.recovers listed (h.functions f hm) (hfunctions f hm))) ?_
  refine bind_of_some ((holds _ _ (by simp)).defaulted _ (.each m.interfaces Interface.recovers)) ?_
  refine bind_of_some ((holds _ _ (by simp)).defaulted _
    (.list fun c hc => Class.recovers listed (h.classes c hc) (hmethods c hc))) ?_
  refine bind_of_some ((holds _ _ (by simp)).defaulted _ (recovers_text m.initFunction)) ?_
  refine bind_of_some ((holds _ _ (by simp)).defaulted _ (recovers_text m.freeFunction)) ?_
  exact bind_of_some ((holds _ _ (by simp)).defaulted _ (Span.recovers h.span)) rfl

/-- A module is read back from its text. -/
theorem Module.decode_parse?_render {m : Module} (hrange : m.InRange)
    (hfloat : ∀ a ∈ m.arguments, ∀ x, a.default ≠ some (.float x)) (hdepth : m.toJson.depth ≤ Json.maxDepth) :
    (Json.parse? m.toJson.render).bind (Module.decode true Json.maxDepth) = some m := by
  rw [parse?_render (readable_toJson m)]
  exact Module.recovers true hrange hfloat Json.maxDepth hdepth

/-- A module with every kind of type, extreme integers and text that has to be escaped. -/
def harbor : Module where
  name := "harbor"
  globals := [{ name := "depth", type := .array .float64 (2 ^ 64 - 1) .columnMajor, span := .point 3 (2 ^ 32 - 1) }]
  functions := [{
    name := "moor"
    arguments := [
      { name := "berths", type := .uniformTuple (.tuple [.list (.object "Ship"), .functionRef]) (some 7),
        optional := true, default := some .none },
      { name := "draught", type := .scalar .int64, optional := true, default := some (.int (-2 ^ 63)),
        keywordOnly := true }]
    results := [{ name := "free", type := .set (.uniformTuple (.scalar .bool) none), isAlias := true }]
    docstring := some "\"tide\" \\ \n\t\x01 βαθύς 🦀" }]
  interfaces := [{ name := "land", functions := ["moor", "anchor"], isInline := true }]
  classes := [{
    name := "Ship"
    methods := [{
      name := "sink"
      arguments := [{ name := "self", type := .object "Ship", bound := true }]
      role := .destructor
      kind := .device }]
    attributes := [{ name := "mass", type := .scalar .complex128, isPrivate := true }] }]
  initFunction := some "moor"

theorem harbor_inRange : harbor.InRange := by
  have hspan : Span.InRange {} := ⟨by decide, by decide, by decide, by decide⟩
  refine ⟨?_, ?_, ?_, hspan⟩
  · simp only [harbor, List.mem_singleton, forall_eq]
    exact ⟨.array _ _ (by decide), ⟨by decide, by decide, by decide, by decide⟩⟩
  · simp only [harbor, List.mem_singleton, forall_eq]
    refine ⟨?_, ?_, hspan⟩
    · simp only [List.mem_cons, List.not_mem_nil, or_false, forall_eq_or_imp, forall_eq]
      refine ⟨⟨.uniformTuple (.tuple ?_) (by simp), by simp [Literal.InRange]⟩, ⟨.scalar _, by simp [Literal.InRange]⟩⟩
      simp only [List.mem_cons, List.not_mem_nil, or_false, forall_eq_or_imp, forall_eq]
      exact ⟨.list (.object _), .functionRef⟩
    · simp only [List.mem_singleton, forall_eq]
      exact .set (.uniformTuple (.scalar _) (by simp))
  · simp only [harbor, List.mem_singleton, forall_eq]
    refine ⟨?_, ?_, hspan⟩
    · simp only [List.mem_singleton, forall_eq]
      refine ⟨?_, by simp, hspan⟩
      simp only [List.mem_singleton, forall_eq]
      exact ⟨.object _, by simp⟩
    · simp only [List.mem_singleton, forall_eq]
      exact .scalar _

theorem Module.decode_parse?_render_harbor :
    harbor.InRange ∧ (∀ a ∈ harbor.arguments, ∀ x, a.default ≠ some (.float x)) ∧
      harbor.toJson.depth ≤ Json.maxDepth ∧
      (Json.parse? harbor.toJson.render).bind (Module.decode true Json.maxDepth) = some harbor := by
  have hfloat : ∀ a ∈ harbor.arguments, ∀ x, a.default ≠ some (.float x) := by
    simp [Module.arguments, harbor]
  have hdepth : harbor.toJson.depth ≤ Json.maxDepth := by decide
  exact ⟨harbor_inRange, hfloat, hdepth, Module.decode_parse?_render harbor_inRange hfloat hdepth⟩

end Semantic

end AbiBridge
