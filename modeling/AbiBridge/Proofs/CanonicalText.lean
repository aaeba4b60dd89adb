import Mathlib
import AbiBridge.Pipeline.Output
import AbiBridge.Proofs.DistinctDocuments

/-!
# The text under a fingerprint determines the output

A fingerprint is taken of one text, that of all wrapper modules with their scopes. Different outputs have
different texts (`canonicalText_inj`): the reader gives the document back from its text (`Json.render_inj`), and
the document keeps every part of a module. An argument default is the only place where a floating-point number
can stand, and it has to be finite.
-/

namespace AbiBridge

open Json

/-! ### Declared arguments -/

namespace Semantic

/-- A literal that has a numeral. -/
def Literal.isFinite : Literal → Bool
  | .float x => x.isFinite
  | _ => true

theorem Literal.toJson_ne_null (l : Literal) : l.toJson ≠ .null := by
  cases l <;> simp [toJson]

theorem Literal.eq_of_toJson {a b : Literal} (ha : a.isFinite) (hb : b.isFinite) (h : a.toJson = b.toJson) :
    a = b := by
  cases a with
  | float x =>
    cases b with
    | float y =>
      simp only [toJson, tagged_inj, true_and] at h
      rw [float_inj ha hb h]
    | _ => simp [toJson] at h
  | _ => cases b <;> simp_all [toJson]

/-- The default of an argument has a numeral, if it is a number. -/
def Argument.hasFiniteDefault (a : Argument) : Bool := a.default.all Literal.isFinite

theorem Argument.eq_of_toJson {a b : Argument} (ha : a.hasFiniteDefault) (hb : b.hasFiniteDefault)
    (h : a.toJson = b.toJson) : a = b := by
  cases a
  cases b
  simp only [toJson, obj.injEq, List.cons.injEq, Prod.mk.injEq, str.injEq, bool.injEq, ValueType.toJson_inj,
    true_and, and_true] at h
  obtain ⟨rfl, rfl, rfl, rfl, hdefault, rfl, rfl⟩ := h
  congr 1
  refine eq_of_ofOption Literal.toJson_ne_null (fun l hl l' hl' => ?_) hdefault
  exact Literal.eq_of_toJson ((Option.all_eq_true ..).1 ha l hl) ((Option.all_eq_true ..).1 hb l' hl')

@[simp] theorem Result.toJson_inj {a b : Result} : a.toJson = b.toJson ↔ a = b := by
  cases a
  cases b
  simp [toJson]

end Semantic

namespace Wrapper

/-! ### Functions -/

@[simp] theorem ArgumentAbi.toJson_inj {a b : ArgumentAbi} : a.toJson = b.toJson ↔ a = b := by
  cases a <;> cases b <;> simp [toJson]

@[simp] theorem ResultAbi.toJson_inj {a b : ResultAbi} : a.toJson = b.toJson ↔ a = b := by
  cases a <;> cases b <;> simp [toJson]

@[simp] theorem Result.toJson_inj {a b : Result} : a.toJson = b.toJson ↔ a = b := by
  cases a
  cases b
  simp [toJson]

@[simp] theorem MemberKey.toJson_inj {a b : MemberKey} : a.toJson = b.toJson ↔ a = b := by
  cases a
  cases b
  simp [toJson]

@[simp] theorem Origin.toJson_inj {a b : Origin} : a.toJson = b.toJson ↔ a = b := by
  cases a <;> cases b <;> simp [toJson]

/-- A docstring that is left out differs from every one that is written. -/
@[simp] theorem docstringMember_inj {a b : Option String} : docstringMember a = docstringMember b ↔ a = b := by
  cases a <;> cases b <;> simp [docstringMember]

theorem Argument.eq_of_toJson {a b : Argument} (ha : a.declared.hasFiniteDefault) (hb : b.declared.hasFiniteDefault)
    (h : a.toJson = b.toJson) : a = b := by
  cases a
  cases b
  simp only [toJson, obj.injEq, List.cons.injEq, Prod.mk.injEq, Local.toJson_inj, ArgumentAbi.toJson_inj,
    Expr.toJson_inj, true_and, and_true] at h
  obtain ⟨hdeclared, rfl, rfl, rfl⟩ := h
  congr 1
  exact Semantic.Argument.eq_of_toJson ha hb hdeclared

/-- The numbers among the defaults of a wrapper's arguments are finite. -/
def Function.hasFiniteDefaults (f : Function) : Bool := f.arguments.all (·.declared.hasFiniteDefault)

theorem Function.toJson_ne_null (f : Function) : f.toJson ≠ .null := by
  simp [toJson]

theorem Function.eq_of_toJson {f g : Function} (hf : f.hasFiniteDefaults) (hg : g.hasFiniteDefaults)
    (h : f.toJson = g.toJson) : f = g := by
  cases f
  cases g
  simp only [toJson, obj.injEq, List.cons_append, List.nil_append, List.cons.injEq, Prod.mk.injEq, str.injEq,
    arr.injEq, Origin.toJson_inj, blockToJson_inj, nat_inj, docstringMember_inj, true_and] at h
  obtain ⟨rfl, rfl, harguments, hresults, rfl, hlocals, rfl, rfl⟩ := h
  congr 1
  · refine eq_of_list (fun a ha b hb => ?_) harguments
    exact Argument.eq_of_toJson (List.all_eq_true.1 hf a ha) (List.all_eq_true.1 hg b hb)
  · simpa using hresults
  · simpa using hlocals

/-! ### Modules -/

theorem Variable.eq_of_toJson {a b : Variable} (ha : ∀ f ∈ a.accessor?, f.hasFiniteDefaults)
    (hb : ∀ f ∈ b.accessor?, f.hasFiniteDefaults) (h : a.toJson = b.toJson) : a = b := by
  cases a with
  | scalar => cases b <;> simp_all [toJson]
  | array _ _ f =>
    cases b with
    | scalar => simp [toJson] at h
    | array _ _ g =>
      simp only [toJson, tagged_inj, obj.injEq, List.cons.injEq, Prod.mk.injEq, str.injEq, ValueType.toJson_inj,
        true_and, and_true] at h
      rw [h.1, h.2.1, Function.eq_of_toJson (ha f rfl) (hb g rfl) h.2.2]

@[simp] theorem Interface.toJson_inj {a b : Interface} : a.toJson = b.toJson ↔ a = b := by
  cases a
  cases b
  simp [toJson]

theorem Property.eq_of_toJson {p q : Property} (hp : ∀ f ∈ p.functions, f.hasFiniteDefaults)
    (hq : ∀ f ∈ q.functions, f.hasFiniteDefaults) (h : p.toJson = q.toJson) : p = q := by
  cases p
  cases q
  simp only [toJson, obj.injEq, List.cons_append, List.nil_append, List.cons.injEq, Prod.mk.injEq,
    MemberKey.toJson_inj, docstringMember_inj, true_and] at h
  obtain ⟨rfl, hgetter, hsetter, rfl⟩ := h
  congr 1
  · exact Function.eq_of_toJson (hp _ (by simp [functions])) (hq _ (by simp [functions])) hgetter
  · refine eq_of_ofOption Function.toJson_ne_null (fun f hf g hg => ?_) hsetter
    exact Function.eq_of_toJson (hp f (by simp_all [functions])) (hq g (by simp_all [functions]))

theorem Class.eq_of_toJson {c d : Class} (hc : ∀ f ∈ c.functions, f.hasFiniteDefaults)
    (hd : ∀ f ∈ d.functions, f.hasFiniteDefaults) (h : c.toJson = d.toJson) : c = d := by
  cases c
  cases d
  simp only [toJson, obj.injEq, List.cons_append, List.nil_append, List.cons.injEq, Prod.mk.injEq, str.injEq,
    docstringMember_inj, true_and] at h
  obtain ⟨rfl, hallocator, hmethods, hinterfaces, hproperties, rfl⟩ := h
  simp only [functions, List.mem_cons, List.mem_append, List.mem_flatMap] at hc hd
  congr 1
  · exact Function.eq_of_toJson (hc _ (.inl rfl)) (hd _ (.inl rfl)) hallocator
  · refine eq_of_list (fun f hf g hg => ?_) hmethods
    exact Function.eq_of_toJson (hc f (.inr (.inl hf))) (hd g (.inr (.inl hg)))
  · simpa using hinterfaces
  · refine eq_of_list (fun p hp q hq => ?_) hproperties
    exact Property.eq_of_toJson (fun f hf => hc f (.inr (.inr ⟨p, hp, hf⟩)))
      fun f hf => hd f (.inr (.inr ⟨q, hq, hf⟩))

/-- The numbers among the defaults of a module's functions are finite. -/
def Module.hasFiniteDefaults (m : Module) : Bool := m.allFunctions.all (·.hasFiniteDefaults)

theorem Module.eq_of_toJson {m n : Module} (hm : m.hasFiniteDefaults) (hn : n.hasFiniteDefaults)
    (h : m.toJson = n.toJson) : m = n := by
  cases m
  cases n
  simp only [toJson, obj.injEq, List.cons.injEq, Prod.mk.injEq, str.injEq, Target.toJson_inj, true_and, and_true] at h
  obtain ⟨rfl, rfl, rfl, hglobals, hfunctions, hinit, hfree, hinterfaces, hclasses, hremoved⟩ := h
  simp only [hasFiniteDefaults, allFunctions, variableAccessors, List.all_eq_true, List.mem_append,
    List.mem_filterMap, List.mem_flatMap] at hm hn
  congr 1
  · refine eq_of_list (fun v hv w hw => ?_) hglobals
    exact Variable.eq_of_toJson (fun f hf => hm f (.inl (.inr ⟨v, hv, hf⟩)))
      fun f hf => hn f (.inl (.inr ⟨w, hw, hf⟩))
  · refine eq_of_list (fun f hf g hg => ?_) hfunctions
    exact Function.eq_of_toJson (hm f (.inl (.inl hf))) (hn g (.inl (.inl hg)))
  · simpa using hinit
  · simpa using hfree
  · simpa using hinterfaces
  · refine eq_of_list (fun c hc d hd => ?_) hclasses
    exact Class.eq_of_toJson (fun f hf => hm f (.inr ⟨c, hc, hf⟩)) fun f hf => hn f (.inr ⟨d, hd, hf⟩)
  · simpa using hremoved

end Wrapper

/-! ### Scopes -/

@[simp] theorem Scope.toJson_inj {s t : Scope} : s.toJson = t.toJson ↔ s = t := by
  cases s
  cases t
  have hpair : Function.Injective fun p : String × String => (p.1, Json.str p.2) := by
    rintro ⟨a, b⟩ ⟨c, d⟩ h
    simpa using h
  simp [toJson, hpair.list_map.eq_iff]

@[simp] theorem ScopeTree.toJson_inj {t u : ScopeTree} : t.toJson = u.toJson ↔ t = u := by
  cases t
  cases u
  simp [toJson]

theorem WrappedModule.eq_of_toJson {w v : WrappedModule} (hw : w.module.hasFiniteDefaults)
    (hv : v.module.hasFiniteDefaults) (h : w.toJson = v.toJson) : w = v := by
  cases w
  cases v
  simp only [toJson, obj.injEq, List.cons.injEq, Prod.mk.injEq, ScopeTree.toJson_inj, true_and, and_true] at h
  rw [h.2]
  congr 1
  exact Wrapper.Module.eq_of_toJson hw hv h.1

/-! ### Documents without unreadable parts -/

@[simp] theorem Target.readable_toJson (t : Target) : t.toJson.Readable := trivial

namespace Wrapper

@[simp] theorem ArgumentAbi.readable_toJson (a : ArgumentAbi) : a.toJson.Readable := by
  cases a <;> simp [toJson]

@[simp] theorem ResultAbi.readable_toJson (a : ResultAbi) : a.toJson.Readable := by
  cases a <;> simp [toJson]

@[simp] theorem Argument.readable_toJson (a : Argument) : a.toJson.Readable := by
  simp [toJson]

@[simp] theorem Result.readable_toJson (r : Result) : r.toJson.Readable := by
  simp [toJson]

@[simp] theorem MemberKey.readable_toJson (k : MemberKey) : k.toJson.Readable := by
  simp [toJson]

@[simp] theorem Origin.readable_toJson (o : Origin) : o.toJson.Readable := by
  cases o <;> simp [toJson]

theorem readable_docstringMember (d : Option String) (k : String) (j : Json) (h : (k, j) ∈ docstringMember d) :
    j.Readable := by
  cases d <;> simp_all [docstringMember]

@[simp] theorem Function.readable_toJson (f : Function) : f.toJson.Readable := by
  simpa [toJson] using ⟨readable_blockToJson f.body, readable_docstringMember f.docstring⟩

@[simp] theorem Variable.readable_toJson (v : Variable) : v.toJson.Readable := by
  cases v <;> simp [toJson]

@[simp] theorem Interface.readable_toJson (i : Interface) : i.toJson.Readable := by
  simp [toJson]

@[simp] theorem Property.readable_toJson (p : Property) : p.toJson.Readable := by
  simpa [toJson] using readable_docstringMember p.docstring

@[simp] theorem Class.readable_toJson (c : Class) : c.toJson.Readable := by
  simpa [toJson] using readable_docstringMember c.docstring

@[simp] theorem Module.readable_toJson (m : Module) : m.toJson.Readable := by
  simp [toJson]

end Wrapper

@[simp] theorem Scope.readable_toJson (s : Scope) : s.toJson.Readable := by
  have hexpected : Json.Readable (.obj (s.expected.map fun p => (p.1, .str p.2))) := by
    rw [readable_obj]
    intro m hm
    obtain ⟨p, -, rfl⟩ := List.mem_map.1 hm
    trivial
  simpa [toJson] using hexpected

@[simp] theorem ScopeTree.readable_toJson (t : ScopeTree) : t.toJson.Readable := by
  simp [toJson]

@[simp] theorem WrappedModule.readable_toJson (w : WrappedModule) : w.toJson.Readable := by
  simp [toJson]

/-! ### The text of a list of modules -/

/-- A fingerprint is the digest of a text that determines the modules with their scopes. -/
theorem canonicalText_inj {ws vs : List WrappedModule} (hws : ∀ w ∈ ws, w.module.hasFiniteDefaults)
    (hvs : ∀ v ∈ vs, v.module.hasFiniteDefaults) :
    fingerprint ws = Sha256.hexDigest (canonicalText ws) ∧ fingerprint vs = Sha256.hexDigest (canonicalText vs) ∧
      (canonicalText ws = canonicalText vs ↔ ws = vs) := by
  refine ⟨rfl, rfl, fun h => ?_, congrArg canonicalText⟩
  have hjson : Json.list WrappedModule.toJson ws = Json.list WrappedModule.toJson vs :=
    render_inj (by simp) (by simp) h
  exact eq_of_list (fun w hw v hv => WrappedModule.eq_of_toJson (hws w hw) (hvs v hv)) hjson

/-- A wrapper whose only argument has the given default. -/
def dredger (depth : Binary64) : WrappedModule where
  module := {
    name := "bind_c_harbor"
    wraps := "harbor"
    target := .fortran
    globals := []
    functions := [{
      name := "bind_c_dredge"
      origin := .function "dredge"
      arguments := [{
        declared := { name := "depth", type := .scalar .float64, optional := true, default := some (.float depth) }
        native := .owned "depth" (.scalar .float64)
        abi := .pointer "bound_depth" [] []
        callValue := .var "depth" }]
      results := []
      body := [.branch (.isNotNull (.var "bound_depth"))
        [.reinterpret "bound_depth" "depth" [], .eval (.call "dredge" [.mk (some "depth") (.var "depth")])]
        [.eval (.call "dredge" [])]]
      locals := [.pointer "bound_depth", .owned "depth" (.scalar .float64)]
      scope := 1
      docstring := some "" }]
    initFunction := none
    freeFunction := none
    interfaces := []
    classes := []
    removedFunctions := [] }
  scopes := (ScopeTree.new .fortran "harbor" ["bind_c_dredge"]).newChild ScopeTree.root "bind_c_dredge" .function |>.2

/-- The two zeros differ in the text. -/
theorem canonicalText_inj_zeros :
    (∀ w ∈ [dredger .zero], w.module.hasFiniteDefaults) ∧
      (∀ v ∈ [dredger ⟨0x8000000000000000⟩], v.module.hasFiniteDefaults) ∧
      canonicalText [dredger .zero] ≠ canonicalText [dredger ⟨0x8000000000000000⟩] := by
  have hpos : ∀ w ∈ [dredger .zero], w.module.hasFiniteDefaults := by decide
  have hneg : ∀ v ∈ [dredger ⟨0x8000000000000000⟩], v.module.hasFiniteDefaults := by decide
  have hne : [dredger .zero] ≠ [dredger ⟨0x8000000000000000⟩] := by
    simp [dredger, Binary64.zero]
  exact ⟨hpos, hneg, mt (canonicalText_inj hpos hneg).2.2.1 hne⟩

end AbiBridge
