import Mathlib
import AbiBridge.Scope.Session
import AbiBridge.Proofs.Allocation

/-!
# Names made in one session

A session serves requests to a tree that starts with its root alone (`Session`). An allocation is a request for a
fresh name, or the first request of a scope for the name of a declared one (`Allocates`).
`Session.names_apart`: names of different allocations on one chain differ, none is reserved or a name that the root
was given, and a declared name keeps the name it got first.

One request can only do what `Served` says. With the tree being tidy this gives the invariant `Session.Sound`, which
knows the allocated names of each scope as symbols of it and the expectations as the requests that made them.
-/

namespace AbiBridge.ScopeTree

open Wrapper

/-- A request with its answer. -/
structure Event where
  scope : ScopeId
  request : Request
  answer : Answer

/-- The requests served so far, and the tree they made. A local is declared only under a name that its scope was
given in an answer. -/
inductive Session (target : Target) (name : String) (used : List String) : List Event → ScopeTree → Prop
  | start : Session target name used [] (.new target name used)
  | step {es : List Event} {t t' : ScopeTree} (e : Event) (before : Session target name used es t)
    (served : t.serve e.scope e.request = some (e.answer, t'))
    (declares : ∀ l, e.request = .declare l → ∃ d ∈ es, d.scope = e.scope ∧ d.answer = .named l.name) :
    Session target name used (es ++ [e]) t'

/-- The `i`-th request made the name `x` in scope `a`. -/
def Allocates (es : List Event) (i : Nat) (a : ScopeId) (x : String) : Prop :=
  (∃ hint, es[i]? = some ⟨a, .fresh hint, .named x⟩) ∨
    ∃ n, es[i]? = some ⟨a, .symbol n, .named x⟩ ∧ ∀ j < i, ∀ answer, es[j]? ≠ some ⟨a, .symbol n, answer⟩

variable {target : Target} {name : String} {used : List String} {es : List Event} {e : Event} {t t' : ScopeTree}

/-! ### One request -/

/-- What serving a request can do. -/
structure Served (t : ScopeTree) (id : ScopeId) (request : Request) (answer : Answer) (t' : ScopeTree) : Prop where
  extend : t.Extends t'
  /-- An answered name is one of the scope. -/
  owned : ∀ {x}, answer = .named x → x ∈ t'.symbolsOf id
  fresh : ∀ {hint x}, request = .fresh hint → answer = .named x → x ∉ t.symbolsOf id
  symbol : ∀ {n}, request = .symbol n → ∃ x, answer = .named x ∧ t'.nameFor? id n = some x ∧
    (t.nameFor? id n = none → x ∉ t.symbolsOf id)
  /-- An expectation is an old one or was made by this request. -/
  expects : ∀ {c n x}, t'.nameFor? c n = some x →
    t.nameFor? c n = some x ∨ c = id ∧ request = .symbol n ∧ answer = .named x
  lookup : ∀ {n}, request = .expected n → answer = .expected (t.expectedName? id n)

namespace Served

variable {id : Nat} {request : Request} {answer : Answer}

theorem of_silent (hext : t.Extends t') (hname : ∀ c n, t'.nameFor? c n = t.nameFor? c n)
    (hanswer : ∀ x, answer ≠ .named x) (hsymbol : ∀ n, request ≠ .symbol n)
    (hlookup : ∀ n, request = .expected n → answer = .expected (t.expectedName? id n)) :
    Served t id request answer t' where
  extend := hext
  owned h := absurd h (hanswer _)
  fresh _ h := absurd h (hanswer _)
  symbol h := absurd h (hsymbol _)
  expects hx := .inl (by rwa [hname] at hx)
  lookup h := hlookup _ h

theorem of_fresh (hid : id < t.size) (hint : String) :
    Served t id (.fresh hint) (.named (t.freshName id hint).1) (t.freshName id hint).2 := by
  have g := freshName_grown hid hint
  refine ⟨g.extend, fun h => ?_, fun _ h => ?_, fun h => (by cases h), fun hx => .inl ?_, fun h => (by cases h)⟩
  · obtain rfl := Answer.named.inj h
    exact g.mem_of_fresh (List.mem_singleton_self _)
  · obtain rfl := Answer.named.inj h
    exact g.notMem _ (List.mem_singleton_self _)
  · rwa [g.other _ _ fun _ => List.not_mem_nil] at hx

theorem of_symbol (ht : t.Tidy used) (hid : id < t.size) (n : String) :
    Served t id (.symbol n) (.named (t.insertSymbol id n).1) (t.insertSymbol id n).2 := by
  obtain ⟨fresh, hname, g, hfresh⟩ := insertSymbol_grown hid n
  refine ⟨g.extend, fun h => ?_, fun h => (by cases h), fun h => ?_, fun {c m x} hx => ?_, fun h => (by cases h)⟩
  · obtain rfl := Answer.named.inj h
    exact (g.extend.tidy ht).expected hname
  · obtain rfl := Request.symbol.inj h
    refine ⟨_, rfl, hname, fun hnone => g.notMem _ ?_⟩
    rw [hfresh hnone]
    exact List.mem_singleton_self _
  · by_cases hc : c = id ∧ m = n
    · obtain ⟨rfl, rfl⟩ := hc
      rw [hname] at hx
      exact .inr ⟨rfl, rfl, by rw [Option.some.inj hx]⟩
    · refine .inl ?_
      rwa [g.other c m fun h hm => hc ⟨h, List.mem_singleton.1 hm⟩] at hx

/-- One request to a tidy tree, where a local is declared under a name of its scope. -/
theorem of_serve (ht : t.Tidy used) (hserve : t.serve id request = some (answer, t'))
    (hdeclare : ∀ l, request = .declare l → l.name ∈ t.symbolsOf id) : Served t id request answer t' := by
  unfold serve at hserve
  cases hs : t.scope? id with
  | none => rw [hs] at hserve; cases hserve
  | some s =>
    rw [hs] at hserve
    have hid := lt_size hs
    cases request with
    | child name kind =>
      obtain ⟨rfl, rfl⟩ := Prod.mk.inj (Option.some.inj hserve)
      have g := newChild_grown hid name kind
      exact of_silent g.extend (fun c n => g.other c n fun _ => List.not_mem_nil) (by simp) (by simp) (by simp)
    | fresh hint =>
      obtain ⟨rfl, rfl⟩ := Prod.mk.inj (Option.some.inj hserve)
      exact of_fresh hid hint
    | symbol n =>
      obtain ⟨rfl, rfl⟩ := Prod.mk.inj (Option.some.inj hserve)
      exact of_symbol ht hid n
    | expected n =>
      obtain ⟨rfl, rfl⟩ := Prod.mk.inj (Option.some.inj hserve)
      refine of_silent (.refl t) (fun _ _ => rfl) (by simp) (by simp) fun m hm => ?_
      rw [Request.expected.inj hm]
    | declare l =>
      obtain ⟨rfl, rfl⟩ := Prod.mk.inj (Option.some.inj hserve)
      have g := insertVariable_grown hid (hdeclare l rfl)
      exact of_silent g.extend (fun c n => g.other c n fun _ => List.not_mem_nil) (by simp) (by simp) (by simp)
    | find n =>
      obtain ⟨rfl, rfl⟩ := Prod.mk.inj (Option.some.inj hserve)
      exact of_silent (.refl t) (fun _ _ => rfl) (by simp) (by simp) (by simp)
    | info =>
      obtain ⟨rfl, rfl⟩ := Prod.mk.inj (Option.some.inj hserve)
      exact of_silent (.refl t) (fun _ _ => rfl) (by simp) (by simp) (by simp)

end Served

/-! ### A whole session -/

namespace Allocates

variable {i : Nat} {a : ScopeId} {x : String}

theorem lt_length (h : Allocates es i a x) : i < es.length := by
  rcases h with ⟨_, h⟩ | ⟨_, h, -⟩ <;> exact (List.getElem?_eq_some_iff.1 h).1

/-- A further request leaves the earlier allocations what they were. -/
theorem of_append (h : Allocates (es ++ [e]) i a x) (hi : i < es.length) : Allocates es i a x := by
  rcases h with ⟨hint, h⟩ | ⟨n, h, hfirst⟩
  · exact .inl ⟨hint, by rwa [List.getElem?_append_left hi] at h⟩
  · refine .inr ⟨n, by rwa [List.getElem?_append_left hi] at h, fun j hj answer => ?_⟩
    have hother := hfirst j hj answer
    rwa [List.getElem?_append_left (Nat.lt_trans hj hi)] at hother

end Allocates

theorem getElem?_concat_cases {i : Nat} {d : Event} (h : (es ++ [e])[i]? = some d) :
    i < es.length ∧ es[i]? = some d ∨ i = es.length ∧ d = e := by
  rcases Nat.lt_trichotomy i es.length with hlt | rfl | hgt
  · exact .inl ⟨hlt, by rwa [List.getElem?_append_left hlt] at h⟩
  · rw [List.getElem?_concat_length] at h
    exact .inr ⟨rfl, (Option.some.inj h).symm⟩
  · rw [List.getElem?_eq_none (by simpa using hgt)] at h
    cases h

/-- What is known of the tree after a session. -/
structure Session.Sound (target : Target) (used : List String) (es : List Event) (t : ScopeTree) : Prop where
  target_eq : t.target = target
  tidy : t.Tidy used
  named : ∀ d ∈ es, ∀ x, d.answer = .named x → x ∈ t.symbolsOf d.scope
  made : ∀ {i a x}, Allocates es i a x → ¬ (a = root ∧ x ∈ used)
  distinct : ∀ {i j a x}, Allocates es i a x → Allocates es j a x → i = j
  asked : ∀ {i : Nat} {a n answer}, es[i]? = some ⟨a, .symbol n, answer⟩ →
    ∃ x, answer = .named x ∧ t.nameFor? a n = some x
  expects : ∀ {a n x}, t.nameFor? a n = some x → ∃ i : Nat, es[i]? = some ⟨a, .symbol n, .named x⟩

namespace Session

theorem Sound.start (target : Target) (name : String) (used : List String) :
    Sound target used [] (.new target name used) := by
  refine ⟨rfl, .new target name used, by simp, fun h => ?_, fun h => ?_, by simp, fun {a n x} h => ?_⟩
  · exact absurd h.lt_length (Nat.not_lt_zero _)
  · exact absurd h.lt_length (Nat.not_lt_zero _)
  · cases a <;> cases h

theorem Sound.mem_symbolsOf (h : Sound target used es t) {i : Nat} {a : ScopeId} {x : String}
    (hx : Allocates es i a x) : x ∈ t.symbolsOf a := by
  rcases hx with ⟨hint, hx⟩ | ⟨n, hx, -⟩ <;> exact h.named _ (List.mem_of_getElem? hx) x rfl

theorem Sound.notMem_of_last (h : Sound target used es t) (hs : Served t e.scope e.request e.answer t')
    {a : ScopeId} {x : String} (hx : Allocates (es ++ [e]) es.length a x) : x ∉ t.symbolsOf a := by
  rcases hx with ⟨hint, hx⟩ | ⟨n, hx, hfirst⟩ <;> rw [List.getElem?_concat_length] at hx <;>
    obtain rfl := Option.some.inj hx
  · exact hs.fresh rfl rfl
  · obtain ⟨y, hy, -, hnew⟩ := hs.symbol rfl
    obtain rfl := Answer.named.inj hy
    refine hnew (Option.eq_none_iff_forall_ne_some.2 fun z hz => ?_)
    -- an expectation would come from an earlier request
    obtain ⟨i, hi⟩ := h.expects hz
    have hlt := (List.getElem?_eq_some_iff.1 hi).1
    exact hfirst i hlt _ (by rwa [List.getElem?_append_left hlt])

theorem Sound.step (h : Sound target used es t) (hs : Served t e.scope e.request e.answer t') :
    Sound target used (es ++ [e]) t' := by
  have hcases : ∀ {i a x}, Allocates (es ++ [e]) i a x →
      Allocates es i a x ∨ i = es.length ∧ x ∉ t.symbolsOf a := by
    intro i a x hx
    have hlt := hx.lt_length
    rw [List.length_append, List.length_singleton] at hlt
    rcases Nat.lt_succ_iff_lt_or_eq.1 hlt with hlt | rfl
    · exact .inl (hx.of_append hlt)
    · exact .inr ⟨rfl, h.notMem_of_last hs hx⟩
  refine ⟨hs.extend.target.trans h.target_eq, hs.extend.tidy h.tidy, fun d hd x hx => ?_, fun {i a x} hx => ?_,
    fun {i j a x} hi hj => ?_, fun {i a n answer} hi => ?_, fun {a n x} hx => ?_⟩
  · rcases List.mem_append.1 hd with hd | hd
    · exact hs.extend.symbols _ (h.named d hd x hx)
    · obtain rfl := List.mem_singleton.1 hd
      exact hs.owned hx
  · rcases hcases hx with hx | ⟨-, hx⟩
    · exact h.made hx
    · rintro ⟨rfl, hused⟩
      exact hx (h.tidy.given x hused)
  · rcases hcases hi with hi | ⟨hi, hnew⟩ <;> rcases hcases hj with hj | ⟨hj, hnew'⟩
    · exact h.distinct hi hj
    · exact absurd (h.mem_symbolsOf hi) hnew'
    · exact absurd (h.mem_symbolsOf hj) hnew
    · exact hi.trans hj.symm
  · rcases getElem?_concat_cases hi with ⟨-, hi⟩ | ⟨-, rfl⟩
    · obtain ⟨x, hx, hname⟩ := h.asked hi
      exact ⟨x, hx, hs.extend.expected hname⟩
    · obtain ⟨x, hx, hname, -⟩ := hs.symbol rfl
      exact ⟨x, hx, hname⟩
  · rcases hs.expects hx with hx | ⟨rfl, hrequest, hanswer⟩
    · obtain ⟨i, hi⟩ := h.expects hx
      exact ⟨i, by rwa [List.getElem?_append_left (List.getElem?_eq_some_iff.1 hi).1]⟩
    · refine ⟨es.length, ?_⟩
      rw [List.getElem?_concat_length, ← hrequest, ← hanswer]

theorem sound (h : Session target name used es t) : Sound target used es t := by
  induction h with
  | start => exact .start target name used
  | step e _ served declares ih =>
    refine ih.step (.of_serve ih.tidy served fun l hl => ?_)
    obtain ⟨d, hd, hscope, hanswer⟩ := declares l hl
    exact hscope ▸ ih.named d hd _ hanswer

/-- What a name of the scope itself says of the names on its chain. -/
theorem expectedName?_eq {a : Nat} {n x : String} (ha : a < t.size) (h : t.nameFor? a n = some x) :
    t.expectedName? a n = some x := by
  obtain ⟨outer, houter⟩ := chain_eq_cons ha
  rw [expectedName?, houter, List.findSome?_cons, show (t.expectedOf a).lookup n = some x from h]

theorem expected_after (h : Session target name used es t) {i j : Nat} {a : ScopeId} {n : String}
    {answer answer' : Answer} (hi : es[i]? = some ⟨a, .symbol n, answer⟩)
    (hj : es[j]? = some ⟨a, .expected n, answer'⟩) (hij : i < j) :
    ∃ x, answer = .named x ∧ answer' = .expected (some x) := by
  induction h with
  | start => simp at hi
  | @step es t t' e before served declares ih =>
    rcases getElem?_concat_cases hj with ⟨hlt, hj⟩ | ⟨rfl, rfl⟩
    · rw [List.getElem?_append_left (Nat.lt_trans hij hlt)] at hi
      exact ih hi hj
    · rw [List.getElem?_append_left hij] at hi
      have hsound := before.sound
      obtain ⟨x, hx, hname⟩ := hsound.asked hi
      have hserved := Served.of_serve hsound.tidy served (by simp)
      have hlt : a < t.size := lt_size_of_mem_symbolsOf (hsound.tidy.expected hname)
      exact ⟨x, hx, (hserved.lookup rfl).trans (by rw [expectedName?_eq hlt hname])⟩

/-- Names that two allocations make in one scope, or in two of which one is inside the other, differ. No
allocated name is reserved or one of those given to the root. A scope always uses the name that it made first for a
declared one. -/
theorem names_apart (h : Session target name used es t) :
    (∀ i j a b x y, i ≠ j → Allocates es i a x → Allocates es j b y → a ∈ t.chain b ∨ b ∈ t.chain a →
      target.sameName x y = false) ∧
    (∀ i a x, Allocates es i a x → target.isReserved x = false ∧ ∀ u ∈ used, target.sameName u x = false) ∧
    ∀ (i : Nat) a n answer, es[i]? = some ⟨a, .symbol n, answer⟩ →
      ∃ x, answer = .named x ∧ t.expectedName? a n = some x ∧
        (∀ (j : Nat) answer', es[j]? = some ⟨a, .symbol n, answer'⟩ → answer' = .named x) ∧
        ∀ (j : Nat) answer', i < j → es[j]? = some ⟨a, .expected n, answer'⟩ → answer' = .expected (some x) := by
  have hs := h.sound
  have htidy := hs.tidy
  obtain rfl := hs.target_eq
  refine ⟨fun i j a b x y hij hi hj hab => ?_, fun i a x hi => ⟨?_, fun u hu => ?_⟩, fun i a n answer hi => ?_⟩
  · rw [Bool.eq_false_iff]
    intro hsame
    have hx := hs.mem_symbolsOf hi
    have hy := hs.mem_symbolsOf hj
    have hab : t.Encloses a b ∨ t.Encloses b a :=
      hab.imp (mem_chain htidy.ordered (lt_size_of_mem_symbolsOf hy)).1
        (mem_chain htidy.ordered (lt_size_of_mem_symbolsOf hx)).1
    have heq : a = b ∧ x = y := by
      rcases hab with hab | hba
      · rcases htidy.apart hab hx hy hsame with heq | ⟨hgiven, -⟩
        · exact heq
        · exact absurd hgiven (hs.made hi)
      · rw [Target.sameName_comm] at hsame
        rcases htidy.apart hba hy hx hsame with ⟨rfl, rfl⟩ | ⟨hgiven, -⟩
        · exact ⟨rfl, rfl⟩
        · exact absurd hgiven (hs.made hj)
    obtain ⟨rfl, rfl⟩ := heq
    exact hij (hs.distinct hi hj)
  · rw [Bool.eq_false_iff]
    exact fun hr => hs.made hi (htidy.legal (hs.mem_symbolsOf hi) hr)
  · rw [Bool.eq_false_iff]
    intro hsame
    have hroot := Encloses.of_root htidy.ordered (lt_size_of_mem_symbolsOf (hs.mem_symbolsOf hi))
    rcases htidy.apart hroot (htidy.given u hu) (hs.mem_symbolsOf hi) hsame with ⟨rfl, rfl⟩ | ⟨-, hgiven⟩
    · exact hs.made hi ⟨rfl, hu⟩
    · exact hs.made hi hgiven
  · obtain ⟨x, rfl, hname⟩ := hs.asked hi
    have ha : a < t.size := lt_size_of_mem_symbolsOf (htidy.expected hname)
    refine ⟨x, rfl, expectedName?_eq ha hname, fun j answer' hj => ?_, fun j answer' hij hj => ?_⟩
    · obtain ⟨y, rfl, hname'⟩ := hs.asked hj
      rw [Option.some.inj (hname.symm.trans hname')]
    · obtain ⟨y, hy, rfl⟩ := h.expected_after hi hj hij
      rw [Answer.named.inj hy]

/-! ### A session that nests -/

theorem fresh (h : Session target name used es t) (id : Nat) (hid : id < t.size) (hint : String) :
    Session target name used (es ++ [⟨id, .fresh hint, .named (t.freshName id hint).1⟩]) (t.freshName id hint).2 := by
  obtain ⟨s, hs⟩ := exists_scope? hid
  exact h.step _ (by simp only [serve, hs]) (by simp)

theorem symbol (h : Session target name used es t) (id : Nat) (hid : id < t.size) (n : String) :
    Session target name used (es ++ [⟨id, .symbol n, .named (t.insertSymbol id n).1⟩]) (t.insertSymbol id n).2 := by
  obtain ⟨s, hs⟩ := exists_scope? hid
  exact h.step _ (by simp only [serve, hs]) (by simp)

theorem child (h : Session target name used es t) (id : Nat) (hid : id < t.size) (label : String) (kind : ScopeKind) :
    Session target name used (es ++ [⟨id, .child label kind, .opened t.size⟩]) (t.newChild id label kind).2 := by
  obtain ⟨s, hs⟩ := exists_scope? hid
  exact h.step _ (by simp only [serve, hs]; rfl) (by simp)

/-- A function with a loop in it, in a module that has a `Temp`. -/
theorem names_apart_nested : ∃ outer inner elem again t,
    Session .fortran "grid" ["Temp"]
      [⟨0, .fresh "temp", .named outer⟩, ⟨0, .child "f" .function, .opened 1⟩, ⟨1, .symbol "x", .named inner⟩,
        ⟨1, .child "for" .loop, .opened 2⟩, ⟨2, .fresh "X", .named elem⟩, ⟨1, .symbol "x", .named again⟩] t ∧
    Target.fortran.sameName inner elem = false ∧ Target.fortran.sameName outer elem = false ∧
    Target.fortran.sameName "Temp" outer = false ∧ again = inner ∧ t.expectedName? 1 "x" = some inner := by
  have h₁ := (start : Session .fortran "grid" ["Temp"] [] _).fresh 0 (by decide) "temp"
  have h₂ := h₁.child 0 (by decide) "f" .function
  have h₃ := h₂.symbol 1 (by decide) "x"
  have h₄ := h₃.child 1 (by decide) "for" .loop
  have h₅ := h₄.fresh 2 (by decide) "X"
  have h₆ := h₅.symbol 1 (by decide) "x"
  obtain ⟨hapart, hlegal, hkept⟩ := names_apart h₆
  obtain ⟨x, hx, hexpected, hsame, -⟩ := hkept 2 1 "x" _ rfl
  obtain rfl := Answer.named.inj hx
  refine ⟨_, _, _, _, _, h₆, hapart 2 4 1 2 _ _ (by decide) (.inr ⟨"x", rfl, fun j hj answer h => ?_⟩)
      (.inl ⟨"X", rfl⟩) (.inl (by decide)),
    hapart 0 4 0 2 _ _ (by decide) (.inl ⟨"temp", rfl⟩) (.inl ⟨"X", rfl⟩) (.inl (by decide)),
    (hlegal 0 0 _ (.inl ⟨"temp", rfl⟩)).2 "Temp" (by simp), Answer.named.inj (hsame 5 _ rfl), hexpected⟩
  -- neither of the two requests before it was for a symbol
  rcases Nat.le_one_iff_eq_zero_or_eq_one.1 (Nat.le_of_lt_succ hj) with rfl | rfl <;> cases h

end Session

end AbiBridge.ScopeTree
