/-! # Bindings

Names bound to values: the locals of an activation, the globals of a module, the fields of an object. The
first binding of a name counts, and `set` keeps it the only one. -/

namespace AbiBridge

/-- Names with their values. -/
abbrev Bindings (α : Type) := List (String × α)

namespace Bindings

variable {α : Type}

def get? : Bindings α → String → Option α
  | [], _ => none
  | (k, v) :: rest, name => if k = name then some v else get? rest name

/-- Binds a name, in the place of its earlier binding if it has one. -/
def set (name : String) (value : α) : Bindings α → Bindings α
  | [] => [(name, value)]
  | (k, v) :: rest => if k = name then (name, value) :: rest else (k, v) :: set name value rest

/-- Binds names to values in turn, so that of two bindings of a name the later counts. -/
def ofPairs (pairs : List (String × α)) : Bindings α := pairs.foldl (fun b p => set p.1 p.2 b) []

theorem get?_set (b : Bindings α) (name other : String) (value : α) :
    (b.set name value).get? other = if name = other then some value else b.get? other := by
  induction b with
  | nil => rfl
  | cons p rest ih =>
    by_cases hk : p.1 = name
    · by_cases ho : name = other <;> simp [set, get?, hk, ho]
    · simp only [set, hk, if_false, get?, ih]
      by_cases ho : p.1 = other
      · have : name ≠ other := fun h => hk (ho.trans h.symm)
        simp [ho, this]
      · simp [ho]

end Bindings

end AbiBridge
