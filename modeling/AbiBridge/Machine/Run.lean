import AbiBridge.Machine.Trap

/-! # Computations that may trap

A computation takes a state and gives a value or a trap, and in both cases the state it left behind: what
was done before a trap stays done. -/

namespace AbiBridge

/-- A computation on states `σ`. -/
def Run (σ α : Type) : Type := σ → Except Trap α × σ

namespace Run

variable {σ τ α β : Type}

instance : Monad (Run σ) where
  pure a := fun s => (.ok a, s)
  bind x f := fun s =>
    match x s with
    | (.ok a, s') => f a s'
    | (.error e, s') => (.error e, s')

theorem pure_apply (a : α) (s : σ) : (pure a : Run σ α) s = (.ok a, s) := rfl

theorem bind_apply (x : Run σ α) (f : α → Run σ β) (s : σ) :
    (x >>= f) s =
      match x s with
      | (.ok a, s') => f a s'
      | (.error e, s') => (.error e, s') := rfl

instance : LawfulMonad (Run σ) := LawfulMonad.mk' (Run σ)
  (fun x => by
    funext s
    show (match x s with | (.ok a, s') => (.ok a, s') | (.error e, s') => (.error e, s')) = x s
    rcases x s with ⟨_ | _, _⟩ <;> rfl)
  (fun _ _ => rfl)
  (fun x f g => by
    funext s
    simp only [bind_apply]
    rcases x s with ⟨_ | _, _⟩ <;> rfl)

def trap (e : Trap) : Run σ α := fun s => (.error e, s)

def get : Run σ σ := fun s => (.ok s, s)

def modify (f : σ → σ) : Run σ Unit := fun s => (.ok (), f s)

/-- A step that looks at the state without changing it. -/
def read (f : σ → Except Trap α) : Run σ α := fun s => (f s, s)

/-- A step that changes the state, or traps and leaves it as it is. -/
def update (f : σ → Except Trap σ) : Run σ Unit := fun s =>
  match f s with
  | .ok s' => (.ok (), s')
  | .error e => (.error e, s)

/-- A computation without access to the state. -/
def ofExcept (r : Except Trap α) : Run σ α := fun s => (r, s)

/-- A computation on a part of the state. -/
def within (view : σ → τ) (replace : σ → τ → σ) (x : Run τ α) : Run σ α := fun s =>
  match x (view s) with
  | (r, t) => (r, replace s t)

end Run

end AbiBridge
