import AbiBridge.Storage.Order

/-! # Target languages

The native language a module was compiled to. It fixes the storage order of native arrays, the first
index of a native array, and which features of a module can be exposed. -/

namespace AbiBridge

/-- The native language of a wrapped module. -/
inductive Target where
  | fortran
  | cuda
deriving DecidableEq, Repr, Inhabited

namespace Target

def name : Target → String
  | .fortran => "fortran"
  | .cuda => "cuda"

def storageOrder : Target → StorageOrder
  | .fortran => .columnMajor
  | .cuda => .rowMajor

/-- The first index of a native array. -/
def indexBase : Target → Nat
  | .fortran => 1
  | .cuda => 0

def supportsInterfaces : Target → Bool
  | .fortran => true
  | .cuda => false

def supportsClasses : Target → Bool
  | .fortran => true
  | .cuda => false

def toJson (t : Target) : Json := .str t.name

def decode : Decoder Target := fun room j =>
  match Json.caseName? room j with
  | some "fortran" => some .fortran
  | some "cuda" => some .cuda
  | _ => none

end Target

end AbiBridge
