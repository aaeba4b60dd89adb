/-! # Words that Fortran reserves

Keywords, intrinsic procedures that the generated code relies on, and interoperability names. Fortran
identifiers are compared without regard to case. -/

namespace AbiBridge.Naming.Fortran

/-- The words of Fortran 2008 statements and declarations. -/
def statements : List String :=
  ["abstract", "allocatable", "allocate", "assign", "associate", "asynchronous", "backspace",
   "bind", "block", "call", "case", "character", "class", "close", "codimension", "common",
   "complex", "contains", "contiguous", "continue", "critical", "cycle", "data", "deallocate",
   "default", "deferred", "dimension", "do", "double", "elemental", "else", "elseif", "elsewhere",
   "end", "endif", "enddo", "entry", "enum", "enumerator", "equivalence", "error", "exit",
   "extends", "external", "final", "flush", "forall", "format", "function", "generic", "goto", "if",
   "implicit", "import", "impure", "in", "inout", "include", "inquire", "integer", "intent",
   "interface", "intrinsic", "kind", "len", "lock", "logical", "module", "namelist",
   "non_overridable", "none", "nopass", "nullify", "open", "operator", "optional", "out",
   "parameter", "pass", "pause", "pointer", "precision", "print", "private", "procedure", "program",
   "protected", "public", "pure", "read", "real", "recursive", "result", "return", "rewind", "save",
   "select", "sequence", "stop", "submodule", "subroutine", "sync", "target", "then", "type",
   "unlock", "use", "value", "volatile", "wait", "where", "while", "write"]

/-- Intrinsic procedures the wrappers rely on and the interoperability names. -/
def intrinsics : List String :=
  ["c_f_pointer", "c_loc", "c_ptr", "c_null_ptr", "c_associated", "c_int", "c_long", "c_int8_t",
   "c_int16_t", "c_int32_t", "c_int64_t", "c_float", "c_double", "c_float_complex",
   "c_double_complex", "c_bool", "iso_c_binding", "iso_fortran_env", "shape", "size", "present",
   "allocated", "associated", "lbound", "ubound", "reshape", "transpose", "merge", "abs", "max",
   "min", "mod", "sign", "sqrt", "exp", "log"]

def keywords : List String := statements ++ intrinsics

end AbiBridge.Naming.Fortran
