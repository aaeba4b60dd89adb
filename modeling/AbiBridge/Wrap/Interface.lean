import AbiBridge.Wrap.Function

/-! # What became of the functions

The outcome of wrapping each function of a list, in its order; the names that the wrapped ones got; and
the overload sets restricted to them. -/

namespace AbiBridge

open Wrapper

/-- A function with its wrapper, or with the reason why it has none. -/
structure Outcome where
  function : Semantic.Function
  wrapper : Except WrapFailure Wrapper.Function

namespace Outcome

def wrapper? (o : Outcome) : Option Wrapper.Function := o.wrapper.toOption

def failure? (o : Outcome) : Option WrapFailure :=
  match o.wrapper with
  | .ok _ => none
  | .error e => some e

end Outcome

/-- The name of the wrapper of a function; of two functions of one name the later counts. -/
def wrapperName? (outcomes : List Outcome) (name : String) : Option String :=
  (outcomes.reverse.find? fun o => o.function.name == name && o.wrapper?.isSome).bind
    fun o => o.wrapper?.map (·.name)

/-- An overload set without the overloads that were not wrapped, if any is left. -/
def restrictInterface (outcomes : List Outcome) (i : Semantic.Interface) : Option Wrapper.Interface :=
  match i.functions.filterMap (wrapperName? outcomes) with
  | [] => none
  | names => some ⟨i.name, names⟩

/-- The place of a failure inside a module. -/
def reportAt (moduleName : String) (symbol : Option String) (span : Semantic.Span) (e : WrapFailure) :
    Diagnostic :=
  e.diagnostic ⟨moduleName, symbol, span⟩

/-- The diagnostics of the functions that were not wrapped, each at its function. -/
def reportOutcomes (moduleName : String) (symbol : Semantic.Function → String)
    (outcomes : List Outcome) : List Diagnostic :=
  outcomes.filterMap fun o =>
    o.failure?.map (reportAt moduleName (some (symbol o.function)) o.function.span)

end AbiBridge
