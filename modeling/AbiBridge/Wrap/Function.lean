import AbiBridge.Marshal.Presence
import AbiBridge.Text.Lowercase

/-! # Wrapping functions

Whether a function can be wrapped is settled by its types alone, before any name is allocated: a function
that cannot leaves no trace in the scope tree. -/

namespace AbiBridge

open Wrapper

/-- The forms in which the arguments and results of a function cross the boundary. -/
structure CrossingPlan where
  arguments : List (Semantic.Argument × Passing)
  results : List (Semantic.Result × Delivery)

namespace CrossingPlan

/-- The form of an argument of the function called `label` in messages. -/
def argument (label : String) (a : Semantic.Argument) : Except WrapFailure (Semantic.Argument × Passing) :=
  match Passing.of? a.type a.optional with
  | some passing => .ok (a, passing)
  | none => .error (.unsupportedArgument label a.name a.type)

/-- The form of a result of the function called `label` in messages. -/
def result (label : String) (r : Semantic.Result) : Except WrapFailure (Semantic.Result × Delivery) :=
  match Delivery.of? r.type with
  | some delivery => .ok (r, delivery)
  | none => .error (.unsupportedResult label r.name r.type)

/-- The first argument without a form stops the plan, then the first result. -/
def of (f : Semantic.Function) : Except WrapFailure CrossingPlan := do
  let arguments ← f.arguments.mapM (argument f.name)
  let results ← f.results.mapM (result f.name)
  return ⟨arguments, results⟩

end CrossingPlan

/-- A function or method to wrap. -/
structure Job where
  function : Semantic.Function
  /-- The wrapper's name before collisions. -/
  hint : String
  origin : Origin
  /-- The name the function is called by. -/
  callName : String

namespace Job

/-- An array needs a temporary for its view where the function is inline or wants it contiguous. -/
def needsTemporary (f : Semantic.Function) (a : Semantic.Argument) (passing : Passing) : Bool :=
  passing == .array && (f.isInline || a.contiguous)

/-- A result in place is the first argument of its name; any other comes from the call. -/
def sourceOf (arguments : List MarshalledArgument) (r : Semantic.Result) : ResultSource :=
  if r.isArgument then
    match arguments.find? (·.name == r.name) with
    | some a => .inPlace a
    | none => .call
  else .call

/-- A destructor ends by releasing its receiver. -/
def release (f : Semantic.Function) (arguments : List MarshalledArgument) : List Stmt :=
  if f.role = .destructor then
    match arguments.find? (·.argument.isBound) with
    | some a => [.deallocate a.argument.native.name]
    | none => []
  else []

/-- Wraps a function whose arguments and results all have forms. -/
def lower (target : Target) (job : Job) (plan : CrossingPlan) : Alloc Wrapper.Function := do
  let f := job.function
  let (name, scope) ← Alloc.openFunction (Text.lowercase job.hint)
  let arguments ← plan.arguments.mapM fun (a, passing) =>
    marshalArgument target scope a passing (needsTemporary f a passing)
  let results ← plan.results.mapM fun (r, delivery) =>
    marshalResult target scope r delivery (sourceOf arguments r)
  let site : CallSite := ⟨job.callName, results.filterMap (·.target)⟩
  return {
    name
    origin := job.origin
    arguments := arguments.map (·.argument)
    results := results.map (·.result)
    body := site.body arguments ++ results.flatMap (·.deferred) ++ release f arguments
    locals := ← Alloc.locals scope
    scope
    docstring := f.docstring }

/-- Wraps a function, unless an argument or a result has no form. -/
def run (target : Target) (job : Job) : Alloc (Except WrapFailure Wrapper.Function) :=
  match CrossingPlan.of job.function with
  | .error e => pure (.error e)
  | .ok plan => do return .ok (← job.lower target plan)

end Job

end AbiBridge
