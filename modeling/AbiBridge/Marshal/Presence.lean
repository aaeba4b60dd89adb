import AbiBridge.Marshal.Result

/-! # The presence tree

The body of a wrapper tests the pointer of each optional argument, in declaration order. At a leaf it is
settled which arguments are live: their values are rebuilt, the receiver first, views are bound to their
temporaries, and the wrapped function is called with the live arguments by keyword. -/

namespace AbiBridge

open Wrapper

/-- The call that a wrapper makes. -/
structure CallSite where
  /-- The name the wrapped function is called by. -/
  callee : String
  targets : List CallTarget

namespace CallSite

/-- Binds the values of the call to the targets. -/
def bind (site : CallSite) (call : Expr) : Stmt :=
  match site.targets with
  | [] => .eval call
  | [t] => if t.aliased then .aliasAssign (.var t.name) call else .assign (.var t.name) call
  | ts => .assign (.tuple (ts.map fun t => .var t.name)) call

/-- The receiver first, then declaration order. -/
def receiverFirst (live : List MarshalledArgument) : List MarshalledArgument :=
  live.filter (·.argument.isBound) ++ live.filter (!·.argument.isBound)

/-- Binds a view to its temporary. -/
def bindView (a : MarshalledArgument) : Option Stmt :=
  a.viewAlias.map fun temporary => .aliasAssign (.var temporary) a.argument.callValue

/-- The code of a leaf. -/
def leaf (site : CallSite) (live : List MarshalledArgument) : List Stmt :=
  let ordered := receiverFirst live
  let call := Expr.call site.callee (live.map fun a => .mk (some a.name) a.passedValue)
  ordered.filterMap (·.rebuild) ++ ordered.filterMap bindView ++ [site.bind call]

/-- The tree of tests for the arguments `rest`, when of those before them `live` are live. -/
def tree (site : CallSite) (live : List MarshalledArgument) : List MarshalledArgument → List Stmt
  | [] => site.leaf live
  | a :: rest =>
    if a.argument.isOptional then
      match a.argument.pointer? with
      | some ptr =>
        [.branch (.isNotNull (.var ptr)) (site.tree (live ++ [a]) rest) (site.tree live rest)]
      | none => site.leaf (live ++ a :: rest)
    else site.tree (live ++ [a]) rest

/-- The whole tree. -/
def body (site : CallSite) (arguments : List MarshalledArgument) : List Stmt :=
  site.tree [] arguments

end CallSite

end AbiBridge
