import AbiBridge.Text.Quoted
import AbiBridge.Wrapper.Expr

/-! # Expressions in messages

The structure of an expression spelled out: each node by its name, data in parentheses or, where it has
names, in braces. -/

namespace AbiBridge.Wrapper

/-- The fields of a node in braces. -/
def outlineRecord (name : String) (fields : List (String × String)) : String :=
  name ++ " \x7b " ++ ", ".intercalate (fields.map fun f => f.1 ++ ": " ++ f.2) ++ " \x7d"

def outlineOption : Option String → String
  | none => "None"
  | some s => "Some(" ++ s ++ ")"

def outlineBool (b : Bool) : String := if b then "true" else "false"

mutual

def Expr.outline : Expr → String
  | .var name => "Var(" ++ Text.quoted name ++ ")"
  | .int n => "Int(" ++ n.repr ++ ")"
  | .bool b => "Bool(" ++ outlineBool b ++ ")"
  | .null => "Null"
  | .isNotNull e => "IsNotNull(" ++ e.outline ++ ")"
  | .add a b => "Add(" ++ a.outline ++ ", " ++ b.outline ++ ")"
  | .mul a b => "Mul(" ++ a.outline ++ ", " ++ b.outline ++ ")"
  | .shape array dim => outlineRecord "Shape" [("var", Text.quoted array), ("dim", Nat.repr dim)]
  | .index base subscripts =>
    outlineRecord "Index"
      [("base", Text.quoted base), ("indices", "[" ++ outlineSubscripts subscripts ++ "]")]
  | .field base name => outlineRecord "Attribute" [("base", base.outline), ("name", Text.quoted name)]
  | .call function arguments =>
    outlineRecord "Call"
      [("function", Text.quoted function), ("args", "[" ++ outlineActuals arguments ++ "]")]
  | .tuple items => "Tuple([" ++ outlineExprs items ++ "])"

def Subscript.outline : Subscript → String
  | .slice start stop step =>
    outlineRecord "Slice"
      [("start", start.outline),
        ("stop", match stop with
          | none => outlineOption none
          | some e => outlineOption (some e.outline)),
        ("step", step.outline)]
  | .element position => "Element(" ++ position.outline ++ ")"

def Actual.outline : Actual → String
  | .mk keyword value =>
    outlineRecord "CallArgument"
      [("keyword", outlineOption (keyword.map Text.quoted)), ("value", value.outline)]

def outlineExprs : List Expr → String
  | [] => ""
  | [e] => e.outline
  | e :: rest => e.outline ++ ", " ++ outlineExprs rest

def outlineSubscripts : List Subscript → String
  | [] => ""
  | [s] => s.outline
  | s :: rest => s.outline ++ ", " ++ outlineSubscripts rest

def outlineActuals : List Actual → String
  | [] => ""
  | [a] => a.outline
  | a :: rest => a.outline ++ ", " ++ outlineActuals rest

end

end AbiBridge.Wrapper
