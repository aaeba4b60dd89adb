import AbiBridge.Semantic.Module

/-! # JSON form of semantic modules

Each declaration is an object of its fields, in the order they are declared. A decoder fills in what a
missing field defaults to; `toJson` writes every field. `listed` says whether the fields of a type's case
may be listed by position, as a text may do. -/

namespace AbiBridge.Semantic

namespace Literal

def toJson : Literal → Json
  | .none => .str "none"
  | .bool b => .tagged "bool" (.bool b)
  | .int n => .tagged "int" (.int n)
  | .float x => .tagged "float" (.float x)

def decode : Decoder Literal := fun room j =>
  match Json.case? room j with
  | some ⟨"none", _, .none⟩ => some .none
  | some ⟨"none", _, some .null⟩ => some .none
  | some ⟨"bool", room, some body⟩ => (Decoder.bool room body).map .bool
  | some ⟨"int", room, some body⟩ => (Decoder.int64 room body).map .int
  | some ⟨"float", room, some body⟩ => (Decoder.float room body).map .float
  | _ => .none

end Literal

namespace Argument

def toJson (a : Argument) : Json :=
  .obj [("name", .str a.name), ("ty", a.type.toJson), ("optional", .bool a.optional),
    ("bound", .bool a.bound), ("default", .ofOption Literal.toJson a.default),
    ("kwonly", .bool a.keywordOnly), ("contiguous", .bool a.contiguous)]

def fieldNames : List String :=
  ["name", "ty", "optional", "bound", "default", "kwonly", "contiguous"]

def decode (listed : Bool) : Decoder Argument := fun room j => do
  let f ← Json.fields? fieldNames false room j
  let name ← f.required "name" .string
  let type ← f.required "ty" (ValueType.decode listed)
  let optional ← f.defaulted "optional" false .bool
  let bound ← f.defaulted "bound" false .bool
  let default ← f.defaulted "default" Option.none (.nullable Literal.decode)
  let keywordOnly ← f.defaulted "kwonly" false .bool
  let contiguous ← f.defaulted "contiguous" false .bool
  return { name, type, optional, bound, default, keywordOnly, contiguous }

end Argument

namespace Result

def toJson (r : Result) : Json :=
  .obj [("name", .str r.name), ("ty", r.type.toJson), ("is_argument", .bool r.isArgument),
    ("is_alias", .bool r.isAlias)]

def fieldNames : List String := ["name", "ty", "is_argument", "is_alias"]

def decode (listed : Bool) : Decoder Result := fun room j => do
  let f ← Json.fields? fieldNames false room j
  let name ← f.required "name" .string
  let type ← f.required "ty" (ValueType.decode listed)
  let isArgument ← f.defaulted "is_argument" false .bool
  let isAlias ← f.defaulted "is_alias" false .bool
  return { name, type, isArgument, isAlias }

end Result

namespace FunctionKind

def tag : FunctionKind → String
  | .host => "host"
  | .kernel => "kernel"
  | .device => "device"

def toJson (k : FunctionKind) : Json := .str k.tag

def decode : Decoder FunctionKind := fun room j =>
  match Json.caseName? room j with
  | some "host" => some .host
  | some "kernel" => some .kernel
  | some "device" => some .device
  | _ => none

end FunctionKind

namespace MethodRole

def tag : MethodRole → String
  | .plain => "plain"
  | .property => "property"
  | .destructor => "destructor"

def toJson (r : MethodRole) : Json := .str r.tag

def decode : Decoder MethodRole := fun room j =>
  match Json.caseName? room j with
  | some "plain" => some .plain
  | some "property" => some .property
  | some "destructor" => some .destructor
  | _ => none

end MethodRole

namespace Function

def toJson (f : Function) : Json :=
  .obj [("name", .str f.name), ("arguments", .list Argument.toJson f.arguments),
    ("results", .list Result.toJson f.results), ("is_private", .bool f.isPrivate),
    ("is_inline", .bool f.isInline), ("kind", f.kind.toJson), ("role", f.role.toJson),
    ("docstring", .ofOption .str f.docstring), ("span", f.span.toJson)]

def fieldNames : List String :=
  ["name", "arguments", "results", "is_private", "is_inline", "kind", "role", "docstring", "span"]

def decode (listed : Bool) : Decoder Function := fun room j => do
  let f ← Json.fields? fieldNames false room j
  let name ← f.required "name" .string
  let arguments ← f.required "arguments" (.list (Argument.decode listed))
  let results ← f.defaulted "results" [] (.list (Result.decode listed))
  let isPrivate ← f.defaulted "is_private" false .bool
  let isInline ← f.defaulted "is_inline" false .bool
  let kind ← f.defaulted "kind" FunctionKind.host FunctionKind.decode
  let role ← f.defaulted "role" MethodRole.plain MethodRole.decode
  let docstring ← f.defaulted "docstring" none (.nullable .string)
  let span ← f.defaulted "span" {} Span.decode
  return { name, arguments, results, isPrivate, isInline, kind, role, docstring, span }

end Function

namespace Interface

def toJson (i : Interface) : Json :=
  .obj [("name", .str i.name), ("functions", .list .str i.functions),
    ("is_inline", .bool i.isInline)]

def fieldNames : List String := ["name", "functions", "is_inline"]

def decode : Decoder Interface := fun room j => do
  let f ← Json.fields? fieldNames false room j
  let name ← f.required "name" .string
  let functions ← f.required "functions" (.list .string)
  let isInline ← f.defaulted "is_inline" false .bool
  return { name, functions, isInline }

end Interface

namespace Attribute

def toJson (a : Attribute) : Json :=
  .obj [("name", .str a.name), ("ty", a.type.toJson), ("is_private", .bool a.isPrivate),
    ("is_alias", .bool a.isAlias)]

def fieldNames : List String := ["name", "ty", "is_private", "is_alias"]

def decode (listed : Bool) : Decoder Attribute := fun room j => do
  let f ← Json.fields? fieldNames false room j
  let name ← f.required "name" .string
  let type ← f.required "ty" (ValueType.decode listed)
  let isPrivate ← f.defaulted "is_private" false .bool
  let isAlias ← f.defaulted "is_alias" false .bool
  return { name, type, isPrivate, isAlias }

end Attribute

namespace Class

def toJson (c : Class) : Json :=
  .obj [("name", .str c.name), ("methods", .list Function.toJson c.methods),
    ("interfaces", .list Interface.toJson c.interfaces),
    ("attributes", .list Attribute.toJson c.attributes),
    ("docstring", .ofOption .str c.docstring), ("span", c.span.toJson)]

def fieldNames : List String :=
  ["name", "methods", "interfaces", "attributes", "docstring", "span"]

def decode (listed : Bool) : Decoder Class := fun room j => do
  let f ← Json.fields? fieldNames false room j
  let name ← f.required "name" .string
  let methods ← f.defaulted "methods" [] (.list (Function.decode listed))
  let interfaces ← f.defaulted "interfaces" [] (.list Interface.decode)
  let attributes ← f.defaulted "attributes" [] (.list (Attribute.decode listed))
  let docstring ← f.defaulted "docstring" none (.nullable .string)
  let span ← f.defaulted "span" {} Span.decode
  return { name, methods, interfaces, attributes, docstring, span }

end Class

namespace Variable

def toJson (v : Variable) : Json :=
  .obj [("name", .str v.name), ("ty", v.type.toJson), ("is_private", .bool v.isPrivate),
    ("span", v.span.toJson)]

def fieldNames : List String := ["name", "ty", "is_private", "span"]

def decode (listed : Bool) : Decoder Variable := fun room j => do
  let f ← Json.fields? fieldNames false room j
  let name ← f.required "name" .string
  let type ← f.required "ty" (ValueType.decode listed)
  let isPrivate ← f.defaulted "is_private" false .bool
  let span ← f.defaulted "span" {} Span.decode
  return { name, type, isPrivate, span }

end Variable

namespace Module

def toJson (m : Module) : Json :=
  .obj [("name", .str m.name), ("variables", .list Variable.toJson m.globals),
    ("functions", .list Function.toJson m.functions),
    ("interfaces", .list Interface.toJson m.interfaces),
    ("classes", .list Class.toJson m.classes),
    ("init_func", .ofOption .str m.initFunction), ("free_func", .ofOption .str m.freeFunction),
    ("span", m.span.toJson)]

def fieldNames : List String :=
  ["name", "variables", "functions", "interfaces", "classes", "init_func", "free_func", "span"]

def decode (listed : Bool) : Decoder Module := fun room j => do
  let f ← Json.fields? fieldNames false room j
  let name ← f.required "name" .string
  let globals ← f.defaulted "variables" [] (.list (Variable.decode listed))
  let functions ← f.defaulted "functions" [] (.list (Function.decode listed))
  let interfaces ← f.defaulted "interfaces" [] (.list Interface.decode)
  let classes ← f.defaulted "classes" [] (.list (Class.decode listed))
  let initFunction ← f.defaulted "init_func" none (.nullable .string)
  let freeFunction ← f.defaulted "free_func" none (.nullable .string)
  let span ← f.defaulted "span" {} Span.decode
  return { name, globals, functions, interfaces, classes, initFunction, freeFunction, span }

end Module

end AbiBridge.Semantic
