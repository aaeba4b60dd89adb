import AbiBridge.Semantic.Codec
import AbiBridge.Wrapper.Module

/-! # JSON form of wrapper modules

What is written here is what a fingerprint is taken of, so the order of the members is fixed. Locals,
expressions, statements and the two ways of crossing the boundary can also be read. -/

namespace AbiBridge.Wrapper

namespace LocalType

def toJson : LocalType → Json
  | .pointer => .str "pointer"
  | .value type aliased => .tagged "value" (.obj [("ty", type.toJson), ("alias", .bool aliased)])

def decode : Decoder LocalType := fun room j =>
  match Json.case? room j with
  | some ⟨"pointer", _, none⟩ => some .pointer
  | some ⟨"pointer", _, some .null⟩ => some .pointer
  | some ⟨"value", room, some body⟩ => do
    let f ← Json.fields? ["ty", "alias"] false room body
    let type ← f.required "ty" (ValueType.decode false)
    let aliased ← f.required "alias" .bool
    return .value type aliased
  | _ => none

end LocalType

namespace Local

def toJson (l : Local) : Json := .obj [("name", .str l.name), ("ty", l.type.toJson)]

def decode : Decoder Local := fun room j => do
  let f ← Json.fields? ["name", "ty"] false room j
  let name ← f.required "name" .string
  let type ← f.required "ty" LocalType.decode
  return ⟨name, type⟩

end Local

/-! ### Expressions -/

mutual

def Expr.toJson : Expr → Json
  | .var name => .tagged "var" (.str name)
  | .int n => .tagged "int" (.int n)
  | .bool b => .tagged "bool" (.bool b)
  | .null => .str "null"
  | .isNotNull e => .tagged "is_not_null" e.toJson
  | .add a b => .tagged "add" (.arr [a.toJson, b.toJson])
  | .mul a b => .tagged "mul" (.arr [a.toJson, b.toJson])
  | .shape array dim => .tagged "shape" (.obj [("var", .str array), ("dim", .nat dim)])
  | .index base subscripts =>
    .tagged "index" (.obj [("base", .str base), ("indices", .arr (subscriptsToJson subscripts))])
  | .field base name =>
    .tagged "attribute" (.obj [("base", base.toJson), ("name", .str name)])
  | .call function arguments =>
    .tagged "call" (.obj [("function", .str function), ("args", .arr (actualsToJson arguments))])
  | .tuple items => .tagged "tuple" (.arr (exprsToJson items))

def Subscript.toJson : Subscript → Json
  | .slice start stop step =>
    .tagged "slice"
      (.obj [("start", start.toJson),
        ("stop", match stop with
          | none => .null
          | some e => e.toJson),
        ("step", step.toJson)])
  | .element position => .tagged "element" position.toJson

def Actual.toJson : Actual → Json
  | .mk keyword value =>
    .obj [("keyword", .ofOption .str keyword), ("value", value.toJson)]

def exprsToJson : List Expr → List Json
  | [] => []
  | e :: rest => e.toJson :: exprsToJson rest

def subscriptsToJson : List Subscript → List Json
  | [] => []
  | s :: rest => s.toJson :: subscriptsToJson rest

def actualsToJson : List Actual → List Json
  | [] => []
  | a :: rest => a.toJson :: actualsToJson rest

end

/-- The two operands of an arithmetic expression. -/
def decodePair {α : Type} (d : Decoder α) : Decoder (α × α) := fun room j =>
  match Decoder.list d room j with
  | some [a, b] => some (a, b)
  | _ => none

mutual

/-- Reads an expression. Every case with data holds at least one bracket, so the room bounds the
recursion. -/
def Expr.decode : Decoder Expr
  | 0, j =>
    match Json.caseName? 0 j with
    | some "null" => some .null
    | _ => none
  | room + 1, j =>
    match Json.case? (room + 1) j with
    | none => none
    | some ⟨tag, _, none⟩ => if tag = "null" then some .null else none
    | some ⟨tag, _, some body⟩ =>
      match tag with
      | "var" => (Decoder.string room body).map .var
      | "int" => (Decoder.int64 room body).map .int
      | "bool" => (Decoder.bool room body).map .bool
      | "null" =>
        match body with
        | .null => some .null
        | _ => none
      | "is_not_null" => (Expr.decode room body).map .isNotNull
      | "add" => (decodePair (fun _ => Expr.decode (room - 1)) room body).map fun p => .add p.1 p.2
      | "mul" => (decodePair (fun _ => Expr.decode (room - 1)) room body).map fun p => .mul p.1 p.2
      | "shape" =>
        match Json.fields? ["var", "dim"] false room body with
        | none => none
        | some f =>
          match f.required "var" .string, f.required "dim" (.natBits 64) with
          | some array, some dim => some (.shape array dim)
          | _, _ => none
      | "index" =>
        match Json.fields? ["base", "indices"] false room body with
        | none => none
        | some f =>
          match f.required "base" .string,
            f.required "indices" (.list fun _ => Subscript.decode (room - 2)) with
          | some base, some subscripts => some (.index base subscripts)
          | _, _ => none
      | "attribute" =>
        match Json.fields? ["base", "name"] false room body with
        | none => none
        | some f =>
          match f.required "base" (fun _ => Expr.decode (room - 1)), f.required "name" .string with
          | some base, some name => some (.field base name)
          | _, _ => none
      | "call" =>
        match Json.fields? ["function", "args"] false room body with
        | none => none
        | some f =>
          match f.required "function" .string,
            f.required "args" (.list fun _ => Actual.decode (room - 2)) with
          | some function, some arguments => some (.call function arguments)
          | _, _ => none
      | "tuple" => (Decoder.list (fun _ => Expr.decode (room - 1)) room body).map .tuple
      | _ => none
termination_by room => room

def Subscript.decode : Decoder Subscript
  | 0, _ => none
  | room + 1, j =>
    match Json.case? (room + 1) j with
    | some ⟨tag, _, some body⟩ =>
      match tag with
      | "slice" =>
        match Json.fields? ["start", "stop", "step"] false room body with
        | none => none
        | some f =>
          match f.required "start" (fun _ => Expr.decode (room - 1)),
            f.optional "stop" (fun _ => Expr.decode (room - 1)),
            f.required "step" (fun _ => Expr.decode (room - 1)) with
          | some start, some stop, some step => some (.slice start stop step)
          | _, _, _ => none
      | "element" => (Expr.decode room body).map .element
      | _ => none
    | _ => none
termination_by room => room

def Actual.decode : Decoder Actual
  | 0, _ => none
  | room + 1, j =>
    match Json.fields? ["keyword", "value"] false (room + 1) j with
    | none => none
    | some f =>
      match f.optional "keyword" .string, f.required "value" (fun _ => Expr.decode room) with
      | some keyword, some value => some (.mk keyword value)
      | _, _ => none
termination_by room => room

end

/-! ### Statements -/

mutual

def Stmt.toJson : Stmt → Json
  | .reinterpret ptr target sizes =>
    .tagged "c_f_pointer"
      (.obj [("ptr", .str ptr), ("target", .str target), ("sizes", .list Expr.toJson sizes)])
  | .branch condition body orelse =>
    .tagged "if"
      (.obj [("condition", condition.toJson), ("body", .arr (blockToJson body)),
        ("orelse", .arr (blockToJson orelse))])
  | .assign lhs rhs => .tagged "assign" (.obj [("lhs", lhs.toJson), ("rhs", rhs.toJson)])
  | .aliasAssign lhs rhs => .tagged "alias_assign" (.obj [("lhs", lhs.toJson), ("rhs", rhs.toJson)])
  | .allocate var shape =>
    .tagged "allocate" (.obj [("var", .str var), ("shape", .list Expr.toJson shape)])
  | .forEach element iterable counter body =>
    .tagged "for"
      (.obj [("element", .str element), ("iterable", .str iterable),
        ("counter", .ofOption .str counter), ("body", .arr (blockToJson body))])
  | .addressOf source ptr => .tagged "c_loc" (.obj [("source", .str source), ("ptr", .str ptr)])
  | .deallocate var => .tagged "deallocate" (.obj [("var", .str var)])
  | .eval e => .tagged "expr" e.toJson

def blockToJson : List Stmt → List Json
  | [] => []
  | s :: rest => s.toJson :: blockToJson rest

end

/-- Reads a statement. -/
def Stmt.decode : Decoder Stmt
  | 0, _ => none
  | room + 1, j =>
    match Json.case? (room + 1) j with
    | some ⟨tag, _, some body⟩ =>
      match tag with
      | "c_f_pointer" => do
        let f ← Json.fields? ["ptr", "target", "sizes"] false room body
        let ptr ← f.required "ptr" .string
        let target ← f.required "target" .string
        let sizes ← f.required "sizes" (.list Expr.decode)
        return .reinterpret ptr target sizes
      | "if" => do
        let f ← Json.fields? ["condition", "body", "orelse"] false room body
        let condition ← f.required "condition" Expr.decode
        let body ← f.required "body" (.list fun _ => Stmt.decode (room - 2))
        let orelse ← f.required "orelse" (.list fun _ => Stmt.decode (room - 2))
        return .branch condition body orelse
      | "assign" => do
        let f ← Json.fields? ["lhs", "rhs"] false room body
        let lhs ← f.required "lhs" Expr.decode
        let rhs ← f.required "rhs" Expr.decode
        return .assign lhs rhs
      | "alias_assign" => do
        let f ← Json.fields? ["lhs", "rhs"] false room body
        let lhs ← f.required "lhs" Expr.decode
        let rhs ← f.required "rhs" Expr.decode
        return .aliasAssign lhs rhs
      | "allocate" => do
        let f ← Json.fields? ["var", "shape"] false room body
        let var ← f.required "var" .string
        let shape ← f.required "shape" (.list Expr.decode)
        return .allocate var shape
      | "for" => do
        let f ← Json.fields? ["element", "iterable", "counter", "body"] false room body
        let element ← f.required "element" .string
        let iterable ← f.required "iterable" .string
        let counter ← f.optional "counter" .string
        let body ← f.required "body" (.list fun _ => Stmt.decode (room - 2))
        return .forEach element iterable counter body
      | "c_loc" => do
        let f ← Json.fields? ["source", "ptr"] false room body
        let source ← f.required "source" .string
        let ptr ← f.required "ptr" .string
        return .addressOf source ptr
      | "deallocate" => do
        let f ← Json.fields? ["var"] false room body
        let var ← f.required "var" .string
        return .deallocate var
      | "expr" => (Expr.decode room body).map .eval
      | _ => none
    | _ => none
termination_by room => room

/-! ### The boundary -/

namespace AbiType

def toJson : AbiType → Json
  | .scalar kind => .tagged "scalar" kind.toJson
  | .pointer => .str "pointer"

end AbiType

def Direction.toJson : Direction → Json
  | .input => .str "in"
  | .output => .str "out"

def Parameter.toJson (p : Parameter) : Json :=
  .obj [("name", .str p.name), ("ty", p.type.toJson), ("direction", p.direction.toJson)]

def ReturnSlot.toJson : ReturnSlot → Json
  | .void => .str "void"
  | .direct name type => .tagged "direct" (.obj [("name", .str name), ("ty", type.toJson)])
  | .status => .str "status"

def Signature.toJson (s : Signature) : Json :=
  .obj [("name", .str s.name), ("params", .list Parameter.toJson s.params),
    ("returns", s.returns.toJson)]

namespace ArgumentAbi

def toJson : ArgumentAbi → Json
  | .direct => .str "direct"
  | .pointer ptr shape strides =>
    .tagged "pointer"
      (.obj [("ptr", .str ptr), ("shape", .list .str shape), ("strides", .list .str strides)])

def decode : Decoder ArgumentAbi := fun room j =>
  match Json.case? room j with
  | some ⟨"direct", _, none⟩ => some .direct
  | some ⟨"direct", _, some .null⟩ => some .direct
  | some ⟨"pointer", room, some body⟩ => do
    let f ← Json.fields? ["ptr", "shape", "strides"] false room body
    let ptr ← f.required "ptr" .string
    let shape ← f.required "shape" (.list .string)
    let strides ← f.required "strides" (.list .string)
    return .pointer ptr shape strides
  | _ => none

end ArgumentAbi

namespace ResultAbi

def toJson : ResultAbi → Json
  | .direct => .str "direct"
  | .pointer ptr shape =>
    .tagged "pointer" (.obj [("ptr", .str ptr), ("shape", .list .str shape)])

def decode : Decoder ResultAbi := fun room j =>
  match Json.case? room j with
  | some ⟨"direct", _, none⟩ => some .direct
  | some ⟨"direct", _, some .null⟩ => some .direct
  | some ⟨"pointer", room, some body⟩ => do
    let f ← Json.fields? ["ptr", "shape"] false room body
    let ptr ← f.required "ptr" .string
    let shape ← f.required "shape" (.list .string)
    return .pointer ptr shape
  | _ => none

end ResultAbi

def Argument.toJson (a : Argument) : Json :=
  .obj [("original", a.declared.toJson), ("local", a.native.toJson), ("abi", a.abi.toJson),
    ("call_value", a.callValue.toJson)]

def Result.toJson (r : Result) : Json :=
  .obj [("original", r.declared.toJson), ("local", r.native.toJson), ("abi", r.abi.toJson)]

/-! ### Functions and modules -/

/-- A docstring is written only where there is one. -/
def docstringMember : Option String → List (String × Json)
  | none => []
  | some s => [("docstring", .str s)]

def MemberKey.toJson (k : MemberKey) : Json :=
  .obj [("class", .str k.className), ("member", .str k.member)]

def Origin.toJson : Origin → Json
  | .function name => .tagged "function" (.str name)
  | .method key => .tagged "method" key.toJson
  | .getter key => .tagged "getter" key.toJson
  | .setter key => .tagged "setter" key.toJson
  | .allocator className => .tagged "allocator" (.str className)
  | .variableAccessor name => .tagged "variable_accessor" (.str name)

def Function.toJson (f : Function) : Json :=
  .obj ([("name", .str f.name), ("origin", f.origin.toJson),
    ("arguments", .list Argument.toJson f.arguments), ("results", .list Result.toJson f.results),
    ("body", .arr (blockToJson f.body)), ("locals", .list Local.toJson f.locals),
    ("scope", .nat f.scope)] ++ docstringMember f.docstring)

def Variable.toJson : Variable → Json
  | .scalar name kind => .tagged "scalar" (.obj [("name", .str name), ("kind", kind.toJson)])
  | .array name type accessor =>
    .tagged "array"
      (.obj [("name", .str name), ("ty", type.toJson), ("accessor", accessor.toJson)])

def Interface.toJson (i : Interface) : Json :=
  .obj [("name", .str i.name), ("functions", .list .str i.functions)]

def Property.toJson (p : Property) : Json :=
  .obj ([("key", p.key.toJson), ("getter", p.getter.toJson),
    ("setter", .ofOption Function.toJson p.setter)] ++ docstringMember p.docstring)

def Class.toJson (c : Class) : Json :=
  .obj ([("name", .str c.name), ("allocator", c.allocator.toJson),
    ("methods", .list Function.toJson c.methods),
    ("interfaces", .list Interface.toJson c.interfaces),
    ("properties", .list Property.toJson c.properties)] ++ docstringMember c.docstring)

def Module.toJson (m : Module) : Json :=
  .obj [("name", .str m.name), ("original", .str m.wraps), ("target", m.target.toJson),
    ("variables", .list Variable.toJson m.globals),
    ("functions", .list Function.toJson m.functions),
    ("init_func", .ofOption .str m.initFunction), ("free_func", .ofOption .str m.freeFunction),
    ("interfaces", .list Interface.toJson m.interfaces),
    ("classes", .list Class.toJson m.classes),
    ("removed_functions", .list .str m.removedFunctions)]

end AbiBridge.Wrapper
