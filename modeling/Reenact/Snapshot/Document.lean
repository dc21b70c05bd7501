import Reenact.Json.Basic
import Reenact.Snapshot.Basic

/-!
The JSON document of a snapshot. Types are written as their text, nodes in the order of their ids.
-/

namespace Reenact

namespace Number

/-- Positional up to sixteen digits before the point and down to `1e-5`. Other exponents have a sign,
and of two equally near decimals the even one is taken. -/
def doubleDocumentStyle : DecimalStyle := ⟨1, some (-5, 16), "+", .toEven⟩

/-- As for doubles, but positional up to thirteen digits before the point and down to `1e-6`. -/
def singleDocumentStyle : DecimalStyle := ⟨1, some (-6, 13), "+", .toEven⟩

end Number

def Literal.kindName (l : Literal) : String :=
  match l.kind? with
  | some kind => kind.name
  | none => "str"

namespace Document

/-- A literal's bare value. Numbers that are not finite become null. -/
def literalValue : Literal → Json
  | .bool b => .bool b
  | .char c => .str (String.singleton c)
  | .byte n => .int n.toInt
  | .short n => .int n.toInt
  | .int n => .int n.toInt
  | .long n => .int n.toInt
  | .float bits =>
    .number (Number.Format.single.text Number.singleDocumentStyle "null" "null" "null" bits.toNat)
  | .double bits =>
    .number (Number.Format.double.text Number.doubleDocumentStyle "null" "null" "null" bits.toNat)
  | .str s => .str s

def literal (l : Literal) : Json :=
  .object [("kind", .str l.kindName), ("value", literalValue l)]

def type (t : Ty) : Json := .str t.text

def ids (l : List NodeId) : Json := .array (l.map .nat)

def optionalId : Option NodeId → Json
  | some id => .nat id
  | none => .null

def nodeField (f : NodeField) : Json :=
  .object [("owner", .str f.owner), ("name", .str f.name), ("type", type f.type),
    ("value", .nat f.value)]

def content : Content → String × (String × Json)
  | .array elements => ("array", ("elements", ids elements))
  | .list elements => ("list", ("elements", ids elements))
  | .set elements => ("set", ("elements", ids elements))
  | .map entries => ("map", ("entries", .array (entries.map fun (k, v) => ids [k, v])))
  | .object fields => ("object", ("fields", .array (fields.map nodeField)))

def node : Node → Json
  | .atom (.literal t value) =>
    .object [("variant", .str "literal"), ("type", type t), ("value", literal value)]
  | .atom (.null t) => .object [("variant", .str "null"), ("type", type t)]
  | .constant declared runtime name =>
    .object [("variant", .str "enum"), ("declared", type declared), ("runtime", type runtime),
      ("name", .str name)]
  | .composite declared runtime c =>
    let (variant, parts) := content c
    .object [("variant", .str variant), ("declared", type declared), ("runtime", type runtime),
      parts]

def signature (s : Signature) : Json :=
  .object [("declaring", type s.declaring), ("method", .str s.method),
    ("param_types", .array (s.params.map type)), ("result_type", type s.result)]

def globalRef (g : GlobalRef) : Json :=
  .object [("owner", .str g.owner), ("name", .str g.name), ("type", type g.type)]

def phase (p : PhaseState) : Json :=
  .object [("this", optionalId p.receiver), ("args", ids p.args),
    ("globals", .array (p.globals.map fun g =>
      .object [("global", globalRef g.global), ("value", .nat g.value)]))]

def outcome : Outcome → Json
  | .pending => .str "Pending"
  | .returned result => .object [("Returned", optionalId result)]
  | .threw error => .object [("Threw", .nat error)]

def call (r : CallRecord) : Json :=
  .object [("owner", type r.owner), ("member", .str r.member),
    ("param_types", .array (r.params.map type)), ("args", ids r.args),
    ("result", optionalId r.result)]

def snapshot (id : String) (s : Snapshot) : Json :=
  .object [("id", .str id), ("signature", signature s.signature),
    ("graph", .object [("nodes", .array (s.graph.nodes.toList.map node))]),
    ("setup", phase s.setup), ("expect", phase s.expect), ("outcome", outcome s.outcome),
    ("inputs", .array (s.inputs.map call)), ("outputs", .array (s.outputs.map call)),
    ("valid", .bool s.valid)]

end Document

end Reenact
