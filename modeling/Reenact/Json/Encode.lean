import Reenact.Capture.Config
import Reenact.Eval.Bench
import Reenact.Snapshot.Document

/-!
JSON documents of classes, code, live values and configurations. Literals are written without loss:
floating point numbers as the digits of their bit patterns.
-/

namespace Reenact

namespace Shape

def name : Shape → String
  | object => "Object"
  | array => "Array"
  | list => "List"
  | set => "Set"
  | map => "Map"

end Shape

namespace Document

def texts (l : List String) : Json := .array (l.map .str)

def optional {α : Type} (f : α → Json) : Option α → Json
  | some a => f a
  | none => .null

def classDef (d : ClassDef) : Json :=
  let kind :=
    match d.kind with
    | .concrete => "class"
    | .interface => "interface"
    | .enumeration => "enum"
  let field (f : FieldDef) : Json :=
    .object [("name", .str f.name), ("type", type f.type), ("is_static", .bool f.isStatic)]
  .object [("name", .str d.name), ("kind", .str kind),
    ("visibility", .str (if d.hidden then "hidden" else "public")),
    ("superclass", optional .str d.superclass), ("interfaces", texts d.interfaces),
    ("fields", .array (d.fields.map field)), ("constants", texts d.constants)]

/-- The hexadecimal digits of a number, with zeros in front up to a width. -/
def hex (width n : Nat) : String :=
  let digits := Nat.toDigits 16 n
  String.ofList (List.replicate (width - digits.length) '0' ++ digits)

def taggedLiteral (l : Literal) : Json :=
  let value : Json :=
    match l with
    | .long n => .str (toString n.toInt)
    | .float bits => .str (hex 8 bits.toNat)
    | .double bits => .str (hex 16 bits.toNat)
    | l => literalValue l
  .object [(l.kindName, value)]

mutual

def expr : Expr → Json
  | .null => .null
  | .loc name => .str name
  | .literal l => .object [("lit", taggedLiteral l)]
  | .constant t name => .object [("enum", texts [t.text, name])]
  | .new t args => .object [("new", .array [type t, .array (exprs args)])]
  | .newArray t elements => .object [("arr", .array [type t, .array (exprs elements)])]
  | .call target method ts args =>
    .object [("call",
      .array [expr target, .str method, .array (ts.map type), .array (exprs args)])]
  | .function owner name ts args =>
    .object [("fn",
      .array [optional type owner, .str name, .array (ts.map type), .array (exprs args)])]
  | .field target name => .object [("field", .array [expr target, .str name])]
  | .staticField t name => .object [("static", texts [t.text, name])]
  | .index target i => .object [("index", .array [expr target, .nat i])]
  | .cast e t => .object [("cast", .array [expr e, type t])]
  | .closure body => .object [("closure", expr body)]

def exprs : List Expr → List Json
  | [] => []
  | e :: es => expr e :: exprs es

end

def stmt : Stmt → Json
  | .bind name t e => .object [("let", .array [.str name, type t, expr e])]
  | .assign target e => .object [("assign", .array [expr target, expr e])]
  | .expr e => .object [("expr", expr e)]
  | .comment text => .object [("comment", .str text)]

/-- A value inside a document of objects, which are mentioned by their places in a list. -/
def reference (ids : List ObjectId) : Value → Json
  | .null => .null
  | .scalar l => taggedLiteral l
  | .constant t name => .object [("enum", texts [t, name])]
  | .object id => .object [("#", .nat (ids.idxOf id))]

def body (ref : Value → Json) : Body → String × Json
  | .fields es => ("fields", .array (es.map fun (name, v) => .array [.str name, ref v]))
  | .array items => ("array", .array (items.map ref))
  | .list items => ("list", .array (items.map ref))
  | .set items => ("set", .array (items.map ref))
  | .map es => ("map", .array (es.map fun (k, v) => .array [ref k, ref v]))

def value (h : Heap) (v : Value) : Json :=
  let ids := h.reachable v
  match v with
  | .object _ =>
    .object [("v", reference ids v),
      ("heap", .array ((ids.filterMap h.get?).map fun o =>
        .object [("class", type o.type), body (reference ids) o.body]))]
  | v => reference ids v

mutual

def runValue (h : Heap) : RunValue → Json
  | .live v => .object [("live", value h v)]
  | .matcher m => .object [("matcher", .str (m.describe h))]
  | .builder _ => .str "builder"
  | .entry _ _ => .str "entry"
  | .seq items => .object [("seq", .array (runValues h items))]
  | .closure e => .object [("closure", expr e)]
  | .unit => .str "unit"

def runValues (h : Heap) : List RunValue → List Json
  | [] => []
  | v :: rest => runValue h v :: runValues h rest

end

/-- What is looked at when a run is over, and the calls that it recorded. -/
def bench (types : ClassTable) (b : Bench) (m : Machine) : Json :=
  let call (c : RecordedCall) : Json :=
    .array [.str c.owner, .str c.member, .array (c.args.map (value m.heap))]
  .object [
    ("locals", .array (b.shownLocals.map fun name => optional (value m.heap) (m.local? name))),
    ("statics", .array (b.shownStatics.map fun (owner, name) =>
      value m.heap (m.static types owner name))),
    ("calls", .array (m.calls.map call))]

def slots {ν : Type} (node : ν → Json) (s : Slots ν) : Json :=
  let entry : Slot × ν → Json := fun (slot, v) =>
    match slot with
    | .field owner name t => .array [.str name, node v, .str owner, type t]
    | slot => .array [.str slot.text, node v]
  .object [("shape", .str s.shape.name), ("len", .nat s.size), ("empty", .bool s.entries.isEmpty),
    ("entries", .array (s.entries.map entry))]

def configMembers (c : CaptureConfig) : List (String × Json) :=
  [("timeout_ms", .nat c.timeout), ("reflective_fallback", .bool c.fallback),
    ("serializers", texts c.serializers), ("setup_adaptors", texts c.setupAdaptors),
    ("matcher_adaptors", texts c.matcherAdaptors),
    ("globals", .array (c.globals.map globalRef))]

end Document

end Reenact
