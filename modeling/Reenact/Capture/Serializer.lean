import Reenact.Capture.Error
import Reenact.Slots

/-!
Serialization of live values into a value graph. An object becomes a node before its parts do, so
that references back to it end there; within one serialization an object becomes one node only.
-/

namespace Reenact

inductive SerializerGuard where
  | shape (shape : Shape)
  | runtimeClass (name : String)
  | anything
  deriving DecidableEq

inductive SerializerRule where
  | array | list | set | map | fields | null
  | refuse
  /-- Breaks off the whole population. -/
  | crash
  /-- Fails after a while. -/
  | stall
  deriving DecidableEq

def SerializerRule.ofName? : String → Option SerializerRule
  | "array" => some .array
  | "list" => some .list
  | "set" => some .set
  | "map" => some .map
  | "generic" => some .fields
  | "null" => some .null
  | "fail" => some .refuse
  | "panic" => some .crash
  | "slow" => some .stall
  | _ => none

structure SerializerBehaviour where
  guard : SerializerGuard
  rule : SerializerRule

/-- The behaviour written as a class name, `*` standing for all, and the name of a rule. -/
def SerializerBehaviour.ofNames (className rule : String) : SerializerBehaviour :=
  ⟨if className = "*" then .anything else .runtimeClass className,
    (SerializerRule.ofName? rule).getD .fields⟩

abbrev SerializerRegistry := Registry SerializerBehaviour

def standardSerializers : List (Adaptor SerializerBehaviour) :=
  [⟨"array", none, ⟨.shape .array, .array⟩⟩,
    ⟨"list", none, ⟨.shape .list, .list⟩⟩,
    ⟨"set", none, ⟨.shape .set, .set⟩⟩,
    ⟨"map", none, ⟨.shape .map, .map⟩⟩]

namespace Serialization

structure Context where
  heap : Heap
  types : ClassTable
  serializers : SerializerRegistry

structure State where
  graph : Graph
  interner : Interner
  identities : List (ObjectId × NodeId)
  /-- The time it took so far, in milliseconds. -/
  elapsed : Nat

def State.start (graph : Graph) (interner : Interner) : State := ⟨graph, interner, [], 0⟩

/-- Why a serialization comes to no node. -/
inductive Stop where
  | failed (e : CaptureError)
  /-- It waits for an object that someone is writing to. -/
  | waits
  deriving DecidableEq

/-- What was done before a stop stays done. -/
abbrev Serialize := ExceptT Stop (StateM State)

def stallTime : Nat := 150

def fail {α : Type} (e : CaptureError) : Serialize α := throw (.failed e)

/-- What an object holds. It is read only while nobody writes to the object. -/
def body (o : Obj) : Serialize Body := if o.locked then throw .waits else return o.body

/-- Whether a serializer takes an object. One that goes by the shape has to read the object. -/
def accepts (o : Obj) : SerializerGuard → Serialize Bool
  | .shape s => return (← body o).shape == s
  | .runtimeClass name => return o.type.className? == some name
  | .anything => return true

/-- Forgets which objects were met, so that they become new nodes from here on. -/
def resetIdentities : Serialize Unit := modify fun st => { st with identities := [] }

/-- The node of an atom. The interner is asked only for what the graph lacks. -/
def atom (a : Atom) : Serialize NodeId := do
  let st ← get
  match st.graph.atomId? a with
  | some id => return id
  | none =>
    let (graph, id) := st.graph.push (.atom a)
    set { st with graph, interner := (st.interner.intern a).1 }
    return id

/-- The type that a null is of where a type is declared. -/
def nullType : Ty → Ty
  | .void => .object
  | .primitive kind => .boxed kind
  | t => t

/-- The type that a literal is of where a type is declared: primitive only where that very primitive
is asked for. -/
def literalType (declared : Ty) (l : Literal) : Ty :=
  match declared, l.kind? with
  | .primitive kind, some actual => if kind = actual then declared else l.naturalType
  | _, _ => l.naturalType

def push (n : Node) : Serialize NodeId := do
  let st ← get
  let (graph, id) := st.graph.push n
  set { st with graph }
  return id

def reserve (id : ObjectId) (declared runtime : Ty) (content : Content) : Serialize NodeId := do
  let n ← push (.composite declared runtime content)
  modify fun st => { st with identities := putEntry id n st.identities }
  return n

def fill (n : NodeId) (content : Content) : Serialize Unit :=
  modify fun st => { st with graph := st.graph.setContent n content }

def wrongShape {α : Type} (o : Obj) (expected : String) : Serialize α :=
  fail (.failure (o.type.text ++ " is not " ++ expected))

variable (c : Context) (value : Value → Ty → Serialize NodeId)

def values (declared : Ty) (items : List Value) : Serialize (List NodeId) :=
  items.mapM fun v => value v declared

def entries (keyType valueType : Ty) (es : List (Value × Value)) :
    Serialize (List (NodeId × NodeId)) :=
  es.mapM fun (k, v) => do
    let k ← value k keyType
    let v ← value v valueType
    return (k, v)

def fieldNodes (o : Obj) (slots : List (Slot × Value)) : Serialize (List NodeField) :=
  slots.mapM fun (slot, v) => do
    match slot with
    | .field owner name type => return ⟨owner, name, type, ← value v type⟩
    | _ => fail (.failure (o.type.text ++ " has no field map"))

def composite (id : ObjectId) (o : Obj) (declared : Ty) (blank : Content)
    (parts : Serialize Content) : Serialize NodeId := do
  let n ← reserve id declared o.type blank
  fill n (← parts)
  return n

def arrayNode (id : ObjectId) (o : Obj) (declared : Ty) (items : List Value) : Serialize NodeId :=
  composite id o declared (.array [])
    (.array <$> values value (o.type.component?.getD .object) items)

def listNode (id : ObjectId) (o : Obj) (declared : Ty) (items : List Value) : Serialize NodeId :=
  composite id o declared (.list []) (.list <$> values value (o.type.arg 0) items)

def setNode (id : ObjectId) (o : Obj) (declared : Ty) (items : List Value) : Serialize NodeId :=
  composite id o declared (.set []) (.set <$> values value (o.type.arg 0) items)

def mapNode (id : ObjectId) (o : Obj) (declared : Ty) (es : List (Value × Value)) :
    Serialize NodeId :=
  composite id o declared (.map []) (.map <$> entries value (o.type.arg 0) (o.type.arg 1) es)

/-- Serializes any object as its fields, those its class declares first. It does not wait for an object
that someone is writing to. -/
def fieldsNode (id : ObjectId) (o : Obj) (declared : Ty) : Serialize NodeId :=
  match o.slots? c.types with
  | none => fail (.failure (o.type.text ++ " is locked for writing"))
  | some slots =>
    composite id o declared (.object []) (.object <$> fieldNodes value o slots.entries)

def serializeBy (id : ObjectId) (o : Obj) (declared : Ty) : SerializerRule → Serialize NodeId
  | .array => do
    match ← body o with
    | .array items => arrayNode value id o declared items
    | _ => wrongShape o "an array"
  | .list => do
    match ← body o with
    | .list items => listNode value id o declared items
    | _ => wrongShape o "a list"
  | .set => do
    match ← body o with
    | .set items => setNode value id o declared items
    | _ => wrongShape o "a set"
  | .map => do
    match ← body o with
    | .map es => mapNode value id o declared es
    | _ => wrongShape o "a map"
  | .fields => fieldsNode c value id o declared
  | .null => value .null declared
  | .refuse => fail (.failure "refused")
  | .crash => fail .cancelled
  | .stall => do
    modify fun st => { st with elapsed := st.elapsed + stallTime }
    fail (.failure "too late")

/-- Serializes an object that was not met before by the first serializer that takes it. -/
def dispatch (id : ObjectId) (declared : Ty) : Serialize NodeId :=
  match c.heap.get? id with
  | none => fail (.failure s!"no object with number {id}")
  | some o => do
    match ← c.serializers.chain.selectM? fun a => accepts o a.behaviour.guard with
    | some a => serializeBy c value id o declared a.behaviour.rule
    | none =>
      if c.serializers.fallback then fieldsNode c value id o declared else fail (.gap o.type)

/-- The node of a value where a type is declared. Each level down meets another object, so `depth`
need not exceed the number of objects by more than one. -/
def valueAt : (depth : Nat) → Value → Ty → Serialize NodeId
  | _, .null, declared => atom (.null (nullType declared))
  | _, .scalar l, declared => atom (.literal (literalType declared l) l)
  | _, .constant type name, declared => push (.constant declared (.ofClass type) name)
  | 0, .object id, _ => fail (.failure s!"no object with number {id}")
  | depth + 1, .object id, declared => do
    match findValue? id (← get).identities with
    | some n => return n
    | none => dispatch c (valueAt depth) id declared

def node (v : Value) (declared : Ty) : Serialize NodeId := valueAt c (c.heap.size + 1) v declared

end Serialization

end Reenact
