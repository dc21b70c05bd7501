import Reenact.Class.Inheritance
import Reenact.Code.Expr
import Reenact.Code.Names
import Reenact.Generate.Error

/-!
Code that rebuilds captured values. Every object is allocated once, bound to a local and filled
after that, so that shared objects stay shared and cycles can be closed; which code builds a value
is up to the first adaptor that takes it, and plain objects without one are rebuilt field by
field.
-/

namespace Reenact

inductive SetupRule where
  | literal | null | constant | array | list | set | map
  /-- A call of the factory of a wrapper collection, the payload being built by another adaptor. -/
  | wrapper (collection payload : String)
  /-- What the adaptor of that name does, without remembering the local. -/
  | delegate (name : String)
  | factory

/-- The rule of a name; `delegate:` goes before the name of another adaptor. -/
def SetupRule.ofName? (name : String) : Option SetupRule :=
  match name with
  | "literal" => some .literal
  | "null" => some .null
  | "enum" => some .constant
  | "array" => some .array
  | "list" => some .list
  | "set" => some .set
  | "map" => some .map
  | "collections-list" => some (.wrapper "List" "list")
  | "collections-set" => some (.wrapper "Set" "set")
  | "factory" => some .factory
  | _ =>
    let mark := "delegate:".toList
    let chars := name.toList
    if mark.isPrefixOf chars then some (.delegate (String.ofList (chars.drop mark.length)))
    else none

structure SetupBehaviour where
  guard : NodeGuard
  rule : SetupRule

/-- The behaviour written as a class name and the name of a rule. -/
def SetupBehaviour.ofNames (className rule : String) : SetupBehaviour :=
  ⟨.ofName className, (SetupRule.ofName? rule).getD .null⟩

abbrev SetupRegistry := Registry SetupBehaviour

def standardSetupAdaptors : List (Adaptor SetupBehaviour) :=
  [⟨"literal", none, ⟨.kind .literal, .literal⟩⟩,
    ⟨"null", none, ⟨.kind .null, .null⟩⟩,
    ⟨"enum", none, ⟨.kind .enum, .constant⟩⟩,
    ⟨"array", none, ⟨.kind .array, .array⟩⟩,
    ⟨"list", none, ⟨.kind .list, .list⟩⟩,
    ⟨"set", none, ⟨.kind .set, .set⟩⟩,
    ⟨"map", none, ⟨.kind .map, .map⟩⟩,
    ⟨"collections-list", some "list", ⟨.wrapper "List", .wrapper "List" "list"⟩⟩,
    ⟨"collections-set", some "set", ⟨.wrapper "Set", .wrapper "Set" "set"⟩⟩]

structure Scope where
  names : LocalNames
  imports : Imports

namespace Scope

def empty : Scope := ⟨.empty, .empty⟩

def addClass (s : Scope) (path : String) : Scope := { s with imports := s.imports.addClass path }

def addFunction (s : Scope) (path : String) : Scope :=
  { s with imports := s.imports.addFunction path }

end Scope

/-- A local that holds a rebuilt value, with the type it is declared with. -/
structure Local where
  name : String
  type : Ty

namespace Reconstruction

structure Context where
  graph : Graph
  types : ClassTable
  adaptors : SetupRegistry

structure State where
  scope : Scope
  statements : List Stmt
  built : List (NodeId × Local)

def State.start (scope : Scope) : State := ⟨scope, [], []⟩

/-- What was done before an error stays done. -/
abbrev Build := ExceptT GenerateError (StateM State)

inductive Task where
  | value (id : NodeId)
  | delegate (name : String) (id : NodeId)

variable (c : Context)

def node (id : NodeId) : Build Node :=
  match c.graph.node id with
  | .ok n => return n
  | .error e => throw (.graph e)

def emit (s : Stmt) : Build Unit := modify fun st => { st with statements := st.statements ++ [s] }

def bind (type : Ty) (value : Expr) : Build String := do
  let st ← get
  let (names, name) := st.scope.names.fresh type.localStem
  set { st with scope := { st.scope with names } }
  emit (.bind name type value)
  return name

/-- Binds the value of a node to a new local, which stands for the node from here on. -/
def allocate (id : NodeId) (type : Ty) (value : Expr) : Build String := do
  let name ← bind type value
  modify fun st => { st with built := putEntry id ⟨name, type⟩ st.built }
  return name

def addClassImport (path : String) : Build Unit :=
  modify fun st => { st with scope := st.scope.addClass path }

def addFunctionImport (path : String) : Build Unit :=
  modify fun st => { st with scope := st.scope.addFunction path }

def codeType (id : NodeId) : Build Ty := do
  match findValue? id (← get).built with
  | some l => return l.type
  | none =>
    match ← node c id with
    | .constant _ runtime _ => return runtime.erasure
    | n => return n.runtime

/-- Casts the code for a node where its type does not fit the declared one. -/
def castTo (id : NodeId) (declared : Ty) (value : Expr) : Build Expr := do
  match value with
  | .null => return .null
  | _ =>
    if c.types.isAssignable (← codeType c id) declared then return value
    else return .cast value declared

variable (build : Task → Build Expr)

def valueAs (id : NodeId) (declared : Ty) : Build Expr := do
  castTo c id declared (← build (.value id))

def fill (target method : String) (declared : Ty) (parts : List NodeId) : Build Unit :=
  parts.forM fun part => do
    let value ← valueAs c build part declared
    emit (.expr (.invoke (.loc target) method [value]))

def fillEntries (target : String) (n : Node) (entries : List (NodeId × NodeId)) : Build Unit :=
  entries.forM fun (k, v) => do
    let k ← valueAs c build k (n.elementType 0)
    let v ← valueAs c build v (n.elementType 1)
    emit (.expr (.invoke (.loc target) "put" [k, v]))

def fillElements (target : String) (component : Ty) (elements : List NodeId) : Build Unit :=
  elements.zipIdx.forM fun (element, i) => do
    let value ← valueAs c build element component
    emit (.assign (.index (.loc target) i) value)

/-- What an array element holds before anything is stored in it. -/
def defaultElement : Ty → Expr
  | .primitive kind => .literal (.zero kind)
  | _ => .null

def onCycle (id : NodeId) (parts : List NodeId) : Bool :=
  parts.any fun part => c.graph.reaches part id

/-- An array is written with its elements in place, unless one of them refers back to the array. -/
def buildArray (id : NodeId) (n : Node) (elements : List NodeId) : Build Expr := do
  let component := n.componentType
  if onCycle c id elements then
    let name ← allocate id n.runtime
      (.newArray component (elements.map fun _ => defaultElement component))
    fillElements c build name component elements
    return .loc name
  else
    let values ← elements.mapM fun element => valueAs c build element component
    let name ← allocate id n.runtime (.newArray component values)
    return .loc name

def buildCollection (id : NodeId) (n : Node) (elements : List NodeId) : Build Expr := do
  let type := c.types.defaultImplementation n.runtime
  let name ← allocate id type (.new type [])
  fill c build name "add" (n.elementType 0) elements
  return .loc name

def buildMap (id : NodeId) (n : Node) (entries : List (NodeId × NodeId)) : Build Expr := do
  let type := c.types.defaultImplementation n.runtime
  let name ← allocate id type (.new type [])
  fillEntries c build name n entries
  return .loc name

def wrapperCall (id : NodeId) (n : Node) (kind factory payload : String) (elements : List NodeId) :
    Build Expr := do
  let type := n.elementType 0
  match kind, elements with
  | "Empty", [] => return .function none factory [type] []
  | "Singleton", [element] => return .apply factory [← valueAs c build element type]
  | "Unmodifiable", _ | "Synchronized", _ => return .apply factory [← build (.delegate payload id)]
  | "Checked", _ => return .function none factory [type] [← build (.delegate payload id)]
  | _, _ => throw (.unknownWrapper (c.graph.print id))

def buildWrapper (id : NodeId) (n : Node) (collection payload : String) (elements : List NodeId) :
    Build Expr := do
  match n.wrapperKind? collection with
  | none => throw (.unknownWrapper (c.graph.print id))
  | some kind =>
    if onCycle c id elements then throw (.unconstructible n.runtime)
    let factory := kind.map Char.toLower ++ "_" ++ collection.map Char.toLower
    let call ← wrapperCall c build id n kind factory payload elements
    addFunctionImport ("collections::" ++ factory)
    let name ← allocate id (c.types.publicSupertype n.runtime) call
    return .loc name

def buildByFactory (id : NodeId) (n : Node) : Build Expr := do
  addClassImport "support::factory"
  let name ← allocate id n.runtime (.function (some n.runtime.erasure) "create" [] [])
  return .loc name

def buildBy (id : NodeId) (n : Node) (rule : SetupRule) : Build Expr :=
  match rule, n with
  | .literal, .atom (.literal _ value) => return .literal value
  | .literal, n => throw (.unexpected id n "literal")
  | .null, _ => return .null
  | .constant, .constant _ runtime name => return .constant runtime.erasure name
  | .constant, n => throw (.unexpected id n "enum")
  | .array, .composite _ _ (.array elements) => buildArray c build id n elements
  | .array, n => throw (.unexpected id n "array")
  | .list, .composite _ _ (.list elements) => buildCollection c build id n elements
  | .list, n => throw (.unexpected id n "list")
  | .set, .composite _ _ (.set elements) => buildCollection c build id n elements
  | .set, n => throw (.unexpected id n "set")
  | .map, .composite _ _ (.map entries) => buildMap c build id n entries
  | .map, n => throw (.unexpected id n "map")
  | .wrapper collection payload, .composite _ _ (.list elements)
  | .wrapper collection payload, .composite _ _ (.set elements) =>
    buildWrapper c build id n collection payload elements
  | .wrapper _ _, n => throw (.unexpected id n "wrapper collection")
  | .delegate name, _ => build (.delegate name id)
  | .factory, n => buildByFactory id n

/-- Whether code may call the constructor of a class without arguments. -/
def isConstructible : Ty → Bool
  | .named name _ =>
    !c.types.isHidden name &&
      match c.types.get? name with
      | some d => d.kind == .concrete
      | none => true
  | _ => false

/-- Whether a new instance holds the field's value already. -/
def holdsDefault (f : NodeField) : Bool :=
  match c.graph.get? f.value, f.type with
  | some (.atom (.null _)), _ => true
  | some (.atom (.literal _ value)), .primitive kind => value == .zero kind
  | _, _ => false

def storedFields (runtime : Ty) (fields : List NodeField) : List NodeField :=
  let declared := (c.types.fieldsOf runtime).map (·.2.name)
  fields.filter fun f => !(declared.contains f.name && holdsDefault c f)

def buildFields (id : NodeId) (n : Node) (fields : List NodeField) : Build Expr := do
  if !isConstructible c n.runtime then throw (.unconstructible n.runtime)
  let name ← allocate id n.runtime (.new n.runtime [])
  (storedFields c n.runtime fields).forM fun f => do
    let value ← valueAs c build f.value f.type
    emit (.assign (.field (.loc name) f.name) value)
  return .loc name

def dispatch (id : NodeId) : Build Expr := do
  let n ← node c id
  match c.adaptors.chain.select? fun a => a.behaviour.guard.accepts n with
  | some a => buildBy c build id n a.behaviour.rule
  | none =>
    match n, c.adaptors.fallback with
    | .composite _ _ (.object fields), true => buildFields c build id n fields
    | _, _ => throw (.noAdaptor (c.graph.print id))

/-- Does a task, nested tasks going no deeper than `depth`. -/
def run : (depth : Nat) → Task → Build Expr
  | 0, .value id => throw (.noAdaptor (c.graph.print id))
  | 0, .delegate name _ => throw (.endlessDelegation name)
  | depth + 1, .value id => do
    match findValue? id (← get).built with
    | some l => return .loc l.name
    | none => dispatch c (run depth) id
  | depth + 1, .delegate name id => do
    match c.adaptors.chain.get? name with
    | none => throw (.noAdaptor (c.graph.print id))
    | some a =>
      let value ← buildBy c (run depth) id (← node c id) a.behaviour.rule
      modify fun st => { st with built := dropEntry id st.built }
      return value

/-- Every node is entered at most once on the way down, and for each node a delegation that goes
through more adaptors than there are comes back to one of them. -/
def depthBound : Nat := (c.graph.size + 2) * (c.adaptors.chain.size + 2)

def value (id : NodeId) : Build Expr := run c (depthBound c) (.value id)

def valueFor (id : NodeId) (declared : Ty) : Build Expr :=
  valueAs c (run c (depthBound c)) id declared

def takeStatements : Build (List Stmt) := do
  let st ← get
  set { st with statements := [] }
  return st.statements

/-- A rebuilt value: its code, the type this has, and the statements to run before it. -/
structure Computation where
  value : Expr
  type : Ty
  statements : List Stmt

/-- Rebuilds a node, for a place of the declared type if there is one. -/
def compute (id : NodeId) (declared : Option Ty) : Build Computation := do
  let value ←
    match declared with
    | some type => valueFor c id type
    | none => value c id
  let type ← codeType c id
  return { value, type, statements := ← takeStatements }

end Reconstruction

end Reenact
