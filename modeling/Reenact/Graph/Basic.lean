import Reenact.Literal
import Reenact.Search
import Reenact.Ty.Printer

/-!
Value graphs: captured values as numbered nodes. A node never moves and never loses what it holds;
literals and nulls occur once per graph, composite nodes once per captured object. An interner,
shared by many graphs, keeps one instance of every literal and null in use.
-/

namespace Reenact

abbrev NodeId := Nat

/-- Node contents that are shared between all places that mention them. -/
inductive Atom where
  | literal (type : Ty) (value : Literal)
  | null (type : Ty)
  deriving DecidableEq

def Atom.type : Atom → Ty
  | literal type _ | null type => type

/-- The atoms in use, each with the number of its instance. -/
structure Interner where
  instances : List (Atom × Nat)
  made : Nat

namespace Interner

def empty : Interner := ⟨[], 0⟩

def size (i : Interner) : Nat := i.instances.length

def intern (i : Interner) (a : Atom) : Interner × Nat :=
  match i.instances.find? (·.1 == a) with
  | some (_, n) => (i, n)
  | none => (⟨i.instances ++ [(a, i.made)], i.made + 1⟩, i.made)

def clear (i : Interner) : Interner := { i with instances := [] }

end Interner

/-- A field of a captured object: the class that declares it, its name, declared type and value. -/
structure NodeField where
  owner : String
  name : String
  type : Ty
  value : NodeId
  deriving DecidableEq

inductive Content where
  | array (elements : List NodeId)
  | list (elements : List NodeId)
  | set (elements : List NodeId)
  | map (entries : List (NodeId × NodeId))
  | object (fields : List NodeField)
  deriving DecidableEq

inductive Node where
  | atom (a : Atom)
  | constant (declared runtime : Ty) (name : String)
  | composite (declared runtime : Ty) (content : Content)
  deriving DecidableEq

inductive NodeKind where
  | literal | null | enum | array | list | set | map | object
  deriving DecidableEq, Repr

def NodeKind.name : NodeKind → String
  | literal => "Literal"
  | null => "Null"
  | enum => "Enum"
  | array => "Array"
  | list => "List"
  | set => "Set"
  | map => "Map"
  | object => "Object"

namespace Content

def kind : Content → NodeKind
  | array _ => .array
  | list _ => .list
  | set _ => .set
  | map _ => .map
  | object _ => .object

def children : Content → List NodeId
  | array elements | list elements | set elements => elements
  | map entries => entries.flatMap fun (k, v) => [k, v]
  | object fields => fields.map NodeField.value

end Content

namespace Node

def kind : Node → NodeKind
  | atom (.literal _ _) => .literal
  | atom (.null _) => .null
  | constant _ _ _ => .enum
  | composite _ _ content => content.kind

def declared : Node → Ty
  | atom a => a.type
  | constant declared _ _ => declared
  | composite declared _ _ => declared

def runtime : Node → Ty
  | atom a => a.type
  | constant _ runtime _ => runtime
  | composite _ runtime _ => runtime

/-- Whether the node stands for an object with an identity of its own. -/
def isReference : Node → Bool
  | composite _ _ _ => true
  | _ => false

def children : Node → List NodeId
  | composite _ _ content => content.children
  | _ => []

def componentType (n : Node) : Ty :=
  match n.runtime.component?, n.declared.component? with
  | some t, _ => t
  | none, some t => t
  | none, none => .object

/-- A type argument of a collection node: the runtime class's, else the declared type's. -/
def elementType (n : Node) (i : Nat) : Ty :=
  match n.runtime.args[i]?, n.declared.args[i]? with
  | some t, _ => t
  | none, some t => t
  | none, none => .object

def field? (n : Node) (name : String) : Option NodeField :=
  match n with
  | composite _ _ (.object fields) => fields.find? (·.name == name)
  | _ => none

end Node

inductive GraphError where
  | missingValue (id : NodeId)
  | unexpectedKind (id : NodeId) (actual : NodeKind) (expected : String)
  deriving DecidableEq

def GraphError.message : GraphError → String
  | .missingValue id => s!"no value with id #{id}"
  | .unexpectedKind id actual expected => s!"value #{id} is {actual.name}, expected {expected}"

structure Graph where
  nodes : Array Node

namespace Graph

def empty : Graph := ⟨#[]⟩

def size (g : Graph) : Nat := g.nodes.size

def get? (g : Graph) (id : NodeId) : Option Node := g.nodes[id]?

theorem get?_isSome {g : Graph} {id : NodeId} : (g.get? id).isSome ↔ id < g.size := by
  simp [get?, size]

def node (g : Graph) (id : NodeId) : Except GraphError Node :=
  match g.get? id with
  | some n => .ok n
  | none => .error (.missingValue id)

def push (g : Graph) (n : Node) : Graph × NodeId := (⟨g.nodes.push n⟩, g.size)

def atomId? (g : Graph) (a : Atom) : Option NodeId :=
  g.nodes.findIdx? (· == .atom a)

def atom (g : Graph) (a : Atom) : Graph × NodeId :=
  match g.atomId? a with
  | some id => (g, id)
  | none => g.push (.atom a)

/-- Adds a node; an atom that is there already keeps its place. -/
def insert (g : Graph) : Node → Graph × NodeId
  | .atom a => g.atom a
  | n => g.push n

def setContent (g : Graph) (id : NodeId) (content : Content) : Graph :=
  ⟨g.nodes.modify id fun
    | .composite declared runtime _ => .composite declared runtime content
    | n => n⟩

structure Parts where
  elements : List NodeId
  entries : List (NodeId × NodeId)
  fields : List NodeField

/-- What a composite node holds after the parts of its own kind have been added at the end. -/
def Content.extend (parts : Parts) : Content → Content
  | .array elements => .array (elements ++ parts.elements)
  | .list elements => .list (elements ++ parts.elements)
  | .set elements => .set (elements ++ parts.elements)
  | .map entries => .map (entries ++ parts.entries)
  | .object fields => .object (fields ++ parts.fields)

/-- Adds parts to a composite node in place; false if there is no such node. -/
def extend (g : Graph) (id : NodeId) (parts : Parts) : Graph × Bool :=
  match g.get? id with
  | some (.composite _ _ content) => (g.setContent id (Content.extend parts content), true)
  | _ => (g, false)

def children (g : Graph) (id : NodeId) : List NodeId :=
  match g.get? id with
  | some n => n.children
  | none => []

/-- The ids reachable from a root, known or not, nearest first. -/
def reachable (g : Graph) (root : NodeId) : List NodeId := search g.children g.size root

/-- How often each reachable id is mentioned: once by every edge from a reachable node, and once
more for the root. -/
def referenceCount (g : Graph) (root id : NodeId) : Nat :=
  ((g.reachable root).flatMap g.children).count id + if id = root then 1 else 0

def referenceCounts (g : Graph) (root : NodeId) : List (NodeId × Nat) :=
  (g.reachable root).map fun id => (id, g.referenceCount root id)

def reaches (g : Graph) (start goal : NodeId) : Bool := (g.reachable start).contains goal

end Graph

end Reenact
