import Reenact.Adaptor.Chain
import Reenact.Graph.Printer

/-!
Why no test can be generated, and which captured values an adaptor takes.
-/

namespace Reenact

inductive GenerateError where
  | noAdaptor (value : String)
  | unknownWrapper (value : String)
  | unconstructible (type : Ty)
  | invalidSnapshot
  | graph (e : GraphError)
  | registry (e : ChainError)
  /-- Adaptors delegate to each other in a circle. -/
  | endlessDelegation (name : String)

namespace GenerateError

def message : GenerateError → String
  | noAdaptor value => "no adaptor for " ++ value
  | unknownWrapper value => "unknown wrapper collection " ++ value
  | unconstructible type => "cannot construct an instance of " ++ type.text
  | invalidSnapshot => "snapshot is invalid"
  | graph e => "graph error: " ++ e.message
  | registry e => "registry error: " ++ e.message
  | endlessDelegation name => s!"adaptor '{name}' delegates without end"

/-- Whether another adaptor could mend it. -/
def isGap : GenerateError → Bool
  | noAdaptor _ | unknownWrapper _ | unconstructible _ => true
  | _ => false

/-- The error of a node that is not of the kind an adaptor works on. -/
def unexpected (id : NodeId) (n : Node) (expected : String) : GenerateError :=
  graph (.unexpectedKind id n.kind expected)

end GenerateError

inductive NodeGuard where
  | kind (kind : NodeKind)
  /-- Lists and sets of a wrapper class around this collection. -/
  | wrapper (collection : String)
  | primitiveArray
  | runtimeClass (name : String)
  | anything
  deriving DecidableEq

/-- The kind of wrapper that a class name speaks of: what stands between the scope of wrapper
classes and the name of the collection. -/
def wrapperKind? (collection name : String) : Option String :=
  let scope := "collections::".toList
  let chars := name.toList
  let kind := (chars.drop scope.length).take (chars.length - scope.length - collection.length)
  if chars = scope ++ kind ++ collection.toList then some (String.ofList kind) else none

def Node.wrapperKind? (n : Node) (collection : String) : Option String :=
  n.runtime.className?.bind (Reenact.wrapperKind? collection)

/-- The guard written as a class name, `*` standing for all. -/
def NodeGuard.ofName (className : String) : NodeGuard :=
  if className = "*" then .anything else .runtimeClass className

def NodeGuard.accepts (n : Node) : NodeGuard → Bool
  | kind k => n.kind == k
  | wrapper collection =>
    (n.kind == .list || n.kind == .set) && (n.wrapperKind? collection).isSome
  | primitiveArray => n.kind == .array && n.componentType.isPrimitive
  | runtimeClass name => n.runtime.className? == some name
  | anything => true

end Reenact
