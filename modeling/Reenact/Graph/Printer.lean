import Reenact.Graph.Basic

/-!
Text of captured values for readers. A node that is met again below itself is written as a cycle
mark, so the text is finite; a node that is only shared is written in full each time.
-/

namespace Reenact

/-- The texts of what a node holds besides other nodes. -/
def Node.labels (n : Node) : List String :=
  match n with
  | .atom (.literal _ value) => [value.text]
  | .atom (.null _) => []
  | .constant _ _ name => [name]
  | .composite _ _ content =>
    match content with
    | .array _ => [n.componentType.text]
    | .list _ | .set _ => [(n.elementType 0).text]
    | .map _ => [(n.elementType 0).text, (n.elementType 1).text]
    | .object fields => fields.map fun f => f.owner ++ "." ++ f.name ++ ": " ++ f.type.text

namespace Graph

def braces (parts : List String) : String := "\x7b" ++ ", ".intercalate parts ++ "\x7d"

/-- Text of a node from the texts of its children, which `print` gives. -/
def printNode (print : NodeId → String) : Node → String
  | .atom (.literal _ value) => value.text
  | .atom (.null _) => "null"
  | .constant _ runtime name => runtime.simpleText ++ "::" ++ name
  | .composite _ runtime content =>
    match content with
    | .array elements | .list elements => "[" ++ ", ".intercalate (elements.map print) ++ "]"
    | .set elements => braces (elements.map print)
    | .map entries => braces (entries.map fun (k, v) => print k ++ "=" ++ print v)
    | .object fields =>
      runtime.simpleText ++ " " ++ braces (fields.map fun f => f.name ++ ": " ++ print f.value)

/-- Text of a node below the nodes in `active`. Each level down adds a node of the graph to
`active`, so `depth` need not exceed the number of nodes by more than one. -/
def printBelow (g : Graph) : (depth : Nat) → (active : List NodeId) → NodeId → String
  | 0, _, id => s!"<missing #{id}>"
  | depth + 1, active, id =>
    match g.get? id with
    | none => s!"<missing #{id}>"
    | some n =>
      if id ∈ active then "<cycle " ++ n.runtime.simpleText ++ ">"
      else printNode (g.printBelow depth (id :: active)) n

def print (g : Graph) (id : NodeId) : String := g.printBelow (g.size + 1) [] id

end Graph

end Reenact
