/-!
Breadth-first search along a successor function. The visited nodes are listed frontier by frontier,
so a node's place in the list never runs against its distance from the start.
-/

namespace Reenact

variable {α : Type} [DecidableEq α]

/-- The nodes one step beyond `frontier` that are not among `visited`, each once. -/
def nextFrontier (next : α → List α) (visited frontier : List α) : List α :=
  ((frontier.flatMap next).filter (· ∉ visited)).eraseDups

/-- Extends `visited`, which ends in `frontier`, by at most the given number of frontiers. -/
def searchFrom (next : α → List α) : (rounds : Nat) → (visited frontier : List α) → List α
  | 0, visited, _ => visited
  | rounds + 1, visited, frontier =>
    match nextFrontier next visited frontier with
    | [] => visited
    | found => searchFrom next rounds (visited ++ found) found

/-- The nodes reachable from `start`, nearest first. Every round but the last visits a new node that
has successors or ends the search, so `rounds` may be the number of nodes that have any. -/
def search (next : α → List α) (rounds : Nat) (start : α) : List α :=
  searchFrom next (rounds + 1) [start] [start]

end Reenact
