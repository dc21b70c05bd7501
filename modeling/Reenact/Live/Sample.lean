import Reenact.Live.Heap

/-!
Object structures of the demonstration classes: linked nodes that close into a ring or end in a node
that follows itself, and a holder of small collections.
-/

namespace Reenact.Heap

def nodeType : Ty := .ofClass "demo::Node"

def int32 (n : Int) : Value := .scalar (.int (Int32.ofInt n))

def string (s : String) : Value := .scalar (.str s)

def newNodes (h : Heap) (numbers : List Int) : Heap × List ObjectId :=
  numbers.foldl
    (fun (h, ids) n =>
      let (h, id) := h.newObject nodeType [("value", int32 n), ("next", .null)]
      (h, ids ++ [id]))
    (h, [])

def link (h : Heap) : List ObjectId → Heap
  | a :: b :: rest => ((h.setField a "next" (.object b)).1).link (b :: rest)
  | _ => h

/-- Nodes in a circle. The result is the first node, or null if there is none. -/
def newRing (h : Heap) (numbers : List Int) : Heap × Value :=
  let (h, ids) := h.newNodes numbers
  match ids with
  | [] => (h, .null)
  | first :: _ => (h.link (ids ++ [first]), .object first)

/-- Nodes in a chain whose last node follows itself. -/
def newSelfLoop (h : Heap) (numbers : List Int) : Heap × Value :=
  let (h, ids) := h.newNodes numbers
  match ids with
  | [] => (h, .null)
  | first :: _ => (h.link (ids ++ ids.getLast?.toList), .object first)

/-- A holder of two items, one tag, a lookup table of two entries, and a colour. -/
def newHolder (h : Heap) : Heap × Value :=
  let (h, items) := h.newList (.named "ArrayList" [.string]) [string "a", string "b"]
  let (h, tags) := h.newSet (.named "LinkedHashSet" [.string]) [string "x"]
  let (h, lookup) := h.newMap (.named "LinkedHashMap" [.string, .boxed .int])
    [(string "one", int32 1), (string "two", int32 2)]
  let (h, id) := h.newObject (.ofClass "demo::Holder") [
    ("items", .object items), ("tags", .object tags), ("lookup", .object lookup),
    ("color", .constant "demo::Color" "GREEN")]
  (h, .object id)

end Reenact.Heap
