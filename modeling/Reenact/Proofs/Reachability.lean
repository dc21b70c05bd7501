import Mathlib
import Reenact.Graph.Basic
import Reenact.Live.Heap
import Reenact.Proofs.Search

/-!
Reachability in heaps and value graphs, as steps from an object or node to what it refers to.
-/

namespace Reenact

namespace Heap

variable {h : Heap}

theorem references_of_get? {id : ObjectId} {o : Obj} (ho : h.get? id = some o) :
    h.references id = o.body.values.filterMap Value.object? := by
  simp [references, body?, ho]

theorem lt_size_of_references {id : ObjectId} (hne : h.references id ≠ []) : id < h.size := by
  unfold references body? get? at hne
  by_contra hge
  have : h.objects[id]? = none := Array.getElem?_eq_none (Nat.le_of_not_lt hge)
  simp [this] at hne

theorem mem_reachable {v : Value} {id : ObjectId} :
    id ∈ h.reachable v ↔ ∃ root, v = .object root ∧ Leads h.references root id := by
  cases v with
  | object root =>
    simpa [reachable] using mem_search (Finset.range h.size)
      (fun a ha => Finset.mem_range.2 (lt_size_of_references ha)) (by simp)
  | null => simp [reachable]
  | scalar => simp [reachable]
  | constant => simp [reachable]

end Heap

namespace Graph

variable {g : Graph}

theorem lt_size_of_children {id : NodeId} (hne : g.children id ≠ []) : id < g.size := by
  unfold children get? at hne
  by_contra hge
  have : g.nodes[id]? = none := Array.getElem?_eq_none (Nat.le_of_not_lt hge)
  simp [this] at hne

theorem mem_reachable {root id : NodeId} : id ∈ g.reachable root ↔ Leads g.children root id :=
  mem_search (Finset.range g.size) (fun a ha => Finset.mem_range.2 (lt_size_of_children ha)) (by simp)

theorem reaches_iff {start goal : NodeId} :
    g.reaches start goal = true ↔ Leads g.children start goal := by
  simp [reaches, mem_reachable]

end Graph

end Reenact
