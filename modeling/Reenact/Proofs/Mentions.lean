import Mathlib
import Reenact.Proofs.Assoc
import Reenact.Proofs.Distance
import Reenact.Proofs.Queue
import Reenact.Proofs.Reachability

/-!
How often a node is mentioned. What a root reaches is listed once and for all, each node once, so the children
of the listed nodes are the edges between them: a node counts one for each edge that leads to it, whether two
edges start at one node or not, and the root counts one more.
-/

namespace Reenact.Graph

variable {g : Graph} {root id : NodeId}

/-- The edges to a node from what the root reaches: each one is given by the node that it starts at and its
place among the children of that node. -/
def mentions (g : Graph) (root id : NodeId) : Set (Σ _ : NodeId, ℕ) :=
  {e | Leads g.children root e.1 ∧ (g.children e.1)[e.2]? = some id}

/-- The counts after one more mention of a node. -/
def countUp (counts : List (NodeId × ℕ)) (id : NodeId) : List (NodeId × ℕ) :=
  putEntry id ((findValue? id counts).getD 0 + 1) counts

/-- The counts as they are taken, edge by edge along the nodes that the root reaches. -/
def tally (g : Graph) (root : NodeId) : List (NodeId × ℕ) :=
  (g.reachable root).foldl (fun counts n => (g.children n).foldl countUp counts) [(root, 1)]

theorem nodup_reachable (g : Graph) (root : NodeId) : (g.reachable root).Nodup := nodup_search _ _ _

theorem ncard_mentions : (g.mentions root id).ncard = ((g.reachable root).flatMap g.children).count id := by
  let edges : Finset (Σ _ : NodeId, ℕ) :=
    (g.reachable root).toFinset.sigma fun n => ((g.children n).idxsOf id).toFinset
  have hedges : g.mentions root id = edges := by
    ext e
    rw [mentions, Set.mem_ofPred_eq, Finset.mem_coe, Finset.mem_sigma, List.mem_toFinset, List.mem_toFinset,
      mem_reachable, List.mem_idxsOf_iff_exists_getElem_pos, List.getElem?_eq_some_iff]
    simp only [beq_iff_eq]
  calc (g.mentions root id).ncard = edges.card := by rw [hedges, Set.ncard_coe_finset]
    _ = ∑ n ∈ (g.reachable root).toFinset, (g.children n).count id := by
      rw [Finset.card_sigma]
      refine Finset.sum_congr rfl fun n _ => ?_
      rw [List.toFinset_card_of_nodup List.nodup_idxsOf, List.length_idxsOf]
    _ = ((g.reachable root).flatMap g.children).count id := by
      rw [List.sum_toFinset _ (nodup_reachable g root), List.count_flatMap]
      rfl

theorem referenceCount_eq :
    g.referenceCount root id = (g.mentions root id).ncard + if id = root then 1 else 0 := by
  rw [ncard_mentions]
  rfl

/-! ### Counting edge by edge -/

theorem findValue?_countUp (counts : List (NodeId × ℕ)) (mentioned id : NodeId) :
    findValue? id (countUp counts mentioned) =
      if id = mentioned then some ((findValue? mentioned counts).getD 0 + 1) else findValue? id counts := by
  rw [countUp, findValue?_putEntry]

/-- What has a count or is mentioned has the sum of both for its count. -/
theorem findValue?_foldl_countUp (counts : List (NodeId × ℕ)) (ids : List NodeId) (id : NodeId) :
    findValue? id (ids.foldl countUp counts) =
      if id ∈ ids ∨ (findValue? id counts).isSome then some ((findValue? id counts).getD 0 + ids.count id)
      else none := by
  induction ids generalizing counts with
  | nil => cases h : findValue? id counts <;> simp [h]
  | cons mentioned ids ih =>
    rw [List.foldl_cons, ih, findValue?_countUp]
    by_cases hid : id = mentioned
    · subst hid
      simp only [if_pos, Option.isSome_some, Option.getD_some, or_true, List.mem_cons_self, true_or,
        List.count_cons_self]
      congr 1
      omega
    · rw [if_neg hid, List.count_cons_of_ne (Ne.symm hid)]
      simp only [List.mem_cons, hid, false_or]

theorem findValue?_start (root id : NodeId) :
    findValue? id [(root, 1)] = if id = root then some 1 else none := by
  simp only [findValue?, eq_comm]

/-- Counted edge by edge, a node has the count of its mentions if the root reaches it, and none otherwise. -/
theorem findValue?_tally : findValue? id (g.tally root) =
    if id ∈ g.reachable root then some (g.referenceCount root id) else none := by
  have hmem : id ∈ (g.reachable root).flatMap g.children ∨ (findValue? id [(root, 1)]).isSome ↔
      id ∈ g.reachable root := by
    have hroot : (findValue? id [(root, 1)]).isSome ↔ id = root := by
      rw [findValue?_start]
      split <;> simp_all
    rw [hroot, List.mem_flatMap, mem_reachable]
    simp only [mem_reachable]
    constructor
    · rintro (⟨n, hn, hstep⟩ | rfl)
      · exact hn.tail hstep
      · exact .refl
    · intro hlead
      rcases Relation.ReflTransGen.cases_tail hlead with heq | ⟨n, hn, hstep⟩
      · exact .inr heq
      · exact .inl ⟨n, hn, hstep⟩
  have hstart : (findValue? id [(root, 1)]).getD 0 = if id = root then 1 else 0 := by
    rw [findValue?_start]
    split <;> rfl
  rw [tally, ← List.foldl_flatMap, findValue?_foldl_countUp, if_congr hmem rfl rfl, hstart, Nat.add_comm]
  rfl

theorem map_fst_referenceCounts (g : Graph) (root : NodeId) :
    (g.referenceCounts root).map Prod.fst = g.reachable root := by
  rw [referenceCounts, List.map_map]
  exact List.map_id _

theorem findValue?_referenceCounts : findValue? id (g.referenceCounts root) =
    if id ∈ g.reachable root then some (g.referenceCount root id) else none := by
  by_cases hid : id ∈ g.reachable root
  · rw [if_pos hid]
    refine findValue?_of_mem ?_ (List.mem_map.2 ⟨id, hid, rfl⟩)
    rw [map_fst_referenceCounts]
    exact nodup_reachable g root
  · rw [if_neg hid, findValue?_eq_none, map_fst_referenceCounts]
    exact hid

/-- Whatever the cycles and unknown ids of a graph, the loop over a queue ends with the ids that the root
reaches, each one once and none before a nearer one. These have counts and no others: a count is the number of
the edges from what the root reaches, and one more for the root. -/
theorem reachable_and_counts_exact (g : Graph) (root : NodeId) :
    (∀ order, Served g.children [] {root} [root] order ↔ order = g.reachable root) ∧
      (∀ id, id ∈ g.reachable root ↔ Leads g.children root id) ∧ (g.reachable root).Nodup ∧
      ((g.reachable root).Pairwise fun a b => distance g.children root a ≤ distance g.children root b) ∧
      (g.referenceCounts root).map Prod.fst = g.reachable root ∧
      (∀ id n, findValue? id (g.referenceCounts root) = some n ↔
        Leads g.children root id ∧ n = (g.mentions root id).ncard + if id = root then 1 else 0) ∧
      ∀ id, findValue? id (g.tally root) = findValue? id (g.referenceCounts root) := by
  have hserved : Served g.children [] {root} [root] (g.reachable root) :=
    served_search (Finset.range g.size) (fun a ha => Finset.mem_range.2 (lt_size_of_children ha)) (by simp)
  refine ⟨fun order => ⟨fun h => h.unique hserved, fun h => h ▸ hserved⟩, fun id => mem_reachable,
    nodup_reachable g root, pairwise_search _ _ _, map_fst_referenceCounts g root, fun id n => ?_, fun id => ?_⟩
  · rw [findValue?_referenceCounts, ← mem_reachable, ← referenceCount_eq]
    split <;> simp_all [eq_comm]
  · rw [findValue?_tally, findValue?_referenceCounts]

/-- An object that refers to itself and twice to a number, one of whose fields has an unknown id. -/
example :
    let fields : List NodeField := [⟨"Node", "value", .primitive .int, 1⟩, ⟨"Node", "next", .object, 0⟩,
      ⟨"Node", "copy", .primitive .int, 1⟩, ⟨"Node", "gone", .object, 7⟩]
    let g : Graph := ⟨#[.composite .object .object (.object fields), .atom (.literal (.primitive .int) (.int 1))]⟩
    g.reachable 0 = [0, 1, 7] ∧ g.referenceCounts 0 = [(0, 2), (1, 2), (7, 1)] := by
  decide

end Reenact.Graph
