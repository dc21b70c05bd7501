import Mathlib
import Reenact.Proofs.Search

/-!
The search with a queue. The node in front is taken from the queue and listed, and those of its successors that
nobody saw before are put behind. A search frontier by frontier lists the same nodes in the same order: the
queue always holds the rest of one frontier and behind it the part of the next one that is known so far.
-/

namespace Reenact

variable {α : Type} [DecidableEq α] {next : α → List α}

/-- What was seen and the queue, after a node came into sight. -/
def discover (s : Finset α × List α) (a : α) : Finset α × List α :=
  if a ∈ s.1 then s else (insert a s.1, s.2 ++ [a])

/-- The loop over the queue, without a bound on its rounds: from the nodes listed so far, those seen and those
in the queue it comes to an end with a list. -/
inductive Served (next : α → List α) : (listed : List α) → (seen : Finset α) → (queue : List α) →
    (order : List α) → Prop where
  | done {listed : List α} {seen : Finset α} : Served next listed seen [] listed
  | take {a : α} {listed queue order : List α} {seen : Finset α} :
      Served next (listed ++ [a]) ((next a).foldl discover (seen, queue)).1
        ((next a).foldl discover (seen, queue)).2 order →
      Served next listed seen (a :: queue) order

/-- The loop has one outcome. -/
theorem Served.unique {listed queue order order' : List α} {seen : Finset α}
    (h : Served next listed seen queue order) (h' : Served next listed seen queue order') : order = order' := by
  induction h with
  | done =>
    cases h'
    rfl
  | take _ ih =>
    cases h' with
    | take h' => exact ih h'

/-- The nodes of a list that were not seen before, each once. -/
def unseen (seen as : List α) : List α := (as.filter (· ∉ seen)).eraseDups

theorem nextFrontier_eq (visited frontier : List α) :
    nextFrontier next visited frontier = unseen visited (frontier.flatMap next) := rfl

theorem unseen_append (seen as bs : List α) :
    unseen seen (as ++ bs) = unseen seen as ++ unseen (seen ++ unseen seen as) bs := by
  unfold unseen
  rw [List.filter_append, List.eraseDups_append, List.removeAll, List.filter_filter]
  congr 3
  funext b
  simp only [List.mem_append, List.mem_eraseDups, List.elem_eq_mem, not_or, Bool.decide_and, decide_not]
  exact Bool.and_comm _ _

theorem unseen_singleton_of_mem {seen : List α} {a : α} (ha : a ∈ seen) : unseen seen [a] = [] := by
  simp [unseen, ha]

theorem unseen_singleton {seen : List α} {a : α} (ha : a ∉ seen) : unseen seen [a] = [a] := by
  simp [unseen, ha, List.eraseDups_cons]

theorem foldl_discover (seen queue as : List α) :
    as.foldl discover (seen.toFinset, queue) = ((seen ++ unseen seen as).toFinset, queue ++ unseen seen as) := by
  induction as generalizing seen queue with
  | nil => simp [unseen]
  | cons a as ih =>
    have hsplit := unseen_append seen [a] as
    rw [List.singleton_append] at hsplit
    rw [List.foldl_cons, hsplit]
    by_cases ha : a ∈ seen
    · rw [discover, if_pos (List.mem_toFinset.2 ha), ih, unseen_singleton_of_mem ha, List.nil_append,
        List.append_nil]
    · rw [discover, if_neg (mt List.mem_toFinset.1 ha), unseen_singleton ha]
      have hseen : insert a seen.toFinset = (seen ++ [a]).toFinset := by
        rw [List.toFinset_append, Finset.union_comm]
        rfl
      rw [hseen, ih, List.append_assoc, List.append_assoc]

/-- A frontier in front of the queue is listed as it stands, and what it leads to beyond the nodes seen comes
behind. -/
theorem served_frontier (listed seen frontier behind : List α) {order : List α}
    (hrest : Served next (listed ++ frontier) (seen ++ nextFrontier next seen frontier).toFinset
      (behind ++ nextFrontier next seen frontier) order) :
    Served next listed seen.toFinset (frontier ++ behind) order := by
  induction frontier generalizing listed seen behind with
  | nil => simpa [nextFrontier_eq, unseen] using hrest
  | cons a frontier ih =>
    rw [List.cons_append]
    refine .take ?_
    rw [foldl_discover, List.append_assoc]
    refine ih _ _ _ ?_
    have hfrontier : nextFrontier next seen (a :: frontier) =
        unseen seen (next a) ++ nextFrontier next (seen ++ unseen seen (next a)) frontier := by
      rw [nextFrontier_eq, nextFrontier_eq, List.flatMap_cons, unseen_append]
    rw [hfrontier] at hrest
    simpa only [List.append_assoc, List.singleton_append] using hrest

theorem served_of_nextFrontier_eq_nil {listed frontier : List α}
    (hnone : nextFrontier next (listed ++ frontier) frontier = []) :
    Served next listed (listed ++ frontier).toFinset frontier (listed ++ frontier) := by
  rw [← List.append_nil frontier, ← List.append_assoc]
  refine served_frontier _ _ _ _ ?_
  rw [List.append_nil, hnone]
  exact .done

/-- Once the visited nodes are closed under successors, the loop over the queue has ended as well. -/
theorem served_searchFrom {rounds : ℕ} (listed frontier : List α)
    (hclosed : ∀ a ∈ searchFrom next rounds (listed ++ frontier) frontier, ∀ b ∈ next a,
      b ∈ searchFrom next rounds (listed ++ frontier) frontier) :
    Served next listed (listed ++ frontier).toFinset frontier
      (searchFrom next rounds (listed ++ frontier) frontier) := by
  induction rounds generalizing listed frontier with
  | zero =>
    refine served_of_nextFrontier_eq_nil (List.eq_nil_iff_forall_not_mem.2 fun b hb => ?_)
    obtain ⟨⟨a, ha, hstep⟩, hnew⟩ := mem_nextFrontier.1 hb
    exact hnew (hclosed a (List.mem_append_right _ ha) b hstep)
  | succ rounds ih =>
    unfold searchFrom at hclosed ⊢
    split at hclosed
    · next hnone => exact served_of_nextFrontier_eq_nil hnone
    · next hsome =>
      have hround := served_frontier listed (listed ++ frontier) frontier [] (ih _ _ hclosed)
      rwa [List.append_nil] at hround

/-- The loop over the queue ends, with the nodes that the search visits. -/
theorem served_search {rounds : ℕ} {start : α} (nodes : Finset α) (hnodes : ∀ a, next a ≠ [] → a ∈ nodes)
    (hrounds : nodes.card ≤ rounds) : Served next [] {start} [start] (search next rounds start) := by
  refine served_searchFrom [] [start] fun a ha b hstep => ?_
  exact (mem_search nodes hnodes hrounds).2 (.tail ((mem_search nodes hnodes hrounds).1 ha) hstep)

/-! ### No node is listed twice -/

omit [DecidableEq α] in
theorem nodup_eraseDups [BEq α] [LawfulBEq α] (as : List α) : as.eraseDups.Nodup := by
  induction hlength : as.length using Nat.strong_induction_on generalizing as with
  | _ n ih =>
    cases as with
    | nil => simp
    | cons a as =>
      rw [List.eraseDups_cons, List.nodup_cons, List.mem_eraseDups]
      refine ⟨by simp, ih _ ?_ _ rfl⟩
      rw [← hlength, List.length_cons]
      exact Nat.lt_succ_of_le (List.length_filter_le _ as)

theorem nodup_searchFrom {rounds : ℕ} {visited frontier : List α} (hvisited : visited.Nodup) :
    (searchFrom next rounds visited frontier).Nodup := by
  induction rounds generalizing visited frontier with
  | zero => exact hvisited
  | succ rounds ih =>
    unfold searchFrom
    split
    · exact hvisited
    · refine ih (List.nodup_append.2 ⟨hvisited, nodup_eraseDups _, fun a ha b hb heq => ?_⟩)
      exact (mem_nextFrontier.1 hb).2 (heq ▸ ha)

theorem nodup_search (next : α → List α) (rounds : ℕ) (start : α) : (search next rounds start).Nodup :=
  nodup_searchFrom (List.nodup_singleton start)

end Reenact
