import Mathlib
import Reenact.Search

/-!
The search lists exactly the nodes that steps lead to, if its rounds are as many as the nodes that
have successors.
-/

namespace Reenact

variable {α : Type} [DecidableEq α] {next : α → List α}

/-- Steps along the successor function lead from one node to another. -/
def Leads (next : α → List α) : α → α → Prop := Relation.ReflTransGen fun a b => b ∈ next a

theorem mem_nextFrontier {visited frontier : List α} {b : α} :
    b ∈ nextFrontier next visited frontier ↔ (∃ a ∈ frontier, b ∈ next a) ∧ b ∉ visited := by
  simp [nextFrontier]

theorem prefix_searchFrom {rounds : Nat} {visited frontier : List α} :
    visited <+: searchFrom next rounds visited frontier := by
  induction rounds generalizing visited frontier with
  | zero => exact List.prefix_rfl
  | succ rounds ih =>
    unfold searchFrom
    split
    · exact List.prefix_rfl
    · exact (List.prefix_append _ _).trans ih

/-- The search lists the start first and its successors next. -/
theorem prefix_search {rounds : Nat} {start : α} :
    start :: nextFrontier next [start] [start] <+: search next rounds start := by
  unfold search searchFrom
  split
  · next hnone => rw [hnone]
  · exact prefix_searchFrom

theorem searchFrom_sound {rounds : Nat} {visited frontier : List α} {start : α}
    (hv : ∀ a ∈ visited, Leads next start a) (hf : ∀ a ∈ frontier, Leads next start a) :
    ∀ b ∈ searchFrom next rounds visited frontier, Leads next start b := by
  induction rounds generalizing visited frontier with
  | zero => exact hv
  | succ rounds ih =>
    unfold searchFrom
    split
    · exact hv
    · next found _ _ =>
      have hfound : ∀ b ∈ nextFrontier next visited frontier, Leads next start b := by
        intro b hb
        obtain ⟨⟨a, ha, hab⟩, _⟩ := mem_nextFrontier.1 hb
        exact (hf a ha).tail hab
      refine ih (fun b hb => ?_) hfound
      exact (List.mem_append.1 hb).elim (hv b) (hfound b)

/-- A node is expanded when its successors are visited. Every round but the last expands a node that
was not expanded before and has successors. -/
theorem searchFrom_closed {rounds : Nat} {visited frontier expanded : List α} {nodes : Finset α}
    (hnodes : ∀ a, next a ≠ [] → a ∈ nodes)
    (hrounds : (nodes.filter (· ∉ expanded)).card < rounds)
    (hvisited : ∀ a, a ∈ visited ↔ a ∈ expanded ∨ a ∈ frontier)
    (hexpanded : ∀ a ∈ expanded, a ∉ frontier ∧ ∀ b ∈ next a, b ∈ visited) :
    ∀ a ∈ searchFrom next rounds visited frontier, ∀ b ∈ next a,
      b ∈ searchFrom next rounds visited frontier := by
  induction rounds generalizing visited frontier expanded with
  | zero => omega
  | succ rounds ih =>
    unfold searchFrom
    split
    · next hnone =>
      intro a ha b hb
      rcases (hvisited a).1 ha with hexp | hfront
      · exact (hexpanded a hexp).2 b hb
      · by_contra hnew
        have := mem_nextFrontier.2 ⟨⟨a, hfront, hb⟩, hnew⟩
        simp [hnone] at this
    · next found hsome =>
      obtain ⟨b, hb⟩ := List.exists_mem_of_ne_nil _ hsome
      obtain ⟨⟨a, ha, hab⟩, _⟩ := mem_nextFrontier.1 hb
      refine @ih _ _ (expanded ++ frontier) ?_ ?_ ?_
      · have hmem : a ∈ nodes.filter (· ∉ expanded) := by
          refine Finset.mem_filter.2 ⟨hnodes a (List.ne_nil_of_mem hab), fun hexp => ?_⟩
          exact (hexpanded a hexp).1 ha
        have hlt : (nodes.filter (· ∉ expanded ++ frontier)).card <
            (nodes.filter (· ∉ expanded)).card := by
          refine Finset.card_lt_card ((Finset.ssubset_iff_of_subset ?_).2 ⟨a, hmem, by simp [ha]⟩)
          exact Finset.monotone_filter_right _ fun c _ hc hexp =>
            hc (List.mem_append_left _ hexp)
        omega
      · simp [hvisited]
      · intro c hc
        have hold : c ∈ visited := (hvisited c).2 (List.mem_append.1 hc)
        refine ⟨fun hn => (mem_nextFrontier.1 hn).2 hold, fun d hd => List.mem_append.2 ?_⟩
        rcases List.mem_append.1 hc with hexp | hfront
        · exact .inl ((hexpanded c hexp).2 d hd)
        · exact or_iff_not_imp_left.2 fun hnew => mem_nextFrontier.2 ⟨⟨c, hfront, hd⟩, hnew⟩

theorem search_sound {rounds : Nat} {start b : α} (hb : b ∈ search next rounds start) :
    Leads next start b :=
  searchFrom_sound (by simp [Leads, Relation.ReflTransGen.refl])
    (by simp [Leads, Relation.ReflTransGen.refl]) b hb

theorem mem_search {rounds : Nat} {start b : α} (nodes : Finset α)
    (hnodes : ∀ a, next a ≠ [] → a ∈ nodes) (hrounds : nodes.card ≤ rounds) :
    b ∈ search next rounds start ↔ Leads next start b := by
  have hclosed := @searchFrom_closed α _ next (rounds + 1) [start] [start] [] nodes hnodes
    (by simp; omega) (by simp) (by simp)
  refine ⟨search_sound, fun h => ?_⟩
  induction h with
  | refl => exact prefix_searchFrom.subset (by simp)
  | tail _ hstep ih => exact hclosed _ ih _ hstep

end Reenact
