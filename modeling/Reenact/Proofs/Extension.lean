import Mathlib
import Reenact.Proofs.Precedence

/-!
Adaptors added in front of the defaults. Whether they refine defaults or not, they all come first in the
chain, and the defaults follow as they would without them.
-/

namespace Reenact

namespace Chain

variable {β : Type} {additional defaults placed pending front out : List (Adaptor β)} {a b : Adaptor β}

open Classical in
theorem filter_children (hdisjoint : ∀ a ∈ additional, a ∉ defaults) (a : Adaptor β) :
    (children (additional ++ defaults) a).filter (· ∈ defaults) = children defaults a := by
  have hadditional : (children additional a).filter (· ∈ defaults) = [] :=
    List.filter_eq_nil_iff.2 fun b hb => by simpa using hdisjoint b (children_subset a hb)
  have hdefaults : (children defaults a).filter (· ∈ defaults) = children defaults a :=
    List.filter_eq_self.2 fun b hb => by simpa using children_subset a hb
  have happend : children (additional ++ defaults) a = children additional a ++ children defaults a :=
    List.filter_append ..
  rw [happend, List.filter_append, hadditional, hdefaults, List.nil_append]

open Classical in
/-- Once all additional adaptors are placed, the defaults are placed behind them as on their own. -/
theorem Walk.behind (h : Walk (additional ++ defaults) placed pending out)
    (hdisjoint : ∀ a ∈ additional, a ∉ defaults) (hfront : ∀ a, a ∈ front ↔ a ∈ additional)
    (hpending : pending ⊆ additional ++ defaults) {own : List (Adaptor β)} (hplaced : placed = front ++ own) :
    ∃ out', out = front ++ out' ∧ Walk defaults own (pending.filter (· ∈ defaults)) out' := by
  induction h generalizing own with
  | done => exact ⟨own, hplaced, .done⟩
  | @skip placed a pending out ha _ ih =>
    subst hplaced
    obtain ⟨out', rfl, hwalk⟩ := ih (List.subset_of_cons_subset hpending) rfl
    refine ⟨out', rfl, ?_⟩
    by_cases hdefault : a ∈ defaults
    · have hown : a ∈ own := (List.mem_append.1 ha).resolve_left fun hmem => hdisjoint a ((hfront a).1 hmem) hdefault
      rw [List.filter_cons_of_pos (by simpa using hdefault)]
      exact .skip hown hwalk
    · rwa [List.filter_cons_of_neg (by simpa using hdefault)]
  | @enter placed a pending mid out hnew _ _ ihchildren ihrest =>
    subst hplaced
    obtain ⟨hfresh, hown⟩ := not_or.1 (mt List.mem_append.2 hnew)
    have hdefault : a ∈ defaults :=
      (List.mem_append.1 (hpending List.mem_cons_self)).resolve_left (mt (hfront a).2 hfresh)
    obtain ⟨mid', rfl, hchildren⟩ := ihchildren (children_subset a) rfl
    obtain ⟨out', rfl, hrest⟩ := ihrest (List.subset_of_cons_subset hpending) (List.append_assoc ..)
    refine ⟨out', rfl, ?_⟩
    rw [filter_children hdisjoint] at hchildren
    rw [List.filter_cons_of_pos (by simpa using hdefault)]
    exact .enter hown hchildren hrest

/-- What refines an additional adaptor is additional: the parents of defaults are defaults. -/
theorem mem_additional_of_descends (hall : Sound (additional ++ defaults)) (hdefaults : Sound defaults)
    (ha : a ∈ additional) (hdescends : Descends (additional ++ defaults) b a) : b ∈ additional := by
  have hstep : ∀ {a b}, a ∈ additional → Link (additional ++ defaults) b a → b ∈ additional := by
    intro a b ha hlink
    rcases List.mem_append.1 hlink.child with hb | hb
    · exact hb
    · obtain ⟨c, hc, hname⟩ := List.mem_map.1 (hdefaults.known b hb a.name hlink.named)
      have hmem := hall.distinct
      rw [Distinct, List.map_append, List.nodup_append] at hmem
      exact absurd hname.symm (hmem.2.2 _ (List.mem_map_of_mem ha) _ (List.mem_map_of_mem hc))
  induction hdescends using Relation.TransGen.head_induction_on with
  | single hlink => exact hstep ha hlink
  | head hlink _ ih => exact hstep ih hlink

/-- The chain of the additional adaptors and the defaults is one of the additional adaptors, in some
order, in front of the chain of the defaults. -/
theorem build_append {base extended : Chain β} (hbase : build defaults = .ok base)
    (hextended : build (additional ++ defaults) = .ok extended) :
    ∃ front, front.Perm additional ∧ extended.entries = front ++ base.entries := by
  classical
  have hdefaults : Sound defaults := exists_build_iff.1 ⟨base, hbase⟩
  have hall : Sound (additional ++ defaults) := exists_build_iff.1 ⟨extended, hextended⟩
  obtain ⟨hnodup, -, hapart⟩ := List.nodup_append.1 hall.distinct.nodup
  have hdisjoint : ∀ a ∈ additional, a ∉ defaults := fun a ha hdefault => hapart a ha a hdefault rfl
  obtain ⟨front, hfront, hrest⟩ := (walk_of_build hextended).append
  have hsub : additional ⊆ additional ++ defaults := List.subset_append_left _ _
  have hmem : ∀ a, a ∈ front ↔ a ∈ additional := by
    refine fun a => ⟨fun ha => ?_, hfront.mem_of_pending⟩
    rcases hfront.mem_cases hsub ha with hnone | ⟨b, hb, rfl | hdescends⟩
    · cases hnone
    · exact hb
    · exact mem_additional_of_descends hall hdefaults hb hdescends
  have hperm : front.Perm additional :=
    (List.perm_ext_iff_of_nodup (hfront.nodup hall.acyclic hsub List.nodup_nil) hnodup).2 hmem
  obtain ⟨own, hentries, hwalk⟩ :=
    hrest.behind hdisjoint hmem (List.subset_append_right _ _) (List.append_nil front).symm
  rw [List.filter_eq_self.2 fun a ha => by simpa using ha] at hwalk
  exact ⟨front, hperm, by rw [hentries, hwalk.functional (walk_of_build hbase)]⟩

end Chain

namespace Registry

variable {β : Type} {additional defaults : List (Adaptor β)} {base extended : Registry β} {fallback fallback' : Bool}

theorem build_eq_ok {registry : Registry β} (h : build additional defaults fallback = .ok registry) :
    Chain.build (additional ++ defaults) = .ok registry.chain := by
  unfold build at h
  split at h <;> cases h
  assumption

/-- Additional adaptors come first and leave the order of the defaults alone, so a value that none of them
accepts goes to the adaptor that it goes to without them. -/
theorem additional_before_defaults (hbase : build [] defaults fallback = .ok base)
    (hextended : build additional defaults fallback' = .ok extended) :
    (∃ front, front.Perm (additional.map Adaptor.name) ∧ extended.chain.names = front ++ base.chain.names) ∧
      ∀ accepts : Adaptor β → Bool,
        ((∃ a ∈ additional, accepts a) → ∃ a ∈ additional, accepts a ∧ extended.chain.select? accepts = some a) ∧
          ((∀ a ∈ additional, ¬ accepts a) → extended.chain.select? accepts = base.chain.select? accepts) := by
  obtain ⟨front, hperm, hentries⟩ := Chain.build_append (build_eq_ok hbase) (build_eq_ok hextended)
  refine ⟨⟨front.map Adaptor.name, hperm.map _, ?_⟩, fun accepts => ⟨fun ⟨a, ha, haccepts⟩ => ?_, fun hnone => ?_⟩⟩
  · rw [Chain.names, hentries, List.map_append]
    rfl
  · obtain ⟨b, hb⟩ : ∃ b, front.find? accepts = some b :=
      Option.isSome_iff_exists.1 (List.find?_isSome.2 ⟨a, hperm.symm.subset ha, haccepts⟩)
    refine ⟨b, hperm.subset (List.mem_of_find?_eq_some hb), List.find?_some hb, ?_⟩
    rw [Chain.select?, hentries, List.find?_append, hb, Option.some_or]
  · have hfront : front.find? accepts = none :=
      List.find?_eq_none.2 fun a ha => hnone a (hperm.subset ha)
    rw [Chain.select?, hentries, List.find?_append, hfront, Option.none_or]
    rfl

def listDefaults : List (Adaptor Unit) := [⟨"list", none, ()⟩, ⟨"set", none, ()⟩]

/-- Additional adaptors that refine one of the defaults, and each other. -/
def listRefinements : List (Adaptor Unit) := [⟨"wrapped", some "list", ()⟩, ⟨"checked", some "wrapped", ()⟩]

theorem refined_list_defaults :
    ∃ base extended, build [] listDefaults true = .ok base ∧ build listRefinements listDefaults true = .ok extended ∧
      extended.chain.names = ["checked", "wrapped"] ++ base.chain.names ∧
      (∃ a ∈ listRefinements, extended.chain.select? (fun a => a.name != "checked") = some a) ∧
      extended.chain.select? (·.parent == none) = base.chain.select? (·.parent == none) := by
  have hbase : build [] listDefaults true = .ok ⟨⟨listDefaults⟩, true⟩ := rfl
  have hextended : build listRefinements listDefaults true =
      .ok ⟨⟨listRefinements.reverse ++ listDefaults⟩, true⟩ := rfl
  obtain ⟨-, hselect⟩ := additional_before_defaults hbase hextended
  obtain ⟨a, ha, -, hselected⟩ := (hselect fun a => a.name != "checked").1 ⟨_, List.mem_cons_self, rfl⟩
  exact ⟨_, _, hbase, hextended, rfl, ⟨a, ha, hselected⟩, (hselect (·.parent == none)).2 (by decide)⟩

end Registry

end Reenact
