import Mathlib
import Reenact.Adaptor.Chain

/-!
Which lists of adaptors make a chain, and what is wrong with the others. Names have to be distinct,
parents have to be registered and the links to parents must not loop; the first of these that fails is
reported, for the first adaptor where it does.
-/

namespace Reenact.Chain

variable {β : Type} {all : List (Adaptor β)} {a b : Adaptor β} {name : String}

/-- The first of two registered adaptors names the second as its parent. -/
structure Link (all : List (Adaptor β)) (a b : Adaptor β) : Prop where
  child : a ∈ all
  parent : b ∈ all
  named : a.parent = some b.name

/-- The second adaptor is an ancestor of the first. -/
def Descends (all : List (Adaptor β)) : Adaptor β → Adaptor β → Prop := Relation.TransGen (Link all)

/-- The links from the adaptor to its parent and on never end. -/
def Endless (all : List (Adaptor β)) (a : Adaptor β) : Prop :=
  ∃ path : ℕ → Adaptor β, path 0 = a ∧ ∀ n, Link all (path n) (path (n + 1))

def Distinct (all : List (Adaptor β)) : Prop := (all.map Adaptor.name).Nodup

/-- The parent of the adaptor is registered, if it names one. -/
def Known (all : List (Adaptor β)) (a : Adaptor β) : Prop :=
  ∀ parent, a.parent = some parent → parent ∈ all.map Adaptor.name

structure Sound (all : List (Adaptor β)) : Prop where
  distinct : Distinct all
  known : ∀ a ∈ all, Known all a
  acyclic : ∀ a, ¬ Descends all a a

/-- What a list of adaptors is refused for: the first name that repeats one; if none does, the first
parent that is not registered; if all are, the first adaptor whose links never end. -/
inductive Rejects (all : List (Adaptor β)) : ChainError → Prop where
  | duplicate {front a rest} : all = front ++ a :: rest → Distinct front → a.name ∈ front.map Adaptor.name →
      Rejects all (.duplicateName a.name)
  | unknown {front a rest parent} : Distinct all → all = front ++ a :: rest → (∀ b ∈ front, Known all b) →
      a.parent = some parent → parent ∉ all.map Adaptor.name → Rejects all (.unknownParent a.name parent)
  | cycle {front a rest} : Distinct all → (∀ b ∈ all, Known all b) → all = front ++ a :: rest →
      (∀ b ∈ front, ¬ Endless all b) → Endless all a → Rejects all (.parentCycle a.name)

/-! ### Names -/

theorem Distinct.eq_of_name (h : Distinct all) (ha : a ∈ all) (hb : b ∈ all) (heq : a.name = b.name) : a = b :=
  List.inj_on_of_nodup_map h ha hb heq

theorem Known.exists_link (hknown : Known all a) (ha : a ∈ all) {parent : String}
    (hparent : a.parent = some parent) : ∃ b, Link all a b ∧ b.name = parent := by
  obtain ⟨b, hb, rfl⟩ := List.mem_map.1 (hknown parent hparent)
  exact ⟨b, ⟨ha, hb, hparent⟩, rfl⟩

/-- The names are distinct and none of them has been seen. -/
def Fresh (seen : List String) (l : List (Adaptor β)) : Prop := Distinct l ∧ ∀ a ∈ l, a.name ∉ seen

theorem fresh_nil (seen : List String) : Fresh seen ([] : List (Adaptor β)) := ⟨List.nodup_nil, by simp⟩

theorem fresh_empty : Fresh [] all ↔ Distinct all := by simp [Fresh]

theorem fresh_cons {seen : List String} {l : List (Adaptor β)} :
    Fresh seen (a :: l) ↔ a.name ∉ seen ∧ Fresh (a.name :: seen) l := by
  constructor
  · rintro ⟨hdistinct, hnew⟩
    obtain ⟨ha, hl⟩ := List.forall_mem_cons.1 hnew
    obtain ⟨hname, hrest⟩ := List.nodup_cons.1 hdistinct
    refine ⟨ha, hrest, fun b hb hseen => ?_⟩
    rcases List.mem_cons.1 hseen with heq | hseen
    · exact hname (heq ▸ List.mem_map_of_mem hb)
    · exact hl b hb hseen
  · rintro ⟨ha, hrest, hnew⟩
    refine ⟨List.nodup_cons.2 ⟨fun hname => ?_, hrest⟩, List.forall_mem_cons.2 ⟨ha, fun b hb hseen => ?_⟩⟩
    · obtain ⟨b, hb, heq⟩ := List.mem_map.1 hname
      exact hnew b hb (heq ▸ List.mem_cons_self)
    · exact hnew b hb (List.mem_cons_of_mem _ hseen)

theorem repeated?_eq_none {seen : List String} {l : List (Adaptor β)} :
    repeated? seen l = none ↔ Fresh seen l := by
  induction l generalizing seen with
  | nil => exact iff_of_true rfl (fresh_nil seen)
  | cons a l ih =>
    rw [repeated?, fresh_cons]
    by_cases ha : a.name ∈ seen
    · simp [ha]
    · rw [if_neg ha, ih]
      exact (and_iff_right ha).symm

theorem repeated?_eq_some {seen : List String} {l : List (Adaptor β)} :
    repeated? seen l = some name ↔ ∃ front a rest, l = front ++ a :: rest ∧ name = a.name ∧
      Fresh seen front ∧ (a.name ∈ seen ∨ a.name ∈ front.map Adaptor.name) := by
  constructor
  · intro h
    induction l generalizing seen with
    | nil => cases h
    | cons b l ih =>
      rw [repeated?] at h
      by_cases hb : b.name ∈ seen
      · rw [if_pos hb] at h
        cases h
        exact ⟨[], b, l, rfl, rfl, fresh_nil seen, .inl hb⟩
      · rw [if_neg hb] at h
        obtain ⟨front, a, rest, rfl, rfl, hfront, ha⟩ := ih h
        refine ⟨b :: front, a, rest, rfl, rfl, fresh_cons.2 ⟨hb, hfront⟩, ?_⟩
        rwa [List.map_cons, List.mem_cons, or_left_comm, ← or_assoc, ← List.mem_cons]
  · rintro ⟨front, a, rest, rfl, rfl, hfront, ha⟩
    induction front generalizing seen with
    | nil => exact if_pos (ha.resolve_right (by simp))
    | cons b front ih =>
      obtain ⟨hb, hfront⟩ := fresh_cons.1 hfront
      rw [List.cons_append, repeated?, if_neg hb]
      apply ih hfront
      rwa [List.map_cons, List.mem_cons, or_left_comm, ← or_assoc, ← List.mem_cons] at ha

/-! ### Parents -/

theorem any_name : all.any (·.name == name) = true ↔ name ∈ all.map Adaptor.name := by
  simp

theorem orphan?_eq_some {parent : String} :
    orphan? all = some (name, parent) ↔ ∃ front a rest, all = front ++ a :: rest ∧ name = a.name ∧
      (∀ b ∈ front, Known all b) ∧ a.parent = some parent ∧ parent ∉ all.map Adaptor.name := by
  unfold orphan?
  simp only [List.findSome?_eq_some_iff, Option.bind_eq_some_iff, Option.bind_eq_none_iff, any_name,
    ite_eq_left_iff, reduceCtorEq, imp_false, not_not, Option.some.injEq, Prod.mk.injEq,
    Option.ite_none_left_eq_some]
  constructor
  · rintro ⟨front, a, rest, hall, ⟨parent, hparent, hunknown, rfl, rfl⟩, hfront⟩
    exact ⟨front, a, rest, hall, rfl, hfront, hparent, hunknown⟩
  · rintro ⟨front, a, rest, hall, rfl, hfront, hparent, hunknown⟩
    exact ⟨front, a, rest, hall, ⟨parent, hparent, hunknown, rfl, rfl⟩, hfront⟩

theorem orphan?_eq_none : orphan? all = none ↔ ∀ a ∈ all, Known all a := by
  unfold orphan?
  simp only [List.findSome?_eq_none_iff, Option.bind_eq_none_iff, any_name, ite_eq_left_iff, reduceCtorEq,
    imp_false, not_not]
  rfl

/-! ### Ancestors -/

theorem Descends.mem_left (h : Descends all a b) : a ∈ all := by
  induction h with
  | single hlink => exact hlink.child
  | tail _ _ ih => exact ih

theorem Descends.mem_right (h : Descends all a b) : b ∈ all := by
  cases h with
  | single hlink => exact hlink.parent
  | tail _ hlink => exact hlink.parent

open Classical in
noncomputable def ancestors (all : List (Adaptor β)) (a : Adaptor β) : Finset (Adaptor β) :=
  all.toFinset.filter (Descends all a)

theorem mem_ancestors : b ∈ ancestors all a ↔ Descends all a b := by
  classical
  simpa [ancestors] using Descends.mem_right

/-- A parent that is not above itself has fewer ancestors than what refines it. -/
theorem card_ancestors_lt (hlink : Link all a b) (hb : ¬ Descends all b b) :
    (ancestors all b).card < (ancestors all a).card := by
  refine Finset.card_lt_card ⟨fun c hc => ?_, fun hsub => hb ?_⟩
  · exact mem_ancestors.2 (.head hlink (mem_ancestors.1 hc))
  · exact mem_ancestors.1 (hsub (mem_ancestors.2 (.single hlink)))

theorem card_ancestors_lt_length (ha : a ∈ all) (hself : ¬ Descends all a a) :
    (ancestors all a).card < all.length := by
  classical
  refine lt_of_lt_of_le (Finset.card_lt_card ⟨Finset.filter_subset _ _, fun hsub => hself ?_⟩)
    (List.toFinset_card_le all)
  exact mem_ancestors.1 (hsub (List.mem_toFinset.2 ha))

/-! ### Links that never end -/

theorem endless_iff : Endless all a ↔ ¬ Acc (flip (Link all)) a := by
  rw [not_acc_iff_exists_descending_chain]
  rfl

theorem Endless.parent (h : Endless all a) : ∃ b, Link all a b ∧ Endless all b := by
  obtain ⟨path, rfl, hpath⟩ := h
  exact ⟨path 1, hpath 0, fun n => path (n + 1), rfl, fun n => hpath (n + 1)⟩

/-- Where the links end, they do not come back. -/
theorem not_descends_self (h : ¬ Endless all a) : ¬ Descends all a a := by
  rw [endless_iff, not_not] at h
  induction h with
  | intro a _ ih =>
    intro hself
    obtain ⟨b, hlink, hrest⟩ := Relation.TransGen.head'_iff.1 hself
    exact ih b hlink (.tail' hrest hlink)

/-- Without a loop, the links of every adaptor end: each one leaves fewer ancestors. -/
theorem not_endless (h : ∀ a, ¬ Descends all a a) (a : Adaptor β) : ¬ Endless all a := by
  rw [endless_iff, not_not]
  have hwf : WellFounded (flip (Link all)) :=
    Subrelation.wf (fun hlink => card_ancestors_lt hlink (h _)) (measure fun a => (ancestors all a).card).wf
  exact hwf.apply a

theorem find?_name (h : Distinct all) (ha : a ∈ all) : all.find? (·.name == a.name) = some a := by
  cases hfound : all.find? (·.name == a.name) with
  | none => simpa using List.find?_eq_none.1 hfound a ha
  | some b =>
    have hname : b.name = a.name := by simpa using List.find?_some hfound
    rw [h.eq_of_name (List.mem_of_find?_eq_some hfound) ha hname]

theorem parentOf?_eq (h : Distinct all) (ha : a ∈ all) : parentOf? all a.name = a.parent := by
  rw [parentOf?, find?_name h ha]
  rfl

theorem climbEnds_none (steps : ℕ) : climbEnds all steps none = true := by
  cases steps <;> rfl

theorem climbEnds_succ (h : Distinct all) (ha : a ∈ all) (steps : ℕ) :
    climbEnds all (steps + 1) (some a.name) = climbEnds all steps a.parent := by
  rw [climbEnds, parentOf?_eq h ha]

theorem Endless.climbEnds (h : Distinct all) (hendless : Endless all a) (steps : ℕ) :
    climbEnds all steps (some a.name) = false := by
  induction steps generalizing a with
  | zero => rfl
  | succ steps ih =>
    obtain ⟨b, hlink, hb⟩ := hendless.parent
    rw [climbEnds_succ h hlink.child, hlink.named]
    exact ih hb

theorem climbEnds_of_not_endless (h : Distinct all) (hknown : ∀ a ∈ all, Known all a) {steps : ℕ}
    (ha : a ∈ all) (hends : ¬ Endless all a) (hsteps : (ancestors all a).card < steps) :
    climbEnds all steps (some a.name) = true := by
  rw [endless_iff, not_not] at hends
  induction hends generalizing steps with
  | intro a hacc ih =>
    obtain ⟨steps, rfl⟩ := Nat.exists_eq_add_of_lt (Nat.zero_lt_of_lt hsteps)
    rw [Nat.zero_add, climbEnds_succ h ha]
    cases hparent : a.parent with
    | none => exact climbEnds_none steps
    | some parent =>
      obtain ⟨b, hlink, rfl⟩ := Known.exists_link (hknown a ha) ha hparent
      have hb : ¬ Descends all b b := not_descends_self fun hb => endless_iff.1 hb (hacc b hlink)
      have hfewer := card_ancestors_lt hlink hb
      exact ih b hlink hlink.parent (by omega)

/-- Climbing as many steps as there are adaptors is enough to see whether the links end. -/
theorem climbEnds_iff (h : Distinct all) (hknown : ∀ a ∈ all, Known all a) (ha : a ∈ all) :
    climbEnds all all.length (some a.name) = true ↔ ¬ Endless all a := by
  constructor
  · intro hclimb hendless
    rw [hendless.climbEnds h] at hclimb
    cases hclimb
  · intro hends
    exact climbEnds_of_not_endless h hknown ha hends (card_ancestors_lt_length ha (not_descends_self hends))

theorem cyclic?_eq_some (h : Distinct all) (hknown : ∀ a ∈ all, Known all a) :
    cyclic? all = some name ↔ ∃ front a rest, all = front ++ a :: rest ∧ name = a.name ∧
      (∀ b ∈ front, ¬ Endless all b) ∧ Endless all a := by
  unfold cyclic?
  simp only [Option.map_eq_some_iff, List.find?_eq_some_iff_append, Bool.not_eq_true',
    Bool.not_not]
  constructor
  · rintro ⟨a, ⟨hclimb, front, rest, rfl, hfront⟩, rfl⟩
    refine ⟨front, a, rest, rfl, rfl, fun b hb => ?_, ?_⟩
    · exact (climbEnds_iff h hknown (List.mem_append_left _ hb)).1 (hfront b hb)
    · by_contra hends
      rw [(climbEnds_iff h hknown (by simp)).2 hends] at hclimb
      cases hclimb
  · rintro ⟨front, a, rest, rfl, rfl, hfront, ha⟩
    refine ⟨a, ⟨ha.climbEnds h _, front, rest, rfl, fun b hb => ?_⟩, rfl⟩
    exact (climbEnds_iff h hknown (List.mem_append_left _ hb)).2 (hfront b hb)

theorem cyclic?_eq_none (h : Distinct all) (hknown : ∀ a ∈ all, Known all a) :
    cyclic? all = none ↔ ∀ a, ¬ Descends all a a := by
  unfold cyclic?
  simp only [Option.map_eq_none_iff, List.find?_eq_none, Bool.not_eq_true', Bool.not_eq_false]
  constructor
  · intro hall a hself
    have ha := hself.mem_left
    exact not_descends_self ((climbEnds_iff h hknown ha).1 (hall a ha)) hself
  · exact fun hacyclic a ha => (climbEnds_iff h hknown ha).2 (not_endless hacyclic a)

/-! ### What building a chain answers -/

theorem Sound.build_eq (h : Sound all) : build all = .ok ⟨all.foldl (place all all.length) []⟩ := by
  have hrepeated : repeated? [] all = none := repeated?_eq_none.2 (fresh_empty.2 h.distinct)
  have horphan : orphan? all = none := orphan?_eq_none.2 h.known
  have hcyclic : cyclic? all = none := (cyclic?_eq_none h.distinct h.known).2 h.acyclic
  rw [build, hrepeated, horphan, hcyclic]

theorem exists_build_iff : (∃ chain, build all = .ok chain) ↔ Sound all := by
  refine ⟨fun ⟨chain, hchain⟩ => ?_, fun h => ⟨_, h.build_eq⟩⟩
  unfold build at hchain
  split at hchain <;> cases hchain
  next hrepeated horphan hcyclic =>
    have hdistinct := fresh_empty.1 (repeated?_eq_none.1 hrepeated)
    have hknown := orphan?_eq_none.1 horphan
    exact ⟨hdistinct, hknown, (cyclic?_eq_none hdistinct hknown).1 hcyclic⟩

theorem build_eq_error_iff {e : ChainError} : build all = .error e ↔ Rejects all e := by
  constructor
  · intro h
    unfold build at h
    split at h <;> cases h
    · next name hrepeated =>
      obtain ⟨front, a, rest, hall, rfl, hfront, ha⟩ := repeated?_eq_some.1 hrepeated
      exact .duplicate hall (fresh_empty.1 hfront) (ha.resolve_left (by simp))
    · next name parent hrepeated horphan =>
      obtain ⟨front, a, rest, hall, rfl, hfront, hparent, hunknown⟩ := orphan?_eq_some.1 horphan
      exact .unknown (fresh_empty.1 (repeated?_eq_none.1 hrepeated)) hall hfront hparent hunknown
    · next name hrepeated horphan hcyclic =>
      have hdistinct := fresh_empty.1 (repeated?_eq_none.1 hrepeated)
      have hknown := orphan?_eq_none.1 horphan
      obtain ⟨front, a, rest, hall, rfl, hfront, ha⟩ := (cyclic?_eq_some hdistinct hknown).1 hcyclic
      exact .cycle hdistinct hknown hall hfront ha
  · intro h
    cases h with
    | @duplicate front a rest hall hdistinct ha =>
      have hrepeated : repeated? [] all = some a.name :=
        repeated?_eq_some.2 ⟨front, a, rest, hall, rfl, fresh_empty.2 hdistinct, .inr ha⟩
      rw [build, hrepeated]
    | @unknown front a rest parent hdistinct hall hfront hparent hunknown =>
      have hrepeated : repeated? [] all = none := repeated?_eq_none.2 (fresh_empty.2 hdistinct)
      have horphan : orphan? all = some (a.name, parent) :=
        orphan?_eq_some.2 ⟨front, a, rest, hall, rfl, hfront, hparent, hunknown⟩
      rw [build, hrepeated, horphan]
    | @cycle front a rest hdistinct hknown hall hfront ha =>
      have hrepeated : repeated? [] all = none := repeated?_eq_none.2 (fresh_empty.2 hdistinct)
      have horphan : orphan? all = none := orphan?_eq_none.2 hknown
      have hcyclic : cyclic? all = some a.name :=
        (cyclic?_eq_some hdistinct hknown).2 ⟨front, a, rest, hall, rfl, hfront, ha⟩
      rw [build, hrepeated, horphan, hcyclic]

end Reenact.Chain
