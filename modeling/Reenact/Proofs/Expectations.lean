import Mathlib
import Reenact.Match.Matcher
import Reenact.Proofs.Bisimulation

/-!
Many comparisons on one worklist. A pair that one comparison has queued is not queued by a later one, and
none is looked at before the end. Bisimilarity being a bisimulation, all are found equal if and only if each
is by itself, so the expected values of a matcher for fields do not affect each other.
-/

namespace Reenact

namespace DeepEquality

variable {ν μ : Type} {s : Structure ν} {t : Structure μ} {R : ν → μ → Prop} {w w' : Worklist ν μ}
  {l : ν} {r : μ}

def Bisimilar (s : Structure ν) (t : Structure μ) (l : ν) (r : μ) : Prop :=
  ∃ R, Bisimulation s t R ∧ R l r

theorem bisimulation_bisimilar : Bisimulation s t (Bisimilar s t) where
  references := by
    rintro l r ⟨R, hR, hlr⟩
    exact hR.references l r hlr
  locally := by
    rintro l r ⟨R, hR, hlr⟩
    exact (hR.locally l r hlr).mono fun l r hlr => ⟨R, hR, hlr⟩

theorem equals_iff_agree : equals s t l r = true ↔ Agree s t (Bisimilar s t) l r := by
  constructor
  · intro hequal
    obtain ⟨R, hR, hagree⟩ := bisimulation_of_equals hequal
    exact hagree.mono fun l r hlr => ⟨R, hR, hlr⟩
  · exact equals_of_bisimulation bisimulation_bisimilar

/-- Nothing was taken from the worklist yet. -/
def Untouched (s : Structure ν) (t : Structure μ) (w : Worklist ν μ) : Prop :=
  ∀ l r, Seen s t w l r ↔ (l, r) ∈ w.queue

theorem untouched_empty : Untouched s t .empty := by
  intro l r
  simp [Seen, Worklist.empty]

theorem enqueue_untouched (hw : Untouched s t w) {i j : Nat} (hl : s.identity l = some i)
    (hr : t.identity r = some j) : Untouched s t (enqueue w l r (i, j)) := by
  unfold enqueue
  by_cases hseen : (i, j) ∈ w.seen
  · rw [if_pos hseen]
    exact hw
  · rw [if_neg hseen]
    intro l' r'
    rw [List.mem_append, ← hw l' r', List.mem_singleton, Prod.mk.injEq]
    constructor
    · rintro ⟨i', j', hl', hr', hmem⟩
      rcases List.mem_cons.1 hmem with heq | hmem
      · cases heq
        exact .inr ⟨s.identity_inj hl' hl, t.identity_inj hr' hr⟩
      · exact .inl ⟨i', j', hl', hr', hmem⟩
    · rintro (⟨i', j', hl', hr', hmem⟩ | ⟨rfl, rfl⟩)
      · exact ⟨i', j', hl', hr', List.mem_cons_of_mem _ hmem⟩
      · exact ⟨i, j, hl, hr, List.mem_cons_self⟩

/-- A pair that is on the worklist already adds no condition, whatever it was put there for. -/
theorem within_enqueue (hw : Untouched s t w) {i j : Nat} (hl : s.identity l = some i)
    (hr : t.identity r = some j) : Within R (enqueue w l r (i, j)) ↔ Within R w ∧ R l r := by
  unfold enqueue
  by_cases hseen : (i, j) ∈ w.seen
  · rw [if_pos hseen]
    have hqueued : (l, r) ∈ w.queue := (hw l r).1 ⟨i, j, hl, hr, hseen⟩
    exact (and_iff_left_of_imp fun hwithin => hwithin (l, r) hqueued).symm
  · rw [if_neg hseen]
    simp [Within, or_imp, forall_and]

theorem pair_untouched (hw : Untouched s t w) {b : Bool} (hpair : pair s t l r w = (b, w')) :
    Untouched s t w' ∧ (b = true ∧ Within R w' ↔ Within R w ∧ Agree s t R l r) := by
  rcases pair_cases (s := s) (t := t) l r w with ⟨i, j, hl, hr, heq⟩ | ⟨href, b', heq, hb⟩
  · cases heq.symm.trans hpair
    refine ⟨enqueue_untouched hw hl hr, ?_⟩
    rw [within_enqueue hw hl hr, Agree, if_pos (by simp [hl, hr])]
    exact and_iff_right rfl
  · cases heq.symm.trans hpair
    refine ⟨hw, ?_⟩
    rw [Agree, if_neg href, ← hb, and_comm]

theorem drain_iff (hw : Untouched s t w) : (drain s t w).1 = true ↔ Within (Bisimilar s t) w := by
  constructor
  · intro hdrain p hp
    have hsettled : Settled s t w := fun l r hseen => .inl ((hw l r).1 hseen)
    obtain ⟨R, hR, hseen⟩ := (drain_drains w).bisimulation hdrain hsettled
    exact ⟨R, hR, hseen p.1 p.2 ((hw p.1 p.2).2 hp)⟩
  · exact (drain_drains w).verdict bisimulation_bisimilar

end DeepEquality

namespace Matcher

open DeepEquality

variable {h : Heap} {types : ClassTable} {slots : Slots Value} {exact : Bool} {type : Ty} {v : Value}

/-- The first field of the name is deeply equal to the value, or accepted by the matcher. -/
def Answers (h : Heap) (types : ClassTable) (slots : Slots Value) (e : String × (Value ⊕ Matcher)) : Prop :=
  ∃ actual, slots.field? e.1 = some actual ∧
    match e.2 with
    | .inl expected => h.equal types expected actual = true
    | .inr m => accepts h types m actual = true

/-- From a worklist that holds the pairs of earlier fields. -/
theorem acceptsFields_untouched {es : List (String × (Value ⊕ Matcher))} {w : Worklist Value Value}
    (hw : Untouched (h.structure types) (h.structure types) w) :
    acceptsFields h types slots es w = true ↔
      Within (Bisimilar (h.structure types) (h.structure types)) w ∧ ∀ e ∈ es, Answers h types slots e := by
  induction es generalizing w with
  | nil =>
    rw [acceptsFields, drain_iff hw]
    simp
  | cons e es ih =>
    obtain ⟨name, expected⟩ := e
    rw [List.forall_mem_cons, Answers]
    cases hfield : slots.field? name with
    | none => cases expected <;> simp [acceptsFields, hfield]
    | some actual =>
      simp only [Option.some.injEq, exists_eq_left']
      cases expected with
      | inl expected =>
        simp only [acceptsFields, hfield]
        cases hpair : pair (h.structure types) (h.structure types) expected actual w with
        | mk b w' =>
          obtain ⟨hw', hwithin⟩ := pair_untouched (R := Bisimilar _ _) hw hpair
          rw [Heap.equal, equals_iff_agree, ← and_assoc, ← hwithin]
          cases b with
          | true => simpa using ih hw'
          | false => simp
      | inr m =>
        simp only [acceptsFields, hfield, Bool.and_eq_true]
        rw [ih hw, and_left_comm]

theorem acceptsFields_empty {es : List (String × (Value ⊕ Matcher))} :
    acceptsFields h types slots es .empty = true ↔ ∀ e ∈ es, Answers h types slots e := by
  rw [acceptsFields_untouched untouched_empty]
  simp [Within, Worklist.empty]

theorem acceptedSlots?_eq_some : acceptedSlots? h types exact type v = some slots ↔
    ∃ id o, v = .object id ∧ h.get? id = some o ∧ o.slots? types = some slots ∧
      if exact then o.type.erasure = type.erasure else types.isAssignable o.type type = true := by
  cases v with
  | null | scalar | constant => simp [acceptedSlots?]
  | object id =>
    cases ho : h.get? id with
    | none => simp [acceptedSlots?, ho]
    | some o => cases exact <;> simp [acceptedSlots?, ho, and_comm]

theorem field?_iff {name : String} {actual : Value} : slots.field? name = some actual ↔
    FirstWith (fun slot => slot.fieldName? = some name) slots.entries actual := by
  have hfirst := firstWith_iff (fun slot => slot.fieldName? == some name) slots.entries actual
  simp only [beq_iff_eq] at hfirst
  exact hfirst

theorem accepts_fieldwise_answers {es : List (String × (Value ⊕ Matcher))} :
    accepts h types (.fieldwise exact type es) v = true ↔
      ∃ slots, acceptedSlots? h types exact type v = some slots ∧ ∀ e ∈ es, Answers h types slots e := by
  rw [accepts]
  cases acceptedSlots? h types exact type v with
  | none => simp
  | some slots => simp [acceptsFields_empty]

/-- A matcher for fields accepts the objects that can be read, have an accepted class and hold in the first
field of each name what is expected there: a value that is deeply equal, if compared by itself, to the
expected one, or one that the matcher given accepts. -/
theorem fieldwise_iff_each (h : Heap) (types : ClassTable) (exact : Bool) (type : Ty)
    (fields : List (String × (Value ⊕ Matcher))) (v : Value) :
    accepts h types (.fieldwise exact type fields) v = true ↔
      ∃ id o slots, v = .object id ∧ h.get? id = some o ∧ o.slots? types = some slots ∧
        (if exact then o.type.erasure = type.erasure else types.isAssignable o.type type = true) ∧
        ∀ e ∈ fields, ∃ actual, FirstWith (fun slot => slot.fieldName? = some e.1) slots.entries actual ∧
          match e.2 with
          | .inl expected => h.equal types expected actual = true
          | .inr m => accepts h types m actual = true := by
  simp only [accepts_fieldwise_answers, acceptedSlots?_eq_some, Answers, field?_iff]
  constructor
  · rintro ⟨slots, ⟨id, o, hv, ho, hslots, htype⟩, hfields⟩
    exact ⟨id, o, slots, hv, ho, hslots, htype, hfields⟩
  · rintro ⟨id, o, slots, hv, ho, hslots, htype, hfields⟩
    exact ⟨slots, ⟨id, o, hv, ho, hslots, htype⟩, hfields⟩

end Matcher

end Reenact
