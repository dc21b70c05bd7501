import Mathlib
import Reenact.Proofs.Acceptance
import Reenact.Proofs.Isomorphism
import Reenact.Proofs.WellFormed

/-!
Objects that stand for captured ones, seen from the nodes of these. They show the nodes, and pass for
their classes unless a factory has dropped type arguments of an object on a cycle.
-/

namespace Reenact

/-- The factory of such a wrapper is told the first type argument and none of the others. -/
def Ty.isNarrowed : Ty → Bool
  | .named name args => decide (1 < args.length) && [WrapperKind.empty, .checked].any fun kind =>
      ["List", "Set"].any fun collection => name == kind.className collection
  | _ => false

/-- The object can be reached from what it refers to. -/
def Heap.OnCycle (h : Heap) (id : ObjectId) : Prop :=
  ∃ a ∈ h.references id, id ∈ h.reachable (.object a)

instance (h : Heap) (id : ObjectId) : Decidable (h.OnCycle id) :=
  inferInstanceAs (Decidable (∃ a ∈ h.references id, _))

/-! ### Classes -/

section

variable {types : ClassTable} (ht : types.ExtendsBuiltin) {actual runtime : Ty}
  (hclass : SameClass actual runtime)
include hclass

theorem SameClass.component? : actual.component? = runtime.component? := by
  rcases hclass with rfl | ⟨kind, collection, args, args', _, rfl, rfl, _⟩
  · rfl
  · rfl

include ht

/-- Plain objects are of no wrapper class. -/
theorem SameClass.eq_of_suits (hsuits : types.suits runtime .object) : actual = runtime := by
  rcases hclass with rfl | ⟨kind, collection, args, args', hcollection, rfl, rfl, _⟩
  · rfl
  · have hsub := ht.isSubclass_wrapper_self kind hcollection
    simp only [List.mem_cons, List.not_mem_nil, or_false] at hcollection
    rcases hcollection with rfl | rfl <;>
      simp [ClassTable.suits, ClassTable.isList, ClassTable.isSet, ClassTable.isSubtypeOf, Ty.className?,
        hsub] at hsuits

/-- What is rebuilt for a class is of the type that is asserted for it. -/
theorem SameClass.isAssignable (hwide : runtime.isNarrowed = false) :
    types.isAssignable actual (types.publicSupertype runtime) = true := by
  rcases hclass with rfl | ⟨kind, collection, args, args', hcollection, rfl, rfl, hretypes⟩
  · exact types.isAssignable_publicSupertype _
  · have hsub := ht.isSubclass_wrapper_self kind hcollection
    have hfit : (args.isEmpty || args'.isEmpty || args == args') = true := by
      rcases hretypes with rfl | rfl | rfl | ⟨hkind, rfl⟩
      · rfl
      · simp
      · simp
      · have hlen : args'.length ≤ 1 := by
          by_contra hlong
          have hnarrowed : Ty.isNarrowed (.named (kind.className collection) args') = true := by
            simp only [Ty.isNarrowed, Bool.and_eq_true, decide_eq_true_eq, List.any_eq_true, beq_iff_eq]
            exact ⟨by omega, kind, by simpa using hkind, collection, hcollection, rfl⟩
          rw [hwide] at hnarrowed
          cases hnarrowed
        rw [List.take_of_length_le hlen]
        simp
    rw [ht.publicSupertype_wrapper kind hcollection args']
    simp [ClassTable.isAssignable, ClassTable.classFits, hfit, hsub]

end

/-! ### Nodes -/

section

variable {h h' : Heap} {types : ClassTable} {g : Graph} {met : ObjectId → NodeId → Prop}
  {R : ObjectId → ObjectId → Prop}

/-- A node that an object became shows nothing else. -/
theorem Captured.eq_object (hc : Captured h types g met) {a : ObjectId} {n : NodeId} (hm : met a n)
    {w : Value} (hw : Shows g met w n) : w = .object a := by
  obtain ⟨declared, runtime, content, hn⟩ := hc.get? hm
  obtain ⟨b, rfl, hb⟩ := hw.exists_object hn
  rw [hc.injective hm hb]

/-- An object whose node can be reached from a node can be reached from the value that this one shows. -/
theorem Captured.reachable (hc : Captured h types g met) {v : Value} {root n : NodeId} {a : ObjectId}
    (hv : Shows g met v root) (hlead : Leads g.children root n) (hm : met a n) : a ∈ h.reachable v := by
  obtain ⟨w, hw, hreach⟩ := hc.shown hv hlead
  exact hreach a (hc.eq_object hm hw)

/-- An object whose node is met again below itself is on a cycle. -/
theorem Captured.onCycle (hc : Captured h types g met) {a : ObjectId} {n : NodeId} (hm : met a n)
    (hbelow : Matcher.Below g n n) : h.OnCycle a := by
  obtain ⟨part, hpart, hlead⟩ := hbelow
  obtain ⟨v, hv, hrefers⟩ := hc.child hm hpart
  have ha := hc.reachable hv hlead hm
  obtain ⟨c, rfl, -⟩ := Heap.mem_reachable.1 ha
  exact ⟨c, hrefers c rfl, ha⟩

/-- The object stands for one that became the node. -/
def Behind (met : ObjectId → NodeId → Prop) (R : ObjectId → ObjectId → Prop) (b : ObjectId) (n : NodeId) :
    Prop := ∃ a, met a n ∧ R a b

theorem shows_behind {v w : Value} {n : NodeId} (hv : Shows g met v n) (hw : Renamed R v w) :
    Shows g (Behind met R) w n := by
  cases hv with
  | null hn =>
    cases (show Value.null = w from hw)
    exact .null hn
  | scalar hn hl =>
    cases (show Value.scalar _ = w from hw)
    exact .scalar hn hl
  | constant hn =>
    cases (show Value.constant _ _ = w from hw)
    exact .constant hn
  | object hm =>
    obtain ⟨b, rfl, hR⟩ := hw.object_left
    exact .object ⟨_, hm, hR⟩

/-- Objects that stand for captured ones show the nodes of these. -/
theorem mirrored_behind (ht : types.ExtendsBuiltin) (hc : Captured h types g met)
    (hlinked : Linked types h h' R)
    (hsuits : ∀ a b o, R a b → h.get? a = some o → types.suits o.type o.body.shape)
    (hwide : ∀ a b o, R a b → h.get? a = some o → o.type.isNarrowed → ¬ h.OnCycle a) :
    Matcher.Mirrored types g h' (Behind met R) := by
  rintro b n ⟨a, hm, hR⟩
  obtain ⟨o, slots, declared, content, ho, hslots, hn, hrel⟩ := hc.holds hm
  obtain ⟨p, o', slots', slots'', hp, ho', hslots', hslots'', hclass, hrel'⟩ := hlinked a b hR
  cases ho.symm.trans hp
  cases hslots.symm.trans hslots'
  have hshape : content.slots.shape = o.body.shape := hrel.1.symm.trans (Obj.shape_of_slots? hslots)
  refine ⟨o', slots'', declared, o.type, content, ho', hslots'', hn, ⟨?_, hclass.component?, ?_⟩, ?_⟩
  · exact hclass.erasure.trans (Ty.erasure_erasure o.type)
  · -- type arguments are looked at for plain objects, and where a node is met again below itself
    rintro (hobject | hbelow)
    · have hplain := hsuits a b o hR ho
      rw [← hshape, hobject] at hplain
      rw [hclass.eq_of_suits ht hplain]
      exact types.isAssignable_publicSupertype o.type
    · refine hclass.isAssignable ht (Bool.eq_false_iff.2 fun hnarrowed => ?_)
      exact hwide a b o hR ho hnarrowed (hc.onCycle hm hbelow)
  · refine (hrel'.flip.join hrel.flip).imp ?_
    rintro w k ⟨v, hw, hv⟩
    exact shows_behind hv hw

end

end Reenact
