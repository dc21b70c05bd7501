import Mathlib
import Reenact.Proofs.Asserted
import Reenact.Proofs.Success
import Reenact.Proofs.WellFormed

/-!
The assertion generated for a captured value accepts that value.
-/

namespace Reenact

/-- Arrays are of an array class, and hold scalars only if their components are primitive; no two fields
have the same name. -/
def Obj.Regular (t : ClassTable) (o : Obj) : Prop :=
  match o.body with
  | .fields stored => (t.fieldNames o.type).Nodup ∧ (stored.map (·.1)).Nodup
  | .array items => o.type.component?.any fun component =>
      !component.isPrimitive || items.all (·.literal?.isSome)
  | _ => True

instance (t : ClassTable) (o : Obj) : Decidable (o.Regular t) :=
  match h : o.body with
  | .fields _ => decidable_of_iff (_ ∧ _) (by rw [Obj.Regular, h])
  | .array _ => decidable_of_iff (_ = true) (by rw [Obj.Regular, h])
  | .list _ | .set _ | .map _ => isTrue (by rw [Obj.Regular, h]; trivial)

/-- Every object reachable from the value can be read and is regular. -/
def Heap.Regular (h : Heap) (t : ClassTable) (v : Value) : Prop :=
  ∀ id ∈ h.reachable v, (h.get? id).any fun o => !o.locked && decide (o.Regular t)

instance (h : Heap) (t : ClassTable) (v : Value) : Decidable (h.Regular t v) :=
  inferInstanceAs (Decidable (∀ id ∈ h.reachable v, _))

theorem Heap.Regular.get? {h : Heap} {t : ClassTable} {v : Value} (hv : h.Regular t v) {id : ObjectId}
    (hid : id ∈ h.reachable v) : ∃ o, h.get? id = some o ∧ o.locked = false ∧ o.Regular t := by
  have hany := hv id hid
  cases ho : h.get? id with
  | none => simp [ho] at hany
  | some o => exact ⟨o, rfl, by simpa [ho] using hany⟩

theorem Heap.Regular.readable {h : Heap} {t : ClassTable} {v : Value} (hv : h.Regular t v) :
    h.Readable v := by
  intro id hid
  obtain ⟨o, ho, hlocked, -⟩ := hv.get? hid
  simp [ho, hlocked]

namespace Verification

open Matcher (Mirrored)

variable {h : Heap} {types : ClassTable} {g : Graph} {met : ObjectId → NodeId → Prop} {id : ObjectId}
  {n root : NodeId} {v : Value}

theorem mirrored_of_captured (hc : Captured h types g met) : Mirrored types g h met := by
  intro id n hm
  obtain ⟨o, slots, declared, content, ho, hslots, hn, hrel⟩ := hc.holds hm
  exact ⟨o, slots, declared, o.type, content, ho, hslots, hn,
    ⟨rfl, rfl, fun _ => types.isAssignable_publicSupertype o.type⟩, hrel⟩

theorem regular_of_captured (hc : Captured h types g met) (hm : met id n) {o : Obj} (ho : h.get? id = some o)
    (hregular : o.Regular types) {declared runtime : Ty} {content : Content}
    (hn : g.get? n = some (.composite declared runtime content)) :
    Regular runtime content ∧ LiteralsOnly g (.composite declared runtime content) := by
  obtain ⟨o', slots, declared', content', ho', hslots, hn', hrel⟩ := hc.holds hm
  cases ho.symm.trans ho'
  cases hn.symm.trans hn'
  have hshape : o.body.shape = content.slots.shape := (Obj.shape_of_slots? hslots).symm.trans hrel.1
  unfold Obj.slots? at hslots
  unfold Obj.Regular at hregular
  cases content with
  | list => exact ⟨trivial, trivial⟩
  | set => exact ⟨trivial, trivial⟩
  | map => exact ⟨trivial, trivial⟩
  | object fields =>
    cases hbody : o.body with
    | fields stored =>
      simp only [hbody] at hslots hregular
      split at hslots
      · cases hslots
      · cases hslots
        exact ⟨(fieldsOf_of_rel hregular.1 hregular.2 hrel.2).nodup, trivial⟩
    | _ => rw [hbody] at hshape; cases hshape
  | array elements =>
    cases hbody : o.body with
    | array items =>
      simp only [hbody] at hslots hregular
      split at hslots
      · cases hslots
      · cases hslots
        obtain ⟨component, hcomponent, hitems⟩ := (Option.any_eq_true ..).1 hregular
        refine ⟨by simp [Regular, hcomponent], fun hprimitive e he => ?_⟩
        have hscalar : ∀ v ∈ items, v.literal?.isSome := by
          have htype : (Node.composite declared o.type (.array elements)).componentType = component := by
            simp [Node.componentType, Node.runtime, hcomponent]
          rw [htype] at hprimitive
          simpa [hprimitive] using hitems
        obtain ⟨v, hv, hshows⟩ := forall₂_mem_right (Slots.rel_indexed.1 hrel) he
        cases hshows with
        | scalar hn _ => exact ⟨_, _, hn⟩
        | null => exact absurd (hscalar _ hv) (by simp [Value.literal?])
        | constant => exact absurd (hscalar _ hv) (by simp [Value.literal?])
        | object => exact absurd (hscalar _ hv) (by simp [Value.literal?])
    | _ => rw [hbody] at hshape; cases hshape

/-- What is captured of regular objects can be described. -/
theorem describable_of_captured (hc : Captured h types g met) (hshows : Shows g met v root)
    (hv : h.Regular types v) : Describable g root ∧ Writable g root := by
  have hnode : ∀ id, Leads g.children root id → ∃ n, g.get? id = some n ∧ LiteralsOnly g n ∧
      ∀ declared runtime content, n = .composite declared runtime content → Regular runtime content := by
    intro id hid
    obtain ⟨w, hw, hreach⟩ := hc.shown hshows hid
    cases hw with
    | null hn => exact ⟨_, hn, trivial, fun _ _ _ h => by cases h⟩
    | scalar hn _ => exact ⟨_, hn, trivial, fun _ _ _ h => by cases h⟩
    | constant hn => exact ⟨_, hn, trivial, fun _ _ _ h => by cases h⟩
    | object hm =>
      obtain ⟨o, ho, -, hregular⟩ := hv.get? (hreach _ rfl)
      obtain ⟨declared, runtime, content, hn⟩ := hc.get? hm
      have hboth := regular_of_captured hc hm ho hregular hn
      refine ⟨_, hn, hboth.2, ?_⟩
      rintro _ _ _ ⟨⟩
      exact hboth.1
  constructor
  · intro id hid declared runtime content hn
    obtain ⟨n, hn', -, hregular⟩ := hnode id hid
    exact hregular _ _ _ (Option.some.inj (hn'.symm.trans hn))
  · intro id hid
    obtain ⟨n, hn, hliterals, -⟩ := hnode id hid
    exact ⟨n, hn, hliterals⟩

theorem describable_of_wellFormed (hc : Captured h types g met) (hshows : Shows g met v root)
    (hv : h.WellFormed types v) : Describable g root := by
  intro id hid declared runtime content hn
  obtain ⟨w, hw, hreach⟩ := hc.shown hshows hid
  obtain ⟨a, rfl, hm⟩ := hw.exists_object hn
  obtain ⟨o, slots, declared', content', ho, hslots, hn', hrel⟩ := hc.holds hm
  cases hn.symm.trans hn'
  obtain ⟨o', ho', hwell⟩ := hv.get? (hreach _ rfl)
  cases ho.symm.trans ho'
  have hdistinct := hc.distinct hwell hslots hrel
  have hsuits := hwell.2.1
  rw [← Obj.shape_of_slots? hslots, hrel.1] at hsuits
  cases content with
  | object fields => exact FieldsOf.nodup hdistinct
  | array elements =>
    obtain ⟨component, hcomponent, -⟩ := (Option.any_eq_true ..).1 hsuits
    simp [Regular, hcomponent]
  | list => trivial
  | set => trivial
  | map => trivial

/-- A value is captured, one assertion on a local is generated from what was captured, and with the value
in the local the assertion passes. -/
theorem captured_value_accepted (hv : h.Regular types v) (declared : Ty) (g₀ : Graph) (i : Interner)
    (name : String) (scope : Scope) :
    ∃ n t st, Serialization.node ⟨h, types, Serialization.standard⟩ v declared (.start g₀ i) = (.ok n, t) ∧
      assertValue (context types t.graph) n (.loc name) (.start scope) = (.ok ⟨⟩, st) ∧
      st.statements.filterMap Stmt.subject? = [.loc name] ∧
      ((∀ s ∈ st.statements, ¬ s.Binds name) → ∀ host, ∃ m,
        Evaluate.run ⟨types, host⟩ st.statements ((Machine.start h).bindLocal name (.live v)) =
          (.ok ⟨⟩, m)) := by
  obtain ⟨n, t, hcapture, hgrows, htidy, hshows⟩ := Serialization.node_succeeds types v declared
    hv.readable (Serialization.tidy_of_identities_eq_nil rfl : Serialization.Tidy (.start g₀ i))
  have hc := hgrows.captured rfl htidy
  obtain ⟨hdescribable, hwritable⟩ := describable_of_captured hc hshows hv
  obtain ⟨_, st, hassert, -⟩ := assertValue_succeeds types hwritable (.loc name) (.start scope) rfl
  have hsubjects : st.statements.filterMap Stmt.subject? = [.loc name] := by
    obtain ⟨emitted, hemitted, honly⟩ := assertValue_asserts n (.loc name) (.start scope) ⟨⟩ st hassert
    rw [hemitted]
    exact honly
  refine ⟨n, t, st, hcapture, hassert, hsubjects, fun hfree host => ?_⟩
  have hstocked : Stocked (Describes types t.graph t.Met ((Machine.start h).bindLocal name (.live v)))
      (.start scope) ((Machine.start h).bindLocal name (.live v)) := by
    refine stocked_start fun {other p} _ => ?_
    rw [Machine.findValue?_bindLocal]
    split
    · intro heq
      cases heq
    · intro heq
      cases heq
  have hvalue : findValue? name ((Machine.start h).bindLocal name (.live v)).locals = some (.live v) := by
    rw [Machine.findValue?_bindLocal, if_pos rfl]
  obtain ⟨emitted, m, hframe, -⟩ := assertValue_leaves (c := ⟨types, host⟩)
    (describes_reading (mirrored_of_captured hc)) hstocked rfl hdescribable
    (fun p m' hp hm => hp m' hm v hshows) (local_kept hassert hvalue hfree) ⟨⟩ st hassert
  have hstatements : st.statements = emitted := hframe.statements
  exact ⟨m, hstatements ▸ hframe.run⟩

/-- A list that holds itself, and twice both a set that holds it and a wrapped one. -/
theorem captured_cycle_accepted :
    let h : Heap := ⟨#[⟨.ofClass "ArrayList", .list [.object 0, .object 1, .object 2, .object 1, .object 2], false⟩,
      ⟨.ofClass "HashSet", .set [.object 0, .scalar (.str "x")], false⟩,
      ⟨.ofClass "collections::SingletonList", .list [.object 3], false⟩,
      ⟨.array (.primitive .int), .array [.scalar (.int 1)], false⟩]⟩
    ∃ n t st, Serialization.node ⟨h, .builtin, Serialization.standard⟩ (.object 0) .object
        (.start .empty .empty) = (.ok n, t) ∧
      assertValue (context .builtin t.graph) n (.loc "value") (.start .empty) = (.ok ⟨⟩, st) ∧
      st.statements.filterMap Stmt.subject? = [.loc "value"] ∧ ∃ m, Evaluate.run (.bare .builtin) st.statements
        ((Machine.start h).bindLocal "value" (.live (.object 0))) = (.ok ⟨⟩, m) := by
  intro h
  let captured := Serialization.node ⟨h, .builtin, Serialization.standard⟩ (.object 0) .object
    (.start .empty .empty)
  obtain ⟨n, t, st, hcapture, hassert, hsubjects, hrun⟩ := captured_value_accepted
    (by decide +kernel : h.Regular .builtin (.object 0)) .object .empty .empty "value" .empty
  have hn : captured.1.toOption = some n := by rw [show captured = (.ok n, t) from hcapture]; rfl
  have hroot : captured.1.toOption = some 0 := by decide +kernel
  cases hroot.symm.trans hn
  have ht : t = captured.2 := (congrArg Prod.snd hcapture).symm
  have hst : st = (assertValue (context .builtin captured.2.graph) 0 (.loc "value") (.start .empty)).2 := by
    rw [← ht]
    exact (congrArg Prod.snd hassert).symm
  refine ⟨0, t, st, hcapture, hassert, hsubjects, hrun ?_ _⟩
  rw [hst]
  decide +kernel

end Verification

end Reenact
