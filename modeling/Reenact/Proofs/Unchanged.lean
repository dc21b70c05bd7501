import Mathlib
import Reenact.Proofs.Lineage
import Reenact.Proofs.Views

/-!
A value before and after nothing has happened to it. Deep equality finds no difference as long as it can
tell the parts of each object apart: no map holds a key twice and no class declares a field twice.
-/

namespace Reenact

/-! ### Fields in a class of their own -/

namespace ClassTable

variable {t : ClassTable}

def FieldsDistinct (t : ClassTable) : Prop := ∀ d ∈ t.classes, (d.fields.map (·.name)).Nodup

instance (t : ClassTable) : Decidable t.FieldsDistinct :=
  inferInstanceAs (Decidable (∀ d ∈ t.classes, _))

/-- A field is told by the class that declares it and its name. -/
theorem FieldsDistinct.allFields (ht : t.FieldsDistinct) (name : String) :
    ((t.allFields name).map fun d => (d.1, d.2.name)).Nodup := by
  have hlineage := lineage_superclassChain t name
  unfold ClassTable.allFields
  rw [List.map_flatMap, List.nodup_flatMap]
  constructor
  · intro d hd
    have hfields := ht d (hlineage.mem_classes (List.mem_reverse.1 hd))
    have hnames : ((d.fields.filter (!·.isStatic)).map (·.name)).Nodup :=
      (List.filter_sublist.map _).nodup hfields
    rw [List.map_map]
    refine List.Nodup.of_map Prod.snd ?_
    rwa [List.map_map]
  · have hdistinct : (t.superclassChain t.size [] name).reverse.Pairwise fun d d' => d.name ≠ d'.name := by
      rw [List.pairwise_reverse]
      exact (List.pairwise_map.1 hlineage.nodup).imp Ne.symm
    refine hdistinct.imp fun hne => ?_
    rintro ⟨owner, field⟩ hleft hright
    simp only [List.mem_map] at hleft hright
    obtain ⟨_, ⟨f, -, rfl⟩, hleft⟩ := hleft
    obtain ⟨_, ⟨f', -, rfl⟩, hright⟩ := hright
    exact hne ((congrArg Prod.fst hleft).trans (congrArg Prod.fst hright).symm)

end ClassTable

/-- No two slots of a plain object have one label, even where a class redeclares an inherited field. -/
theorem nodup_labels_fieldSlots (className : String) {declared : List (String × FieldDef)}
    {stored : List (String × Value)} (hdeclared : (declared.map fun d => (d.1, d.2.name)).Nodup)
    (hstored : (stored.map (·.1)).Nodup) : ((fieldSlots className declared stored).map (·.1)).Nodup := by
  rw [map_fst_fieldSlots className declared hstored]
  refine List.nodup_append.2 ⟨?_, ?_, ?_⟩
  · refine (List.nodup_map_iff_inj_on hdeclared.of_map).2 fun d hd d' hd' heq => ?_
    injection heq with howner hname
    exact List.inj_on_of_nodup_map hdeclared hd hd' (Prod.ext howner hname)
  · exact (List.filter_sublist.nodup hstored).map fun name name' heq => by injection heq
  · rintro _ hlabel _ hextra rfl
    obtain ⟨d, hd, rfl⟩ := List.mem_map.1 hlabel
    obtain ⟨name, hname, heq⟩ := List.mem_map.1 hextra
    injection heq with _ hsame
    exact of_decide_eq_true (List.mem_filter.1 hname).2 (List.mem_map.2 ⟨d, hd, hsame.symm⟩)

/-! ### Values that stay as they are -/

/-- No field is stored twice and no key is held twice. -/
def Body.KeysDistinct : Body → Prop
  | .fields stored => (stored.map (·.1)).Nodup
  | .map entries => (entries.map (·.1)).Nodup
  | _ => True

instance : (body : Body) → Decidable body.KeysDistinct
  | .fields _ => inferInstanceAs (Decidable (List.Nodup _))
  | .array _ => inferInstanceAs (Decidable True)
  | .list _ => inferInstanceAs (Decidable True)
  | .set _ => inferInstanceAs (Decidable True)
  | .map _ => inferInstanceAs (Decidable (List.Nodup _))

/-- No map holds a key twice. Nor does an object hold a field twice, which storing fields cannot bring about. -/
def Heap.BodiesDistinct (h : Heap) : Prop := ∀ o ∈ h.objects, o.body.KeysDistinct

instance (h : Heap) : Decidable h.BodiesDistinct := inferInstanceAs (Decidable (∀ o ∈ h.objects, _))

theorem Heap.BodiesDistinct.get? {h : Heap} (hdistinct : h.BodiesDistinct) {a : ObjectId} {o : Obj}
    (ho : h.get? a = some o) : o.body.KeysDistinct :=
  hdistinct o (Array.mem_of_getElem? ho)

theorem Heap.identity_isSome {h : Heap} {a : ObjectId} : (h.identity (.object a)).isSome ↔ a < h.size := by
  simp [identity]

/-- The objects reachable from the value can be read, and tell their parts apart. -/
def Heap.KeysDistinct (h : Heap) (v : Value) : Prop :=
  ∀ a ∈ h.reachable v, (h.get? a).any fun o => !o.locked && decide o.body.KeysDistinct

instance (h : Heap) (v : Value) : Decidable (h.KeysDistinct v) := inferInstanceAs (Decidable (∀ a ∈ h.reachable v, _))

/-- The objects that were reachable from the value are as they were. -/
def Heap.Unchanged (before after : Heap) (v : Value) : Prop :=
  ∀ a ∈ before.reachable v, after.get? a = before.get? a

namespace DeepEquality

variable {types : ClassTable} {before after : Heap} {v w : Value} {a : ObjectId} {o : Obj}
  {slots : Slots Value} {R : Value → Value → Prop}

/-- A part is unchanged: if it is an object, that one is in both heaps. -/
def Kept (before after : Heap) (R : Value → Value → Prop) (w : Value) : Prop :=
  ∀ a, w = .object a → R w w ∧ a < before.size ∧ a < after.size

theorem Kept.agree (h : Kept before after R w) :
    Agree (before.structure types) (after.structure types) R w w := by
  unfold Agree
  cases w with
  | object a =>
    obtain ⟨hR, hlt, hlt'⟩ := h a rfl
    rw [if_pos ⟨Heap.identity_isSome.2 hlt, Heap.identity_isSome.2 hlt'⟩]
    exact hR
  | null => exact ⟨.null, rfl, rfl⟩
  | scalar l => exact ⟨.scalar l, rfl, rfl⟩
  | constant type name => exact ⟨.constant type name, rfl, rfl⟩

variable (types) in
theorem Kept.plain? (h : Kept before after R w) :
    (before.structure types).plain? w = (after.structure types).plain? w := by
  cases w with
  | object a =>
    obtain ⟨-, hlt, hlt'⟩ := h a rfl
    simp [Structure.plain?, Heap.structure, Heap.identity, hlt, hlt']
  | null => rfl
  | scalar l => rfl
  | constant type name => rfl

/-- Plain values are told apart by what they show. -/
theorem eq_of_plain?_eq {h h' : Heap} (hv : ((h.structure types).plain? v).isSome)
    (heq : (h'.structure types).plain? w = (h.structure types).plain? v) : w = v := by
  obtain ⟨p, hp⟩ := Option.isSome_iff_exists.1 hv
  rw [hp] at heq
  have hshown := (plain?_eq_some.1 hp).2
  have hshown' := (plain?_eq_some.1 heq).2
  have hobject : ∀ {h : Heap} {a : ObjectId}, (h.structure types).inspect (.object a) ≠ .plain p := by
    intro h a heq
    simp only [Heap.structure, Heap.inspect] at heq
    split at heq
    · cases heq
    · split at heq <;> cases heq
  cases v with
  | object => exact absurd hshown hobject
  | _ =>
    cases w with
    | object => exact absurd hshown' hobject
    | _ =>
      injection hshown with hshown
      injection hshown' with hshown'
      cases hshown.trans hshown'.symm <;> rfl

theorem firstWith_self {entries : List (Slot × Value)} (hlabels : (entries.map (·.1)).Nodup)
    {e : Slot × Value} (he : e ∈ entries) : FirstWith (· = e.1) entries e.2 := by
  obtain ⟨front, back, rfl⟩ := List.append_of_mem he
  refine ⟨front, e.1, back, rfl, rfl, fun x hx heq => ?_⟩
  rw [List.map_append, List.map_cons] at hlabels
  exact (List.nodup_append.1 hlabels).2.2 x.1 (List.mem_map_of_mem hx) e.1 List.mem_cons_self heq

theorem lastUnder_self {entries : List (Value × Value)} (hkeys : (entries.map (·.1)).Nodup)
    (hkept : ∀ e ∈ entries, Kept before after R e.1) (hplain : AllPlain (before.structure types) (entries.map (·.1)))
    {e : Value × Value} (he : e ∈ entries) :
    LastUnder (before.structure types) (after.structure types) e.1 entries e.2 := by
  have hsome := hplain e.1 (List.mem_map_of_mem he)
  have hsame := (hkept e he).plain? types
  obtain ⟨front, back, rfl⟩ := List.append_of_mem he
  refine ⟨front, e.1, back, rfl, hsame.symm, fun x hx heq => ?_⟩
  rw [List.map_append, List.map_cons] at hkeys
  have hback := (List.nodup_append.1 hkeys).2.1
  exact (List.nodup_cons.1 hback).1 (eq_of_plain?_eq hsome heq ▸ List.mem_map_of_mem hx)

/-- The contents of an object agree with themselves if its parts do. -/
theorem contentsAgree_self (hfields : types.FieldsDistinct) (hkeys : o.body.KeysDistinct)
    (hslots : o.slots? types = some slots) (hkept : ∀ w ∈ slots.nodes, Kept before after R w) :
    ContentsAgree (before.structure types) (after.structure types) R slots slots := by
  have hagree : List.Forall₂ (Agree (before.structure types) (after.structure types) R) slots.nodes slots.nodes :=
    List.forall₂_same.2 fun w hw => (hkept w hw).agree
  have hlocked := Obj.unlocked_of_slots? hslots
  obtain ⟨type, body, locked⟩ := o
  subst hlocked
  unfold ContentsAgree
  cases body with
  | array items =>
    cases hslots
    exact hagree
  | list items =>
    cases hslots
    exact hagree
  | set items =>
    cases hslots
    simp only [Slots.shape_indexed]
    split
    · rw [List.map_congr_left fun w hw => (hkept w hw).plain? types]
    · exact hagree
  | map es =>
    cases hslots
    have hpart : ∀ e ∈ es, e.1 ∈ (Slots.keyed es).nodes ∧ e.2 ∈ (Slots.keyed es).nodes := by
      intro e he
      rw [Slots.nodes_keyed]
      exact ⟨List.mem_flatMap.2 ⟨e, he, by simp⟩, List.mem_flatMap.2 ⟨e, he, by simp⟩⟩
    simp only [Slots.shape_keyed, unzipEntries_keyed]
    split
    · next hplain =>
      intro e he
      exact ⟨e.2, lastUnder_self hkeys (fun e he => hkept e.1 (hpart e he).1) hplain.1 he,
        (hkept e.2 (hpart e he).2).agree⟩
    · exact hagree
  | fields stored =>
    cases hslots
    intro e he
    have hlabels := nodup_labels_fieldSlots (type.className?.getD "")
      (hfields.allFields (type.className?.getD "")) hkeys
    exact ⟨e.2, .inl (firstWith_self hlabels he), (hkept e.2 (List.mem_map_of_mem he)).agree⟩

/-- A value none of whose objects has changed is deeply equal to what it was. -/
theorem equals_of_unchanged (hfields : types.FieldsDistinct) (hdistinct : before.KeysDistinct v)
    (hsame : before.Unchanged after v) :
    equals (before.structure types) (after.structure types) v v = true := by
  let R : Value → Value → Prop := fun l r => l = r ∧ ∃ a ∈ before.reachable v, l = .object a
  have hobject : ∀ a ∈ before.reachable v, ∃ o slots, before.get? a = some o ∧ after.get? a = some o ∧
      o.slots? types = some slots ∧ o.body.KeysDistinct := by
    intro a ha
    have hany := hdistinct a ha
    cases ho : before.get? a with
    | none => rw [ho] at hany; cases hany
    | some o =>
      simp only [ho, Option.any_some, Bool.and_eq_true, Bool.not_eq_true', decide_eq_true_eq] at hany
      obtain ⟨slots, hslots⟩ := Obj.exists_slots? types hany.1
      exact ⟨o, slots, rfl, (hsame a ha).trans ho, hslots, hany.2⟩
  have hkept : ∀ a ∈ before.reachable v, Kept before after R (.object a) := by
    rintro a ha _ ⟨⟩
    obtain ⟨o, -, ho, ho', -, -⟩ := hobject a ha
    exact ⟨⟨rfl, a, ha, rfl⟩, Heap.get?_isSome.1 (by rw [ho]; rfl), Heap.get?_isSome.1 (by rw [ho']; rfl)⟩
  have hpart : ∀ a ∈ before.reachable v, ∀ o slots, before.get? a = some o → o.slots? types = some slots →
      ∀ w ∈ slots.nodes, Kept before after R w := by
    intro a ha o slots ho hslots w hw b hb
    obtain ⟨e, he, rfl⟩ := List.mem_map.1 hw
    refine hb ▸ hkept b ?_ b rfl
    obtain ⟨root, rfl, hlead⟩ := Heap.mem_reachable.1 ha
    refine Heap.mem_reachable.2 ⟨root, rfl, hlead.tail ?_⟩
    rw [Heap.references_of_get? ho]
    rcases Obj.mem_slots hslots he with hmem | hnone
    · exact List.mem_filterMap.2 ⟨e.2, hmem, by rw [hb]; rfl⟩
    · rw [hb] at hnone
      cases hnone
  refine equals_of_bisimulation (R := R) ⟨?_, ?_⟩ (Kept.agree ?_)
  · rintro _ _ ⟨rfl, a, ha, rfl⟩
    obtain ⟨-, hlt, hlt'⟩ := hkept a ha a rfl
    exact ⟨Heap.identity_isSome.2 hlt, Heap.identity_isSome.2 hlt'⟩
  · rintro _ _ ⟨rfl, a, ha, rfl⟩
    obtain ⟨o, slots, ho, ho', hslots, hkeys⟩ := hobject a ha
    have hcontents := contentsAgree_self hfields hkeys hslots (hpart a ha o slots ho hslots)
    simpa [Locally, Heap.structure, Heap.inspect, ho, ho', hslots] using hcontents
  · rintro a rfl
    exact hkept a (Heap.mem_reachable.2 ⟨a, rfl, .refl⟩) a rfl

end DeepEquality

end Reenact
