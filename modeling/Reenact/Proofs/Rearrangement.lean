import Mathlib
import Reenact.Proofs.Equivalence
import Reenact.Proofs.Isomorphism

/-!
Copies that hold things in another order. In a copy of a value the elements of a set may stand in any order
if none is an object, and so may the entries of a map if no key is. Deep equality finds no difference,
wherever in the value that is: objects stand for their copies, and the contents of the two correspond.
-/

namespace Reenact

/-- The contents of a copy, where `R` tells which object is a copy of which. -/
inductive Body.Rearranged (R : ObjectId → ObjectId → Prop) : Body → Body → Prop
  | fields {stored stored' : List (String × Value)}
      (hstored : Matched (fun x y => x.1 = y.1 ∧ Renamed R x.2 y.2) stored stored') :
      Rearranged R (.fields stored) (.fields stored')
  | array {items items' : List Value} (hitems : List.Forall₂ (Renamed R) items items') :
      Rearranged R (.array items) (.array items')
  | list {items items' : List Value} (hitems : List.Forall₂ (Renamed R) items items') :
      Rearranged R (.list items) (.list items')
  | set {items items' : List Value} (hitems : List.Forall₂ (Renamed R) items items') :
      Rearranged R (.set items) (.set items')
  | plainSet {items items' : List Value} (hplain : ∀ v ∈ items, v.object? = none) (hitems : items.Perm items') :
      Rearranged R (.set items) (.set items')
  | map {entries entries' : List (Value × Value)}
      (hentries : List.Forall₂ (fun x y => Renamed R x.1 y.1 ∧ Renamed R x.2 y.2) entries entries') :
      Rearranged R (.map entries) (.map entries')
  | plainMap {entries entries' : List (Value × Value)} (hplain : ∀ e ∈ entries, e.1.object? = none)
      (hentries : Matched (fun x y => x.1 = y.1 ∧ Renamed R x.2 y.2) entries entries') :
      Rearranged R (.map entries) (.map entries')

/-- The one value is a copy of the other, with the same sharing and the same cycles, up to the order in
which sets of plain values and maps with plain keys hold what they hold. -/
structure Heap.RearrangedCopy (h : Heap) (v w : Value) (R : ObjectId → ObjectId → Prop) : Prop where
  value : Renamed R v w
  object : ∀ a b, R a b → ∃ o o', h.get? a = some o ∧ h.get? b = some o' ∧ o'.type = o.type ∧
    o.body.Rearranged R o'.body
  unique : Relator.BiUnique R

theorem Renamed.eq_of_plain {R : ObjectId → ObjectId → Prop} {v w : Value} (hvw : Renamed R v w)
    (hv : v.object? = none) : v = w := by
  cases v with
  | object => cases hv
  | null | scalar | constant => exact hvw

namespace DeepEquality

variable {h : Heap} {types : ClassTable} {R : ObjectId → ObjectId → Prop} {v w : Value}

/-- Objects of which the one is a copy of the other. -/
def Copied (R : ObjectId → ObjectId → Prop) (v w : Value) : Prop :=
  ∃ a b, v = .object a ∧ w = .object b ∧ R a b

/-- The slots of objects that store the same fields, in whatever order. -/
theorem fieldSlots_matched {P : Value → Value → Prop} (hdefault : ∀ t, P (.default t) (.default t))
    (className : String) (declared : List (String × FieldDef)) {stored stored' : List (String × Value)}
    (hstored : (stored.map (·.1)).Nodup) (hstored' : (stored'.map (·.1)).Nodup)
    (hmatched : Matched (fun x y => x.1 = y.1 ∧ P x.2 y.2) stored stored') :
    Matched (fun x y => x.1 = y.1 ∧ P x.2 y.2) (fieldSlots className declared stored)
      (fieldSlots className declared stored') := by
  induction declared generalizing stored stored' with
  | nil => exact hmatched.map fun x y hxy => ⟨congrArg (Slot.field className · .object) hxy.1, hxy.2⟩
  | cons d rest ih =>
    obtain ⟨owner, f⟩ := d
    have hvalue : P ((findValue? f.name stored).getD (.default f.type))
        ((findValue? f.name stored').getD (.default f.type)) := by
      obtain ⟨between, hrel, hperm⟩ := hmatched
      rw [← findValue?_perm ((hperm.map _).nodup_iff.2 hstored') hperm]
      exact rel_getD (findValue?_forall₂ hrel fun hname => by rw [hname]) (hdefault f.type)
    refine .cons ⟨rfl, hvalue⟩ (ih (nodup_dropEntry f.name hstored) (nodup_dropEntry f.name hstored') ?_)
    rw [dropEntry_eq_filter hstored, dropEntry_eq_filter hstored']
    exact hmatched.filter fun x y hxy => by rw [hxy.1]

section

variable (hlive : ∀ a b, R a b → a < h.size ∧ b < h.size)
include hlive

theorem agree_of_renamed (hvw : Renamed R v w) : AgreeLive h types (Copied R) v w := by
  cases v with
  | object a =>
    obtain ⟨b, rfl, hab⟩ := hvw.object_left
    obtain ⟨ha, hb⟩ := hlive a b hab
    exact agreeLive_iff.2 (.inl ⟨⟨Heap.identity_isSome.2 ha, Heap.identity_isSome.2 hb⟩, a, b, rfl, rfl, hab⟩)
  | null | scalar | constant => exact agreeLive_iff.2 (.inr ⟨rfl, hvw⟩)

/-- Contents that are copied in order correspond, those that may be rearranged too. -/
theorem corresponds_of_rel {left right : Slots Value} (hrel : Slots.Rel (Renamed R) left right) :
    Corresponds h types (Copied R) left right := by
  have hnodes : List.Forall₂ (AgreeLive h types (Copied R)) left.nodes right.nodes :=
    hrel.nodes.imp fun _ _ hvw => agree_of_renamed hlive hvw
  unfold Corresponds
  cases left.shape with
  | object => exact ⟨right.entries, hrel.2.imp fun _ _ hxy => ⟨hxy.1, agree_of_renamed hlive hxy.2⟩, .refl _⟩
  | array | list => exact hnodes
  | set =>
    dsimp only
    split
    · next hplain =>
      have hsame := ((List.forall₂_and_left _ _).2 ⟨hplain, hrel.nodes⟩).imp fun _ _ hvw => hvw.2.eq_of_plain hvw.1
      rw [List.forall₂_eq_eq_eq] at hsame
      exact hsame ▸ .refl _
    · exact hnodes
  | map =>
    dsimp only
    split
    · next hplain =>
      have hentries := (List.forall₂_and_left _ _).2 ⟨hplain, unzipEntries_forall₂ hrel.nodes⟩
      exact ⟨_, hentries.imp fun _ _ hxy => ⟨hxy.2.1.eq_of_plain hxy.1, agree_of_renamed hlive hxy.2.2⟩, .refl _⟩
    · exact hnodes

theorem corresponds_of_rearranged {o o' : Obj} {left right : Slots Value} (hleft : o.slots? types = some left)
    (hright : o'.slots? types = some right) (htype : o'.type = o.type) (hkeys : o.body.KeysDistinct)
    (hkeys' : o'.body.KeysDistinct) (hbody : o.body.Rearranged R o'.body) :
    left.shape = right.shape ∧ left.entries.length = right.entries.length ∧
      Corresponds h types (Copied R) left right := by
  have hrelated : Slots.Rel (Renamed R) left right → left.shape = right.shape ∧
      left.entries.length = right.entries.length ∧ Corresponds h types (Copied R) left right :=
    fun hrel => ⟨hrel.1, hrel.2.length_eq, corresponds_of_rel hlive hrel⟩
  have hlocked := Obj.unlocked_of_slots? hleft
  have hlocked' := Obj.unlocked_of_slots? hright
  obtain ⟨type, body, locked⟩ := o
  obtain ⟨type', body', locked'⟩ := o'
  subst htype hlocked hlocked'
  cases hbody with
  | fields hstored =>
    cases hleft
    cases hright
    have hslots := fieldSlots_matched (P := AgreeLive h types (Copied R))
      (fun t => agreeLive_iff.2 (.inr ⟨Value.object?_default t, rfl⟩)) (type'.className?.getD "")
      (types.allFields (type'.className?.getD "")) hkeys hkeys'
      (hstored.imp fun _ _ hxy => ⟨hxy.1, agree_of_renamed hlive hxy.2⟩)
    exact ⟨rfl, hslots.length_eq, hslots⟩
  | array hitems | list hitems | set hitems =>
    cases hleft
    cases hright
    exact hrelated (Slots.rel_indexed.2 hitems)
  | map hentries =>
    cases hleft
    cases hright
    exact hrelated (Slots.rel_keyed.2 hentries)
  | plainSet hplain hitems =>
    cases hleft
    cases hright
    refine ⟨rfl, by simpa [Slots.indexed] using hitems.length_eq, ?_⟩
    simp only [Corresponds, Slots.shape_indexed, Slots.nodes_indexed]
    rw [if_pos hplain]
    exact hitems
  | plainMap hplain hentries =>
    cases hleft
    cases hright
    refine ⟨rfl, by rw [Slots.length_keyed, Slots.length_keyed, hentries.length_eq], ?_⟩
    simp only [Corresponds, Slots.shape_keyed, unzipEntries_keyed]
    rw [if_pos hplain]
    exact hentries.imp fun _ _ hxy => ⟨hxy.1, agree_of_renamed hlive hxy.2⟩

end

/-- Where no class declares a field twice, no map holds a key twice and nothing is locked, a value is deeply
equal to its copies, however sets of plain values and maps with plain keys are rearranged in them. -/
theorem rearranged_equal (hfields : types.FieldsDistinct) (hdistinct : h.BodiesDistinct)
    (hunlocked : ∀ o ∈ h.objects, o.locked = false) (hcopy : h.RearrangedCopy v w R) :
    h.equal types v w = true := by
  have hlive : ∀ a b, R a b → a < h.size ∧ b < h.size := by
    intro a b hab
    obtain ⟨o, o', ho, ho', -⟩ := hcopy.object a b hab
    exact ⟨Heap.get?_isSome.1 (by rw [ho]; rfl), Heap.get?_isSome.1 (by rw [ho']; rfl)⟩
  have hslots : ∀ {a o}, h.get? a = some o → ∃ slots, o.slots? types = some slots := fun ho =>
    Obj.exists_slots? types (hunlocked _ (Array.mem_of_getElem? ho))
  refine equals_of_bisimulation (R := Copied R) ⟨?_, ?_⟩ (agree_of_renamed hlive hcopy.value)
  · rintro _ _ ⟨a, b, rfl, rfl, hab⟩
    obtain ⟨ha, hb⟩ := hlive a b hab
    exact ⟨Heap.identity_isSome.2 ha, Heap.identity_isSome.2 hb⟩
  · rintro _ _ ⟨a, b, rfl, rfl, hab⟩
    obtain ⟨o, o', ho, ho', htype, hbody⟩ := hcopy.object a b hab
    obtain ⟨left, hleft⟩ := hslots ho
    obtain ⟨right, hright⟩ := hslots ho'
    have hkeys := hdistinct.get? ho
    have hkeys' := hdistinct.get? ho'
    obtain ⟨hshape, hlen, hsame⟩ := corresponds_of_rearranged hlive hleft hright htype hkeys hkeys' hbody
    have herasure : o.type.erasure = o'.type.erasure := by rw [htype]
    refine locally_objects.2 ⟨o, o', left, right, ho, ho', hleft, hright, herasure, hshape, hlen, ?_⟩
    exact (contentsAgree_iff (fun _ => hfields) hleft hright hkeys hkeys' herasure hshape hlen).2 hsame

/-- Two rings of an object and a map that refers back to it. The second map holds its entries in another
order, and so does the set that it holds besides. -/
theorem rearranged_ring_equal :
    let types := ClassTable.builtin.registerAll [(ClassDef.concrete "Shelf").withField "index" .object]
    let shelf (index : ObjectId) : Obj := ⟨.ofClass "Shelf", .fields [("index", .object index)], false⟩
    let index (entries : List (Value × Value)) : Obj := ⟨.ofClass "HashMap", .map entries, false⟩
    let tags (items : List Value) : Obj := ⟨.ofClass "HashSet", .set items, false⟩
    let h : Heap := ⟨#[shelf 1, index [(.scalar (.str "up"), .object 0), (.null, .object 2)],
      tags [.null, .constant "Color" "RED", .scalar (.int 7)],
      shelf 4, index [(.null, .object 5), (.scalar (.str "up"), .object 3)],
      tags [.scalar (.int 7), .null, .constant "Color" "RED"]]⟩
    types.FieldsDistinct ∧ h.BodiesDistinct ∧ (∀ o ∈ h.objects, o.locked = false) ∧
      h.RearrangedCopy (.object 0) (.object 3) (fun a b : Nat => b = a + 3 ∧ a < 3) ∧
      h.equal types (.object 0) (.object 3) = true := by
  intro types shelf index tags h
  have hfields : types.FieldsDistinct := by decide +kernel
  have hdistinct : h.BodiesDistinct := by decide +kernel
  have hunlocked : ∀ o ∈ h.objects, o.locked = false := by decide
  have hcopy : h.RearrangedCopy (.object 0) (.object 3) fun a b : Nat => b = a + 3 ∧ a < 3 := by
    refine ⟨⟨rfl, by decide⟩, ?_, ?_⟩
    · rintro (a : Nat) _ ⟨rfl, ha⟩
      obtain rfl | rfl | rfl : a = 0 ∨ a = 1 ∨ a = 2 := by omega
      · refine ⟨shelf 1, shelf 4, rfl, rfl, rfl, .fields ⟨_, ?_, .refl _⟩⟩
        exact .cons ⟨rfl, rfl, by decide⟩ .nil
      · refine ⟨index _, index _, rfl, rfl, rfl, .plainMap (by decide) ⟨[_, _], ?_, .swap _ _ _⟩⟩
        exact .cons ⟨rfl, rfl, by decide⟩ (.cons ⟨rfl, rfl, by decide⟩ .nil)
      · exact ⟨tags _, tags _, rfl, rfl, rfl, .plainSet (by decide) (by decide)⟩
    · constructor
      · rintro a a' b ⟨hb, -⟩ ⟨hb', -⟩
        exact Nat.add_right_cancel (hb.symm.trans hb')
      · rintro a b b' ⟨hb, -⟩ ⟨hb', -⟩
        exact hb.trans hb'.symm
  exact ⟨hfields, hdistinct, hunlocked, hcopy, rearranged_equal hfields hdistinct hunlocked hcopy⟩

end DeepEquality

end Reenact
