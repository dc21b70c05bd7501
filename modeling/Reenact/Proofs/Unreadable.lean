import Mathlib
import Reenact.Proofs.Equivalence

/-!
Objects that cannot be read. A comparison that finds no difference has opened every object that either value
leads to: whatever an object on one side refers to has a counterpart on the other, so that a bisimulation
follows all paths from both sides. A value that leads to a locked object is therefore equal to none.
-/

namespace Reenact

/-- The objects that a value leads to, those that cannot be read not being opened. -/
inductive Heap.Sees (h : Heap) (v : Value) : ObjectId → Prop
  | root {a : ObjectId} (hroot : v = .object a) : Sees h v a
  | part {a b : ObjectId} {o : Obj} (hseen : Sees h v a) (ho : h.get? a = some o) (hopen : o.locked = false)
      (hpart : .object b ∈ o.body.values) : Sees h v b

namespace DeepEquality

variable {h : Heap} {types : ClassTable} {R : Value → Value → Prop} {v w : Value} {a b : ObjectId}

/-! ### Fields -/

section

variable {className : String} {declared : List (String × FieldDef)} {stored stored' : List (String × Value)}

/-- No field before one that holds an object has its label: what is stored under a name is shown once. -/
theorem firstWith_of_object (hstored : (stored.map (·.1)).Nodup) {e : Slot × Value}
    (he : e ∈ fieldSlots className declared stored) (hobject : e.2.object? ≠ none) :
    FirstWith (· = e.1) (fieldSlots className declared stored) e.2 := by
  induction declared generalizing stored with
  | nil =>
    have hlabels : ((fieldSlots className [] stored).map (·.1)).Nodup :=
      nodup_labels_fieldSlots className List.nodup_nil hstored
    exact firstWith_self hlabels he
  | cons d rest ih =>
    obtain ⟨owner, f⟩ := d
    rcases List.mem_cons.1 he with rfl | he
    · exact ⟨[], _, _, rfl, rfl, fun e he => (List.not_mem_nil he).elim⟩
    obtain ⟨before, label, after, heq, hlabel, hbefore⟩ := ih (nodup_dropEntry f.name hstored) he
    refine ⟨_ :: before, label, after, congrArg (_ :: ·) heq, hlabel, ?_⟩
    refine List.forall_mem_cons.2 ⟨fun hsame => ?_, hbefore⟩
    obtain ⟨name, hname, hmem⟩ := (mem_fieldSlots he).resolve_right hobject
    rw [← hsame] at hname
    cases hname
    exact notMem_dropEntry hstored (List.mem_map_of_mem hmem)

/-- Where every field has a partner among as many, the two objects have the same labels. -/
theorem labels_perm (hstored : (stored.map (·.1)).Nodup) (hstored' : (stored'.map (·.1)).Nodup)
    (hlen : (fieldSlots className declared stored).length = (fieldSlots className declared stored').length)
    (hfound : ∀ e ∈ fieldSlots className declared stored, ∃ n,
      FieldPartner e.1 (fieldSlots className declared stored') n) :
    ((fieldSlots className declared stored).map (·.1)).Perm
      ((fieldSlots className declared stored').map (·.1)) := by
  let extra (stored : List (String × Value)) : List String :=
    (stored.map (·.1)).filter (· ∉ declared.map (·.2.name))
  have hlabels := map_fst_fieldSlots className declared hstored
  have hlabels' := map_fst_fieldSlots className declared hstored'
  have hcount : (extra stored').length ≤ (extra stored).length := by
    have hsize := congrArg List.length hlabels
    have hsize' := congrArg List.length hlabels'
    simp only [List.length_append, List.length_map] at hsize hsize'
    dsimp only [extra]
    omega
  -- an undeclared field has a partner of its own label, which is not declared either
  have hsub : extra stored ⊆ extra stored' := by
    intro name hname
    have hfree : name ∉ declared.map (·.2.name) := of_decide_eq_true (List.mem_filter.1 hname).2
    have hmem : Slot.field className name .object ∈ (fieldSlots className declared stored).map (·.1) :=
      hlabels ▸ List.mem_append_right _ (List.mem_map_of_mem hname)
    obtain ⟨e, he, hlabel⟩ := List.mem_map.1 hmem
    obtain ⟨n, hpartner⟩ := hfound e he
    rcases undeclared_fieldSlots hstored' (no_standIn hstored hstored' he hpartner) with
      ⟨d, hd, heq⟩ | ⟨name', hname', -, heq⟩
    · injection hlabel.symm.trans heq with _ hsame
      exact absurd (List.mem_map.2 ⟨d, hd, hsame.symm⟩) hfree
    · injection hlabel.symm.trans heq with _ hsame
      exact List.mem_filter.2 ⟨hsame ▸ hname', decide_eq_true hfree⟩
  have hextra : (extra stored).Perm (extra stored') :=
    ((List.filter_sublist.nodup hstored).subperm hsub).perm_of_length_le hcount
  rw [hlabels, hlabels']
  exact .append_left _ (hextra.map _)

theorem fields_counterpart (hstored : (stored.map (·.1)).Nodup) (hstored' : (stored'.map (·.1)).Nodup)
    (hlen : (fieldSlots className declared stored).length = (fieldSlots className declared stored').length)
    (hfound : ∀ e ∈ fieldSlots className declared stored, ∃ n,
      FieldPartner e.1 (fieldSlots className declared stored') n ∧ AgreeLive h types R e.2 n)
    {e' : Slot × Value} (he' : e' ∈ fieldSlots className declared stored') (hobject : e'.2.object? ≠ none) :
    ∃ e ∈ fieldSlots className declared stored, AgreeLive h types R e.2 e'.2 := by
  have hlabels := labels_perm hstored hstored' hlen fun e he => (hfound e he).imp fun _ hn => hn.1
  obtain ⟨e, he, hlabel⟩ := List.mem_map.1 (hlabels.symm.subset (List.mem_map_of_mem he'))
  obtain ⟨n, hpartner, hagree⟩ := hfound e he
  rcases hpartner with hequal | ⟨hnone, -⟩
  · cases (hlabel ▸ hequal).unique (firstWith_of_object hstored' he' hobject)
    exact ⟨e, he, hagree⟩
  · exact absurd hlabel.symm (hnone e' he')

end

/-! ### Counterparts -/

/-- Each object among the one values is related to one among the others, whichever side it is on. -/
def Counterparts (R : Value → Value → Prop) (vs ws : List Value) : Prop :=
  (∀ a, .object a ∈ vs → ∃ b, .object b ∈ ws ∧ R (.object a) (.object b)) ∧
    ∀ b, .object b ∈ ws → ∃ a, .object a ∈ vs ∧ R (.object a) (.object b)

variable (h types) in
theorem counterparts_of_agree {vs ws : List Value}
    (hleft : ∀ v ∈ vs, v.object? ≠ none → ∃ w ∈ ws, AgreeLive h types R v w)
    (hright : ∀ w ∈ ws, w.object? ≠ none → ∃ v ∈ vs, AgreeLive h types R v w) : Counterparts R vs ws := by
  constructor
  · intro a ha
    obtain ⟨w, hw, hagree⟩ := hleft _ ha (Option.some_ne_none a)
    obtain ⟨_, b, -, rfl, hR⟩ := hagree.objects (.inl (Option.some_ne_none a))
    exact ⟨b, hw, hR⟩
  · intro b hb
    obtain ⟨v, hv, hagree⟩ := hright _ hb (Option.some_ne_none b)
    obtain ⟨a, _, rfl, -, hR⟩ := hagree.objects (.inr (Option.some_ne_none b))
    exact ⟨a, hv, hR⟩

theorem mem_of_mem_unzipEntries {α : Type} {xs : List α} {e : α × α} (he : e ∈ unzipEntries xs) :
    e.1 ∈ xs ∧ e.2 ∈ xs := by
  induction xs using unzipEntries.induct with
  | case1 k v rest ih =>
    rcases List.mem_cons.1 he with rfl | he
    · simp
    · exact (ih he).imp (by simp +contextual) (by simp +contextual)
  | case2 xs hno =>
    rw [unzipEntries] at he
    · cases he
    · exact hno

/-- Objects are among the values of a map whose keys are all plain. -/
theorem mem_unzipEntries_of_object {o : Obj} {slots : Slots Value} (hslots : o.slots? types = some slots)
    (hshape : slots.shape = .map) (hkeys : ∀ e ∈ unzipEntries slots.nodes, e.1.object? = none)
    (hv : v ∈ slots.nodes) (hobject : v.object? ≠ none) : ∃ e ∈ unzipEntries slots.nodes, e.2 = v := by
  rw [Obj.shape_of_slots? hslots] at hshape
  rw [Obj.nodes_of_slots? hslots (by rw [hshape]; decide)] at hkeys hv ⊢
  cases hbody : o.body with
  | map es =>
    rw [hbody, Body.values, unzipEntries_flatMap] at hkeys
    rw [hbody, Body.values] at hv
    rw [Body.values, unzipEntries_flatMap]
    obtain ⟨e, he, hmem⟩ := List.mem_flatMap.1 hv
    rcases List.mem_pair.1 hmem with rfl | rfl
    · exact absurd (hkeys e he) hobject
    · exact ⟨e, he, rfl⟩
  | _ => rw [hbody] at hshape; cases hshape

theorem Corresponds.counterpart {o : Obj} {left right : Slots Value} (hleft : o.slots? types = some left)
    (hsame : Corresponds h types R left right) (hv : v ∈ left.nodes) (hobject : v.object? ≠ none) :
    ∃ w ∈ right.nodes, AgreeLive h types R v w := by
  unfold Corresponds at hsame
  cases hshape : left.shape with
  | object =>
    simp only [hshape] at hsame
    obtain ⟨e, he, rfl⟩ := List.mem_map.1 hv
    obtain ⟨e', he', -, hagree⟩ := hsame.mem_left he
    exact ⟨e'.2, List.mem_map_of_mem he', hagree⟩
  | array | list =>
    simp only [hshape] at hsame
    exact forall₂_mem_left hsame hv
  | set =>
    simp only [hshape] at hsame
    split at hsame
    · next hplain => exact absurd (hplain v hv) hobject
    · exact forall₂_mem_left hsame hv
  | map =>
    simp only [hshape] at hsame
    split at hsame
    · next hplain =>
      obtain ⟨e, he, rfl⟩ := mem_unzipEntries_of_object hleft hshape hplain hv hobject
      obtain ⟨e', he', -, hagree⟩ := hsame.mem_left he
      exact ⟨e'.2, (mem_of_mem_unzipEntries he').2, hagree⟩
    · exact forall₂_mem_left hsame hv

theorem slots_of_shape_object {o : Obj} {slots : Slots Value} (hslots : o.slots? types = some slots)
    (hshape : slots.shape = .object) : ∃ stored, o.body = .fields stored ∧ slots =
      ⟨.object, fieldSlots (o.type.className?.getD "") (types.allFields (o.type.className?.getD "")) stored⟩ := by
  rw [Obj.shape_of_slots? hslots] at hshape
  have hlocked := Obj.unlocked_of_slots? hslots
  cases hbody : o.body with
  | fields stored =>
    simp only [Obj.slots?, hlocked, hbody] at hslots
    exact ⟨stored, rfl, (Option.some.inj hslots).symm⟩
  | _ => rw [hbody] at hshape; cases hshape

/-- Contents that agree refer to the same objects up to the relation. -/
theorem contents_cover {o o' : Obj} {left right : Slots Value} (hleft : o.slots? types = some left)
    (hright : o'.slots? types = some right) (hkeys : o.body.KeysDistinct) (hkeys' : o'.body.KeysDistinct)
    (htype : o.type.erasure = o'.type.erasure) (hshape : left.shape = right.shape)
    (hlen : left.entries.length = right.entries.length)
    (hagree : ContentsAgree (h.structure types) (h.structure types) R left right) :
    Counterparts R left.nodes right.nodes := by
  -- a class may declare a field twice, so that labels do not tell the fields of a plain object apart
  by_cases hobject : left.shape = .object
  · obtain ⟨stored, hbody, rfl⟩ := slots_of_shape_object hleft hobject
    obtain ⟨stored', hbody', rfl⟩ := slots_of_shape_object hright (hshape.symm.trans hobject)
    have hclass : o'.type.className? = o.type.className? := by
      rw [← Ty.className?_erasure, ← htype, Ty.className?_erasure]
    rw [hbody] at hkeys
    rw [hbody'] at hkeys'
    rw [hclass] at hlen hagree ⊢
    refine counterparts_of_agree h types (fun v hv _ => ?_) fun w hw hne => ?_
    · obtain ⟨e, he, rfl⟩ := List.mem_map.1 hv
      obtain ⟨n, hpartner, hpart⟩ := hagree e he
      exact ⟨n, List.mem_map_of_mem (no_standIn hkeys hkeys' he hpartner), hpart⟩
    · obtain ⟨e', he', rfl⟩ := List.mem_map.1 hw
      obtain ⟨e, he, hpart⟩ := fields_counterpart hkeys hkeys' hlen hagree he' hne
      exact ⟨e.2, List.mem_map_of_mem he, hpart⟩
  · have hsame := (contentsAgree_iff (fun heq => absurd heq hobject) hleft hright hkeys hkeys' htype hshape
      hlen).1 hagree
    refine counterparts_of_agree h types (fun v hv => hsame.counterpart hleft hv) fun w hw hne => ?_
    obtain ⟨v, hv, hback⟩ := (hsame.flip hshape).counterpart hright hw hne
    exact ⟨v, hv, hback.flip⟩

/-- Related objects can be read, and what either refers to has a counterpart. -/
theorem Bisimulation.covers (hR : Bisimulation (h.structure types) (h.structure types) R)
    (hdistinct : h.BodiesDistinct) (hab : R (.object a) (.object b)) :
    ∃ o o', h.get? a = some o ∧ h.get? b = some o' ∧ o.locked = false ∧ o'.locked = false ∧
      Counterparts R o.body.values o'.body.values := by
  obtain ⟨o, o', left, right, ho, ho', hleft, hright, htype, hshape, hlen, hagree⟩ :=
    locally_objects.1 (hR.locally _ _ hab)
  refine ⟨o, o', ho, ho', Obj.unlocked_of_slots? hleft, Obj.unlocked_of_slots? hright, ?_⟩
  have hmem : ∀ {o : Obj} {slots : Slots Value}, o.slots? types = some slots → ∀ c,
      .object c ∈ slots.nodes ↔ .object c ∈ o.body.values := by
    intro o slots hslots c
    constructor
    · intro hc
      obtain ⟨e, he, hvalue⟩ := List.mem_map.1 hc
      have hpart := Obj.mem_slots hslots he
      rw [show e.2 = .object c from hvalue] at hpart
      exact hpart.resolve_right (Option.some_ne_none c)
    · intro hc
      obtain ⟨e, he, hvalue⟩ := Obj.mem_slots_of_mem hslots hc
      exact List.mem_map.2 ⟨e, he, hvalue⟩
  have hcover := contents_cover hleft hright (hdistinct.get? ho) (hdistinct.get? ho') htype hshape hlen hagree
  simpa only [Counterparts, hmem hleft, hmem hright] using hcover

/-- The object has a counterpart, on whichever side it is. -/
def Partakes (R : Value → Value → Prop) (a : ObjectId) : Prop :=
  ∃ b, R (.object a) (.object b) ∨ R (.object b) (.object a)

theorem Bisimulation.partakes (hR : Bisimulation (h.structure types) (h.structure types) R)
    (hdistinct : h.BodiesDistinct) (ha : Partakes R a) :
    ∃ o, h.get? a = some o ∧ o.locked = false ∧ ∀ c, .object c ∈ o.body.values → Partakes R c := by
  obtain ⟨b, hab | hba⟩ := ha
  · obtain ⟨o, _, ho, -, hopen, -, hcover⟩ := hR.covers hdistinct hab
    exact ⟨o, ho, hopen, fun c hc => (hcover.1 c hc).imp fun _ hd => .inl hd.2⟩
  · obtain ⟨_, o, -, ho, -, hopen, hcover⟩ := hR.covers hdistinct hba
    exact ⟨o, ho, hopen, fun c hc => (hcover.2 c hc).imp fun _ hd => .inr hd.2⟩

/-- A bisimulation follows every path from where it starts. -/
theorem Bisimulation.partakes_of_sees (hR : Bisimulation (h.structure types) (h.structure types) R)
    (hdistinct : h.BodiesDistinct) (hstart : ∀ a, v = .object a → Partakes R a) (hseen : h.Sees v a) :
    Partakes R a := by
  induction hseen with
  | root hroot => exact hstart _ hroot
  | part _ ho _ hpart ih =>
    obtain ⟨o, ho', -, hparts⟩ := hR.partakes hdistinct ih
    cases ho.symm.trans ho'
    exact hparts _ hpart

/-- Values that are found equal lead to objects that can be read only. -/
theorem unlocked_of_equal (hdistinct : h.BodiesDistinct) (hequal : h.equal types v w = true)
    (hseen : h.Sees v a ∨ h.Sees w a) {o : Obj} (ho : h.get? a = some o) : o.locked = false := by
  obtain ⟨R, hR, hagree⟩ := bisimulation_of_equals hequal
  have ha : Partakes R a := by
    rcases hseen with hseen | hseen
    · refine hR.partakes_of_sees hdistinct ?_ hseen
      rintro c rfl
      obtain ⟨_, b, ⟨⟩, rfl, hcb⟩ := AgreeLive.objects hagree (.inl (Option.some_ne_none c))
      exact ⟨b, .inl hcb⟩
    · refine hR.partakes_of_sees hdistinct ?_ hseen
      rintro c rfl
      obtain ⟨b, _, rfl, ⟨⟩, hbc⟩ := AgreeLive.objects hagree (.inr (Option.some_ne_none c))
      exact ⟨b, .inr hbc⟩
  obtain ⟨o', ho', hopen, -⟩ := hR.partakes hdistinct ha
  cases ho.symm.trans ho'
  exact hopen

/-- Where no map holds a key twice, a value that leads through objects that can be read to one that is
locked is equal to no value, itself included, from neither side. -/
theorem locked_never_equal (types : ClassTable) (hdistinct : h.BodiesDistinct) {o : Obj}
    (hseen : h.Sees v a ∨ h.Sees w a) (ho : h.get? a = some o) (hlocked : o.locked = true) :
    h.equal types v w = false ∧ h.equal types w v = false := by
  have hnot : ∀ {v w : Value}, h.Sees v a ∨ h.Sees w a → ¬ h.equal types v w = true := by
    intro v w hseen hequal
    have hopen := unlocked_of_equal hdistinct hequal hseen ho
    rw [hlocked] at hopen
    cases hopen
  exact ⟨Bool.eq_false_iff.2 (hnot hseen), Bool.eq_false_iff.2 (hnot hseen.symm)⟩

/-- A map that is part of a list that is its only value, beside a copy. The list holds a locked object, the
copy one that is not. -/
theorem locked_ring_never_equal :
    let types := ClassTable.builtin
    let map (value : ObjectId) : Obj :=
      ⟨.ofClass "HashMap", .map [(.scalar (.str "all"), .object value)], false⟩
    let list (ring item : ObjectId) : Obj := ⟨.ofClass "ArrayList", .list [.object ring, .object item], false⟩
    let item (locked : Bool) : Obj := ⟨.ofClass "Item", .fields [], locked⟩
    let h : Heap := ⟨#[map 1, list 0 2, item true, map 4, list 3 5, item false]⟩
    h.BodiesDistinct ∧ h.Sees (.object 0) 2 ∧ h.equal types (.object 3) (.object 3) = true ∧
      h.equal types (.object 0) (.object 0) = false ∧
      h.equal types (.object 0) (.object 3) = false ∧ h.equal types (.object 3) (.object 0) = false := by
  intro types map list item h
  have hdistinct : h.BodiesDistinct := by decide +kernel
  have hlist : h.Sees (.object 0) 1 := .part (.root rfl) (o := map 1) rfl rfl (by decide)
  have hseen : h.Sees (.object 0) 2 := .part hlist (o := list 0 2) rfl rfl (by decide)
  exact ⟨hdistinct, hseen, by decide +kernel,
    (locked_never_equal types hdistinct (.inl hseen) (o := item true) rfl rfl).1,
    locked_never_equal types hdistinct (.inl hseen) (o := item true) rfl rfl⟩

end DeepEquality

end Reenact
