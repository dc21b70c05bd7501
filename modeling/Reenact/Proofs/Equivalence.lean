import Mathlib
import Reenact.Class.Builtin
import Reenact.Proofs.Unchanged
import Reenact.Proofs.WellFormed

/-!
Deep equality of live values is an equivalence. Its rules look on the right for what the left side has.
Where both sides tell their parts apart and have as many, every part has one counterpart, so that the
rules can be read from either side, and one after the other.
-/

namespace Reenact

/-! ### Labels of one class -/

theorem Ty.className?_erasure (t : Ty) : t.erasure.className? = t.className? := by
  cases t <;> rfl

theorem declared_fieldSlots (className : String) {declared : List (String × FieldDef)}
    {d : String × FieldDef} (hd : d ∈ declared) {stored : List (String × Value)}
    (hstored : (stored.map (·.1)).Nodup) :
    ∃ v, (Slot.field d.1 d.2.name d.2.type, v) ∈ fieldSlots className declared stored := by
  have hlabel : Slot.field d.1 d.2.name d.2.type ∈ (fieldSlots className declared stored).map (·.1) := by
    rw [map_fst_fieldSlots className declared hstored]
    exact List.mem_append_left _ (List.mem_map.2 ⟨d, hd, rfl⟩)
  obtain ⟨⟨_, v⟩, hv, rfl⟩ := List.mem_map.1 hlabel
  exact ⟨v, hv⟩

/-- A slot that is not of a declared field has a name that none of these has. -/
theorem undeclared_fieldSlots {className : String} {declared : List (String × FieldDef)}
    {stored : List (String × Value)} (hstored : (stored.map (·.1)).Nodup) {e : Slot × Value}
    (he : e ∈ fieldSlots className declared stored) :
    (∃ d ∈ declared, e.1 = .field d.1 d.2.name d.2.type) ∨
      ∃ name ∈ stored.map (·.1), (∀ d ∈ declared, d.2.name ≠ name) ∧ e.1 = .field className name .object := by
  have hlabel : e.1 ∈ (fieldSlots className declared stored).map (·.1) := List.mem_map.2 ⟨e, he, rfl⟩
  rw [map_fst_fieldSlots className declared hstored] at hlabel
  rcases List.mem_append.1 hlabel with hof | hextra
  · obtain ⟨d, hd, heq⟩ := List.mem_map.1 hof
    exact .inl ⟨d, hd, heq.symm⟩
  · obtain ⟨name, hname, heq⟩ := List.mem_map.1 hextra
    obtain ⟨hmem, hfree⟩ := List.mem_filter.1 hname
    refine .inr ⟨name, hmem, fun d hd hsame => ?_, heq.symm⟩
    exact of_decide_eq_true hfree (List.mem_map.2 ⟨d, hd, hsame⟩)

theorem Value.object?_eq_none {v : Value} : v.object? = none ↔ ∃ p : Plain, v = p.value := by
  constructor
  · intro hv
    cases v with
    | object => cases hv
    | null => exact ⟨.null, rfl⟩
    | scalar l => exact ⟨.scalar l, rfl⟩
    | constant type name => exact ⟨.constant type name, rfl⟩
  · rintro ⟨p, rfl⟩
    cases p <;> rfl

namespace DeepEquality

/-- In objects of one class, no field is compared with another one of its name. -/
theorem no_standIn {className : String} {declared : List (String × FieldDef)}
    {stored stored' : List (String × Value)} (hstored : (stored.map (·.1)).Nodup)
    (hstored' : (stored'.map (·.1)).Nodup) {e : Slot × Value} {n : Value}
    (he : e ∈ fieldSlots className declared stored)
    (hpartner : FieldPartner e.1 (fieldSlots className declared stored') n) :
    (e.1, n) ∈ fieldSlots className declared stored' := by
  have hmem : ∀ {p : Slot → Prop}, FirstWith p (fieldSlots className declared stored') n →
      ∃ label, (label, n) ∈ fieldSlots className declared stored' ∧ p label := by
    rintro p ⟨before, label, after, heq, hp, -⟩
    exact ⟨label, heq ▸ List.mem_append_right _ List.mem_cons_self, hp⟩
  rcases hpartner with hequal | ⟨hnone, hnamed⟩
  · obtain ⟨label, hlabel, rfl⟩ := hmem hequal
    exact hlabel
  obtain ⟨label, hlabel, -, hsame⟩ := hmem hnamed
  exfalso
  rcases undeclared_fieldSlots hstored he with ⟨d, hd, heq⟩ | ⟨name, -, hfree, heq⟩
  · obtain ⟨v, hv⟩ := declared_fieldSlots className hd hstored'
    exact hnone _ hv heq.symm
  rw [heq] at hsame
  rcases undeclared_fieldSlots hstored' hlabel with ⟨d, hd, heq'⟩ | ⟨name', -, -, heq'⟩
  · rw [show label = _ from heq'] at hsame
    exact hfree d hd (Option.some.inj hsame)
  · rw [show label = _ from heq'] at hsame
    refine hnone _ hlabel (heq'.trans ?_)
    rw [heq, Option.some.inj hsame]

/-! ### Contents of objects -/

variable {h : Heap} {types : ClassTable} {R R' : Value → Value → Prop} {v w x : Value}

theorem Agree.flip {ν μ : Type} {s : Structure ν} {t : Structure μ} {R : ν → μ → Prop} {l : ν} {r : μ}
    (h : Agree s t R l r) : Agree t s (fun r l => R l r) r l := by
  unfold Agree at *
  split at h
  · next hboth =>
    rw [if_pos hboth.symm]
    exact h
  · next hnot =>
    rw [if_neg fun hboth => hnot hboth.symm]
    exact h.imp fun p hp => hp.symm

theorem inspect_live {p : Plain} : h.inspect types v = .plain p ↔ v = p.value := by
  cases v with
  | object a =>
    refine iff_of_false (fun hp => ?_) (by cases p <;> exact Value.noConfusion)
    simp only [Heap.inspect] at hp
    split at hp
    · cases hp
    · split at hp <;> cases hp
  | _ => cases p <;> simp [Heap.inspect, Plain.value]

theorem identity_value (p : Plain) : h.identity p.value = none := by cases p <;> rfl

theorem plain?_live {p : Plain} : (h.structure types).plain? v = some p ↔ v = p.value := by
  rw [plain?_eq_some]
  refine ⟨fun hp => inspect_live.1 hp.2, ?_⟩
  rintro rfl
  exact ⟨identity_value p, inspect_live.2 rfl⟩

theorem allPlain_live {vs : List Value} :
    AllPlain (h.structure types) vs ↔ ∀ v ∈ vs, v.object? = none := by
  refine forall₂_congr fun v _ => ?_
  rw [Option.isSome_iff_exists, Value.object?_eq_none]
  exact exists_congr fun p => plain?_live

variable (h types) in
/-- Live values agree: objects by the relation, anything else by being the same. -/
abbrev AgreeLive (R : Value → Value → Prop) : Value → Value → Prop :=
  Agree (h.structure types) (h.structure types) R

theorem agreeLive_iff : AgreeLive h types R v w ↔
    ((h.identity v).isSome ∧ (h.identity w).isSome) ∧ R v w ∨ v.object? = none ∧ v = w := by
  have hplain : (∃ p, h.inspect types v = .plain p ∧ h.inspect types w = .plain p) ↔
      v.object? = none ∧ v = w := by
    simp only [inspect_live, Value.object?_eq_none]
    constructor
    · rintro ⟨p, rfl, rfl⟩
      exact ⟨⟨p, rfl⟩, rfl⟩
    · rintro ⟨⟨p, rfl⟩, rfl⟩
      exact ⟨p, rfl, rfl⟩
  change (if (h.identity v).isSome ∧ (h.identity w).isSome then R v w else _) ↔ _
  rw [← hplain]
  split
  · next hboth =>
    rw [or_iff_left, and_iff_right hboth]
    rintro ⟨p, hp, -⟩
    rw [inspect_live.1 hp, identity_value] at hboth
    cases hboth.1
  · next hnot => rw [or_iff_right fun hboth => hnot hboth.1]; rfl

theorem exists_object (hv : (h.identity v).isSome) : ∃ a, v = .object a := by
  obtain ⟨a, ha⟩ := Option.isSome_iff_exists.1 hv
  exact ⟨a, (Heap.identity_eq_some.1 ha).1⟩

theorem AgreeLive.objects (hagree : AgreeLive h types R v w) (hobject : v.object? ≠ none ∨ w.object? ≠ none) :
    ∃ a b, v = .object a ∧ w = .object b ∧ R v w := by
  rcases agreeLive_iff.1 hagree with ⟨⟨hv, hw⟩, hR⟩ | ⟨hnone, rfl⟩
  · obtain ⟨a, rfl⟩ := exists_object hv
    obtain ⟨b, rfl⟩ := exists_object hw
    exact ⟨a, b, rfl, rfl, hR⟩
  · exact absurd hnone (hobject.elim id id)

theorem AgreeLive.plain (hagree : AgreeLive h types R v w) : v.object? = none ↔ w.object? = none := by
  rcases agreeLive_iff.1 hagree with ⟨⟨hv, hw⟩, -⟩ | ⟨hv, rfl⟩
  · obtain ⟨a, rfl⟩ := exists_object hv
    obtain ⟨b, rfl⟩ := exists_object hw
    exact iff_of_false (Option.some_ne_none a) (Option.some_ne_none b)
  · rfl

theorem AgreeLive.trans (hagree : AgreeLive h types R v w) (hagree' : AgreeLive h types R' w x) :
    AgreeLive h types (Relation.Comp R R') v x := by
  rcases agreeLive_iff.1 hagree with ⟨⟨hv, hw⟩, hR⟩ | ⟨hv, rfl⟩
  · rcases agreeLive_iff.1 hagree' with ⟨⟨-, hx⟩, hR'⟩ | ⟨hnone, rfl⟩
    · exact agreeLive_iff.2 (.inl ⟨⟨hv, hx⟩, w, hR, hR'⟩)
    · obtain ⟨b, rfl⟩ := exists_object hw
      cases hnone
  · refine agreeLive_iff.2 (.inr ⟨hv, ?_⟩)
    rcases agreeLive_iff.1 hagree' with ⟨⟨hv', -⟩, -⟩ | ⟨-, heq⟩
    · obtain ⟨a, rfl⟩ := exists_object hv'
      cases hv
    · exact heq

/-! ### The rules, read from either side -/

variable (h types) in
/-- When the contents of two objects agree, said without a side to start from. -/
def Corresponds (R : Value → Value → Prop) (left right : Slots Value) : Prop :=
  match left.shape with
  | .object => Matched (fun x y => x.1 = y.1 ∧ AgreeLive h types R x.2 y.2) left.entries right.entries
  | .array | .list => List.Forall₂ (AgreeLive h types R) left.nodes right.nodes
  | .set =>
    if ∀ v ∈ left.nodes, v.object? = none then left.nodes.Perm right.nodes
    else List.Forall₂ (AgreeLive h types R) left.nodes right.nodes
  | .map =>
    if ∀ e ∈ unzipEntries left.nodes, e.1.object? = none then
      Matched (fun x y => x.1 = y.1 ∧ AgreeLive h types R x.2 y.2) (unzipEntries left.nodes)
        (unzipEntries right.nodes)
    else List.Forall₂ (AgreeLive h types R) left.nodes right.nodes

theorem plain_iff_of_agree {vs ws : List Value} (hagree : List.Forall₂ (AgreeLive h types R) vs ws) :
    (∀ v ∈ vs, v.object? = none) ↔ ∀ w ∈ ws, w.object? = none := by
  induction hagree with
  | nil => simp
  | cons hvw _ ih => rw [List.forall_mem_cons, List.forall_mem_cons, AgreeLive.plain hvw, ih]

theorem plain_keys_iff_of_agree {vs ws : List Value} (hagree : List.Forall₂ (AgreeLive h types R) vs ws) :
    (∀ e ∈ unzipEntries vs, e.1.object? = none) ↔ ∀ e ∈ unzipEntries ws, e.1.object? = none := by
  have hkeys : List.Forall₂ (AgreeLive h types R) ((unzipEntries vs).map Prod.fst)
      ((unzipEntries ws).map Prod.fst) :=
    List.forall₂_map_left_iff.2 (List.forall₂_map_right_iff.2
      ((unzipEntries_forall₂ hagree).imp fun _ _ => And.left))
  simpa using plain_iff_of_agree hkeys

/-- Fields with the same declarations, each stored once. -/
theorem fields_agree_iff {className : String} {declared : List (String × FieldDef)}
    (hdeclared : (declared.map fun d => (d.1, d.2.name)).Nodup) {stored stored' : List (String × Value)}
    (hstored : (stored.map (·.1)).Nodup) (hstored' : (stored'.map (·.1)).Nodup)
    (hlen : (fieldSlots className declared stored).length = (fieldSlots className declared stored').length) :
    (∀ e ∈ fieldSlots className declared stored, ∃ n,
        FieldPartner e.1 (fieldSlots className declared stored') n ∧ AgreeLive h types R e.2 n) ↔
      Matched (fun x y => x.1 = y.1 ∧ AgreeLive h types R x.2 y.2) (fieldSlots className declared stored)
        (fieldSlots className declared stored') := by
  constructor
  · intro hfound
    refine matched_of_keys (nodup_labels_fieldSlots className hdeclared hstored) hlen fun e he => ?_
    obtain ⟨n, hpartner, hagree⟩ := hfound e he
    exact ⟨(e.1, n), no_standIn hstored hstored' he hpartner, rfl, hagree⟩
  · intro hmatched e he
    obtain ⟨e', he', hlabel, hagree⟩ := hmatched.mem_left he
    have hlabels := nodup_labels_fieldSlots className hdeclared hstored'
    exact ⟨e'.2, .inl (hlabel ▸ firstWith_self hlabels he'), hagree⟩

theorem set_agree_iff {vs ws : List Value} :
    (if AllPlain (h.structure types) vs ∧ AllPlain (h.structure types) ws then
        (vs.map (h.structure types).plain?).Perm (ws.map (h.structure types).plain?)
      else List.Forall₂ (AgreeLive h types R) vs ws) ↔
      if ∀ v ∈ vs, v.object? = none then vs.Perm ws else List.Forall₂ (AgreeLive h types R) vs ws := by
  simp only [allPlain_live]
  -- what a plain value shows gives it back
  have hback : ∀ us : List Value, (∀ u ∈ us, u.object? = none) →
      (us.map (h.structure types).plain?).map (fun shown => shown.elim .null Plain.value) = us := by
    intro us hus
    rw [List.map_map]
    refine (List.map_congr_left fun u hu => ?_).trans (List.map_id us)
    obtain ⟨p, rfl⟩ := Value.object?_eq_none.1 (hus u hu)
    rw [Function.comp_apply, plain?_live.2 rfl]
    rfl
  by_cases hvs : ∀ v ∈ vs, v.object? = none
  · rw [if_pos hvs]
    by_cases hws : ∀ w ∈ ws, w.object? = none
    · rw [if_pos ⟨hvs, hws⟩]
      refine ⟨fun hperm => ?_, fun hperm => hperm.map _⟩
      have hvalues := hperm.map fun shown => shown.elim Value.null Plain.value
      rwa [hback vs hvs, hback ws hws] at hvalues
    · rw [if_neg fun hboth => hws hboth.2]
      refine iff_of_false (fun hagree => hws ((plain_iff_of_agree hagree).1 hvs)) fun hperm => ?_
      exact hws fun w hw => hvs w (hperm.symm.subset hw)
  · rw [if_neg hvs, if_neg fun hboth => hvs hboth.1]

theorem map_agree_iff {es es' : List (Value × Value)} (hkeys : (es.map (·.1)).Nodup)
    (hkeys' : (es'.map (·.1)).Nodup) (hlen : es.length = es'.length) (positions : Prop)
    (hpositions : positions → ((∀ e ∈ es, e.1.object? = none) ↔ ∀ e ∈ es', e.1.object? = none)) :
    (if AllPlain (h.structure types) (es.map Prod.fst) ∧ AllPlain (h.structure types) (es'.map Prod.fst) then
        ∀ e ∈ es, ∃ n, LastUnder (h.structure types) (h.structure types) e.1 es' n ∧ AgreeLive h types R e.2 n
      else positions) ↔
      if ∀ e ∈ es, e.1.object? = none then Matched (fun x y => x.1 = y.1 ∧ AgreeLive h types R x.2 y.2) es es'
      else positions := by
  have hplain : ∀ es : List (Value × Value), AllPlain (h.structure types) (es.map Prod.fst) ↔
      ∀ e ∈ es, e.1.object? = none := fun es => by simp [allPlain_live]
  simp only [hplain]
  by_cases hes : ∀ e ∈ es, e.1.object? = none
  · rw [if_pos hes]
    by_cases hes' : ∀ e ∈ es', e.1.object? = none
    · rw [if_pos ⟨hes, hes'⟩]
      constructor
      · intro hfound
        refine matched_of_keys hkeys hlen fun e he => ?_
        obtain ⟨n, ⟨before, key, after, heq, hkey, -⟩, hagree⟩ := hfound e he
        obtain ⟨p, hp⟩ := Value.object?_eq_none.1 (hes e he)
        have hsame : key = e.1 := (plain?_live.1 (hkey.trans (plain?_live.2 hp))).trans hp.symm
        exact ⟨(key, n), heq ▸ List.mem_append_right _ List.mem_cons_self, hsame.symm, hagree⟩
      · intro hmatched e he
        obtain ⟨e', he', hkey, hagree⟩ := hmatched.mem_left he
        have hkept : ∀ e ∈ es', Kept h h R e.1 := fun e he a ha => by
          have hnone := hes' e he
          rw [ha] at hnone
          cases hnone
        exact ⟨e'.2, hkey ▸ lastUnder_self hkeys' hkept ((hplain es').2 hes') he', hagree⟩
    · rw [if_neg fun hboth => hes' hboth.2]
      refine iff_of_false (fun hagree => hes' ((hpositions hagree).1 hes)) fun hmatched => ?_
      refine hes' fun e' he' => ?_
      obtain ⟨e, he, hkey, -⟩ := hmatched.mem_right he'
      exact hkey ▸ hes e he
  · rw [if_neg hes, if_neg fun hboth => hes hboth.1]

/-- The class table matters to plain objects only. -/
theorem contentsAgree_iff {o o' : Obj} {left right : Slots Value}
    (hfields : left.shape = .object → types.FieldsDistinct) (hleft : o.slots? types = some left)
    (hright : o'.slots? types = some right) (hkeys : o.body.KeysDistinct) (hkeys' : o'.body.KeysDistinct)
    (htype : o.type.erasure = o'.type.erasure) (hshape : left.shape = right.shape)
    (hlen : left.entries.length = right.entries.length) :
    ContentsAgree (h.structure types) (h.structure types) R left right ↔ Corresponds h types R left right := by
  have hbodies : o.body.shape = o'.body.shape :=
    (Obj.shape_of_slots? hleft).symm.trans (hshape.trans (Obj.shape_of_slots? hright))
  have hclass : o.type.className? = o'.type.className? := by
    rw [← Ty.className?_erasure, htype, Ty.className?_erasure]
  have hunlocked := Obj.unlocked_of_slots? hleft
  have hunlocked' := Obj.unlocked_of_slots? hright
  obtain ⟨type, body, locked⟩ := o
  obtain ⟨type', body', locked'⟩ := o'
  subst hunlocked hunlocked'
  cases body with
  | array items => cases body' <;> cases hbodies; cases hleft; cases hright; exact Iff.rfl
  | list items => cases body' <;> cases hbodies; cases hleft; cases hright; exact Iff.rfl
  | set items => cases body' <;> cases hbodies; cases hleft; cases hright; exact set_agree_iff
  | fields stored =>
    cases body' with
    | fields stored' =>
      cases hleft
      cases hright
      rw [show type'.className? = type.className? from hclass.symm] at hlen ⊢
      exact fields_agree_iff ((hfields rfl).allFields _) hkeys hkeys' hlen
    | _ => cases hbodies
  | map es =>
    cases body' with
    | map es' =>
      cases hleft
      cases hright
      have hsize : es.length = es'.length := by
        have hdouble := (Slots.length_keyed es).symm.trans (hlen.trans (Slots.length_keyed es'))
        omega
      unfold ContentsAgree Corresponds
      simp only [Slots.shape_keyed, unzipEntries_keyed]
      refine map_agree_iff hkeys hkeys' hsize _ fun hagree => ?_
      have hkept := plain_keys_iff_of_agree hagree
      rwa [unzipEntries_keyed, unzipEntries_keyed] at hkept
    | _ => cases hbodies

theorem Corresponds.flip {left right : Slots Value} (hshape : left.shape = right.shape)
    (hsame : Corresponds h types R left right) : Corresponds h types (fun w v => R v w) right left := by
  have hpositions : List.Forall₂ (AgreeLive h types R) left.nodes right.nodes →
      List.Forall₂ (AgreeLive h types fun w v => R v w) right.nodes left.nodes :=
    fun hagree => (hagree.imp fun _ _ hvw => Agree.flip hvw).flip
  unfold Corresponds at *
  rw [← hshape]
  cases hleft : left.shape with
  | object =>
    simp only [hleft] at hsame ⊢
    exact hsame.flip.imp fun _ _ hxy => ⟨hxy.1.symm, Agree.flip hxy.2⟩
  | array => simp only [hleft] at hsame ⊢; exact hpositions hsame
  | list => simp only [hleft] at hsame ⊢; exact hpositions hsame
  | set =>
    simp only [hleft] at hsame ⊢
    split at hsame
    · next hplain =>
      rw [if_pos fun v hv => hplain v (hsame.symm.subset hv)]
      exact hsame.symm
    · next hplain =>
      rw [if_neg fun hright => hplain ((plain_iff_of_agree hsame).2 hright)]
      exact hpositions hsame
  | map =>
    simp only [hleft] at hsame ⊢
    split at hsame
    · next hplain =>
      rw [if_pos]
      · exact hsame.flip.imp fun _ _ hxy => ⟨hxy.1.symm, Agree.flip hxy.2⟩
      · intro e he
        obtain ⟨e', he', hkey, -⟩ := hsame.mem_right he
        exact hkey ▸ hplain e' he'
    · next hplain =>
      rw [if_neg fun hright => hplain ((plain_keys_iff_of_agree hsame).2 hright)]
      exact hpositions hsame

theorem Corresponds.trans {left mid right : Slots Value} (hshape : left.shape = mid.shape)
    (hsame : Corresponds h types R left mid) (hsame' : Corresponds h types R' mid right) :
    Corresponds h types (Relation.Comp R R') left right := by
  have hpositions : List.Forall₂ (AgreeLive h types R) left.nodes mid.nodes →
      List.Forall₂ (AgreeLive h types R') mid.nodes right.nodes →
      List.Forall₂ (AgreeLive h types (Relation.Comp R R')) left.nodes right.nodes := by
    intro hagree hagree'
    refine (forall₂_join hagree hagree'.flip).imp ?_
    rintro v x ⟨w, hvw, hwx⟩
    exact AgreeLive.trans hvw hwx
  have hmatched : ∀ {α : Type} {xs ys zs : List (α × Value)},
      Matched (fun x y => x.1 = y.1 ∧ AgreeLive h types R x.2 y.2) xs ys →
      Matched (fun x y => x.1 = y.1 ∧ AgreeLive h types R' x.2 y.2) ys zs →
      Matched (fun x y => x.1 = y.1 ∧ AgreeLive h types (Relation.Comp R R') x.2 y.2) xs zs := by
    intro α xs ys zs hxy hyz
    refine (hxy.trans hyz).imp ?_
    rintro x z ⟨y, hfirst, hsecond⟩
    exact ⟨hfirst.1.trans hsecond.1, AgreeLive.trans hfirst.2 hsecond.2⟩
  unfold Corresponds at *
  rw [← hshape] at hsame'
  cases hleft : left.shape with
  | object => simp only [hleft] at hsame hsame' ⊢; exact hmatched hsame hsame'
  | array => simp only [hleft] at hsame hsame' ⊢; exact hpositions hsame hsame'
  | list => simp only [hleft] at hsame hsame' ⊢; exact hpositions hsame hsame'
  | set =>
    simp only [hleft] at hsame hsame' ⊢
    split at hsame
    · next hplain =>
      rw [if_pos fun v hv => hplain v (hsame.symm.subset hv)] at hsame'
      rw [if_pos hplain]
      exact hsame.trans hsame'
    · next hplain =>
      rw [if_neg fun hmid => hplain ((plain_iff_of_agree hsame).2 hmid)] at hsame'
      rw [if_neg hplain]
      exact hpositions hsame hsame'
  | map =>
    simp only [hleft] at hsame hsame' ⊢
    split at hsame
    · next hplain =>
      rw [if_pos hplain]
      rw [if_pos] at hsame'
      · exact hmatched hsame hsame'
      · intro e he
        obtain ⟨e', he', hkey, -⟩ := hsame.mem_right he
        exact hkey ▸ hplain e' he'
    · next hplain =>
      rw [if_neg fun hmid => hplain ((plain_keys_iff_of_agree hsame).2 hmid)] at hsame'
      rw [if_neg hplain]
      exact hpositions hsame hsame'

/-! ### Values that tell their parts apart -/

variable {a b : ObjectId}

theorem locally_objects : Locally (h.structure types) (h.structure types) R (.object a) (.object b) ↔
    ∃ o o' left right, h.get? a = some o ∧ h.get? b = some o' ∧ o.slots? types = some left ∧
      o'.slots? types = some right ∧ o.type.erasure = o'.type.erasure ∧ left.shape = right.shape ∧
      left.entries.length = right.entries.length ∧
      ContentsAgree (h.structure types) (h.structure types) R left right := by
  simp only [Locally, Heap.structure, Heap.inspect]
  cases ho : h.get? a with
  | none => simp
  | some o =>
    cases ho' : h.get? b with
    | none => cases hleft : o.slots? types <;> simp [hleft]
    | some o' => cases hleft : o.slots? types <;> cases hright : o'.slots? types <;> simp [hleft, hright]

theorem inspect_distinct (types : ClassTable) (hv : h.KeysDistinct (.object a)) : ∃ o slots, h.get? a = some o ∧
    o.slots? types = some slots ∧ o.body.KeysDistinct ∧
      (h.structure types).inspect (.object a) = .composite o.type slots := by
  have hany := hv a (Heap.mem_reachable.2 ⟨a, rfl, .refl⟩)
  cases ho : h.get? a with
  | none => rw [ho] at hany; cases hany
  | some o =>
    simp only [ho, Option.any_some, Bool.and_eq_true, Bool.not_eq_true', decide_eq_true_eq] at hany
    obtain ⟨slots, hslots⟩ := Obj.exists_slots? types hany.1
    exact ⟨o, slots, rfl, hslots, hany.2, by simp [Heap.structure, Heap.inspect, ho, hslots]⟩

theorem distinct_part (hv : h.KeysDistinct (.object a)) {o : Obj} {slots : Slots Value}
    (ho : h.get? a = some o) (hslots : o.slots? types = some slots) {e : Slot × Value} (he : e ∈ slots.entries) :
    h.KeysDistinct e.2 := by
  intro c hc
  obtain ⟨root, hroot, hlead⟩ := Heap.mem_reachable.1 hc
  refine hv c (Heap.mem_reachable.2 ⟨a, rfl, .head ?_ hlead⟩)
  rw [Heap.references_of_get? ho]
  rcases Obj.mem_slots hslots he with hmem | hnone
  · exact List.mem_filterMap.2 ⟨e.2, hmem, by rw [hroot]; rfl⟩
  · rw [hroot] at hnone
    cases hnone

/-- What such a value leads to may be looked at by itself. -/
theorem view_distinct (h : Heap) (types : ClassTable) :
    View (h.structure types) (h.structure types) fun v w => v = w ∧ h.KeysDistinct v where
  identity hv := by rw [hv.1]
  inspect := by
    rintro v _ ⟨rfl, hv⟩
    cases v with
    | object a =>
      obtain ⟨o, slots, ho, hslots, -, hshown⟩ := inspect_distinct types hv
      rw [hshown]
      exact .composite ⟨rfl, List.forall₂_same.2 fun e he => ⟨rfl, rfl, distinct_part hv ho hslots he⟩⟩
    | _ => exact .plain _

theorem bisimulation_of_distinct (hv : h.KeysDistinct v) (hw : h.KeysDistinct w)
    (hequal : h.equal types v w = true) : ∃ R, Bisimulation (h.structure types) (h.structure types) R ∧
      AgreeLive h types R v w ∧ ∀ l r, R l r → h.KeysDistinct l ∧ h.KeysDistinct r := by
  obtain ⟨R, hR, hagree⟩ := bisimulation_of_equals hequal
  have hview := view_distinct h types
  refine ⟨_, hR.image hview hview, hagree.image hview hview ⟨rfl, hv⟩ ⟨rfl, hw⟩, ?_⟩
  rintro _ _ ⟨l, r, ⟨rfl, hl⟩, ⟨rfl, hr⟩, -⟩
  exact ⟨hl, hr⟩

theorem locally_iff (hfields : types.FieldsDistinct) (hv : h.KeysDistinct (.object a))
    (hw : h.KeysDistinct (.object b)) {lt rt : Ty} {left right : Slots Value}
    (hleft : (h.structure types).inspect (.object a) = .composite lt left)
    (hright : (h.structure types).inspect (.object b) = .composite rt right) :
    Locally (h.structure types) (h.structure types) R (.object a) (.object b) ↔
      lt.erasure = rt.erasure ∧ left.shape = right.shape ∧ left.entries.length = right.entries.length ∧
        Corresponds h types R left right := by
  obtain ⟨o, slots, -, hslots, hkeys, hshown⟩ := inspect_distinct types hv
  obtain ⟨o', slots', -, hslots', hkeys', hshown'⟩ := inspect_distinct types hw
  cases hleft.symm.trans hshown
  cases hright.symm.trans hshown'
  simp only [Locally, hshown, hshown']
  refine and_congr_right fun htype => and_congr_right fun hshape => and_congr_right fun hlen => ?_
  exact contentsAgree_iff (fun _ => hfields) hslots hslots' hkeys hkeys' htype hshape hlen

theorem Bisimulation.objects (hR : Bisimulation (h.structure types) (h.structure types) R) (hvw : R v w) :
    ∃ a b, v = .object a ∧ w = .object b := by
  obtain ⟨hv, hw⟩ := hR.references v w hvw
  obtain ⟨a, rfl⟩ := exists_object hv
  obtain ⟨b, rfl⟩ := exists_object hw
  exact ⟨a, b, rfl, rfl⟩

theorem equal_symm (hfields : types.FieldsDistinct) (hv : h.KeysDistinct v) (hw : h.KeysDistinct w)
    (hequal : h.equal types v w = true) : h.equal types w v = true := by
  obtain ⟨R, hR, hagree, hdistinct⟩ := bisimulation_of_distinct hv hw hequal
  refine equals_of_bisimulation ⟨fun r l hlr => (hR.references l r hlr).symm, fun r l hlr => ?_⟩ hagree.flip
  obtain ⟨hl, hr⟩ := hdistinct l r hlr
  obtain ⟨a, b, rfl, rfl⟩ := hR.objects hlr
  obtain ⟨o, left, -, -, -, hleft⟩ := inspect_distinct types hl
  obtain ⟨o', right, -, -, -, hright⟩ := inspect_distinct types hr
  obtain ⟨htype, hshape, hlen, hsame⟩ := (locally_iff hfields hl hr hleft hright).1 (hR.locally _ _ hlr)
  exact (locally_iff hfields hr hl hright hleft).2 ⟨htype.symm, hshape.symm, hlen.symm, hsame.flip hshape⟩

theorem equal_trans (hfields : types.FieldsDistinct) (hv : h.KeysDistinct v) (hw : h.KeysDistinct w)
    (hx : h.KeysDistinct x) (hequal : h.equal types v w = true) (hequal' : h.equal types w x = true) :
    h.equal types v x = true := by
  obtain ⟨R, hR, hagree, hdistinct⟩ := bisimulation_of_distinct hv hw hequal
  obtain ⟨R', hR', hagree', hdistinct'⟩ := bisimulation_of_distinct hw hx hequal'
  refine equals_of_bisimulation (R := Relation.Comp R R') ⟨?_, ?_⟩ (AgreeLive.trans hagree hagree')
  · rintro l r ⟨m, hlm, hmr⟩
    exact ⟨(hR.references l m hlm).1, (hR'.references m r hmr).2⟩
  · rintro l r ⟨m, hlm, hmr⟩
    obtain ⟨a, b, rfl, rfl⟩ := hR.objects hlm
    obtain ⟨_, c, -, rfl⟩ := hR'.objects hmr
    obtain ⟨hl, hm⟩ := hdistinct _ _ hlm
    obtain ⟨-, hr⟩ := hdistinct' _ _ hmr
    obtain ⟨o, left, -, -, -, hleft⟩ := inspect_distinct types hl
    obtain ⟨o', mid, -, -, -, hmid⟩ := inspect_distinct types hm
    obtain ⟨o'', right, -, -, -, hright⟩ := inspect_distinct types hr
    obtain ⟨htype, hshape, hlen, hsame⟩ := (locally_iff hfields hl hm hleft hmid).1 (hR.locally _ _ hlm)
    obtain ⟨htype', hshape', hlen', hsame'⟩ := (locally_iff hfields hm hr hmid hright).1 (hR'.locally _ _ hmr)
    exact (locally_iff hfields hl hr hleft hright).2
      ⟨htype.trans htype', hshape.trans hshape', hlen.trans hlen', hsame.trans hshape hsame'⟩

/-- Where every class declares a field once, deep equality is an equivalence on the values that can be
read and tell their parts apart. -/
theorem equal_equivalence (hfields : types.FieldsDistinct) (h : Heap) :
    Equivalence fun v w : {v : Value // h.KeysDistinct v} => h.equal types v w = true where
  refl v := equals_of_unchanged hfields v.2 fun _ _ => rfl
  symm {v w} hequal := equal_symm hfields v.2 w.2 hequal
  trans {v w x} hequal hequal' := equal_trans hfields v.2 w.2 x.2 hequal hequal'

/-- Rings of one, of two and of three links, whose class redeclares a field that it inherits. All the links
have equal labels, which some hold in another order. -/
theorem rings_equal :
    let types := ClassTable.builtin.registerAll [(ClassDef.concrete "Link").withField "next" .object,
      ((ClassDef.concrete "Sublink").withSuperclass "Link").withField "next" .object]
    let link (next labels : ObjectId) : Obj :=
      ⟨.ofClass "Sublink", .fields [("next", .object next), ("labels", .object labels)], false⟩
    let h : Heap := ⟨#[link 0 6, link 2 7, link 1 6, link 4 6, link 5 7, link 3 7,
      ⟨.ofClass "HashMap", .map [(.scalar (.str "a"), .null), (.null, .scalar (.int 1))], false⟩,
      ⟨.ofClass "HashMap", .map [(.null, .scalar (.int 1)), (.scalar (.str "a"), .null)], false⟩]⟩
    types.FieldsDistinct ∧ h.equal types (.object 1) (.object 0) = true ∧
      h.equal types (.object 1) (.object 3) = true := by
  intro types link h
  have hequivalence := equal_equivalence (by decide +kernel : types.FieldsDistinct) h
  let single : {v : Value // h.KeysDistinct v} := ⟨.object 0, by decide +kernel⟩
  let double : {v : Value // h.KeysDistinct v} := ⟨.object 1, by decide +kernel⟩
  let triple : {v : Value // h.KeysDistinct v} := ⟨.object 3, by decide +kernel⟩
  have hfirst : h.equal types single double = true := by decide +kernel
  have hsecond : h.equal types single triple = true := by decide +kernel
  have hback : h.equal types double single = true := hequivalence.symm (x := single) (y := double) hfirst
  exact ⟨by decide +kernel, hback, hequivalence.trans (x := double) (y := single) (z := triple) hback hsecond⟩

end DeepEquality

end Reenact
