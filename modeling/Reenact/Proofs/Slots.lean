import Mathlib
import Reenact.Proofs.Assoc
import Reenact.Slots

/-!
Lists side by side, item by item or in some order. What the slots of an object show of it, and slots of
two structures side by side: the same labels in the same order, with related values.
-/

namespace Reenact

theorem forall₂_mapIdx {α β γ δ : Type} {P : γ → δ → Prop} {Q : α → β → Prop}
    {f : Nat → α → γ} {g : Nat → β → δ} (h : ∀ i a b, P (f i a) (g i b) ↔ Q a b)
    {as : List α} {bs : List β} :
    List.Forall₂ P (as.mapIdx f) (bs.mapIdx g) ↔ List.Forall₂ Q as bs := by
  induction as generalizing bs f g with
  | nil => cases bs <;> simp
  | cons a as ih =>
    cases bs with
    | nil => simp
    | cons b bs => simp [List.mapIdx_cons, h, ih fun i a b => h (i + 1) a b]

theorem mapIdx_eq_map_iff {α β : Type} {f : Nat → α → β} {g : α → β} {as : List α} :
    as.mapIdx f = as.map g ↔ ∀ before a after, as = before ++ a :: after → f before.length a = g a := by
  constructor
  · rintro heq before a after rfl
    have hat := congrArg (fun l => l[before.length]?) heq
    simpa using hat
  · intro hall
    refine List.ext_getElem (by simp) fun i hi _ => ?_
    have hlt : i < as.length := by simpa using hi
    have hcut := hall (as.take i) as[i] (as.drop (i + 1)) (by simp)
    simpa [Nat.min_eq_left hlt.le] using hcut

theorem map_eq_map_iff_forall₂ {α β γ : Type} {f : α → γ} {g : β → γ} {as : List α} {bs : List β} :
    as.map f = bs.map g ↔ List.Forall₂ (fun a b => f a = g b) as bs := by
  rw [← List.forall₂_eq_eq_eq, List.forall₂_map_left_iff, List.forall₂_map_right_iff]

/-- Lists beside the same third one are beside each other. -/
theorem forall₂_join {α β γ : Type} {R : α → β → Prop} {S : γ → β → Prop} {as : List α} {bs : List β}
    {cs : List γ} (h : List.Forall₂ R as bs) (h' : List.Forall₂ S cs bs) :
    List.Forall₂ (fun a c => ∃ b, R a b ∧ S c b) as cs := by
  induction h generalizing cs with
  | nil => cases h'; exact .nil
  | cons hab _ ih =>
    cases h' with
    | cons hcb hrest => exact .cons ⟨_, hab, hcb⟩ (ih hrest)

/-- Items that are all images make up the image of a list. -/
theorem forall₂_exists_map {α β γ : Type} {f : γ → α} {R : γ → β → Prop} {as : List α} {bs : List β}
    (h : List.Forall₂ (fun a b => ∃ c, a = f c ∧ R c b) as bs) :
    ∃ cs, as = cs.map f ∧ List.Forall₂ R cs bs := by
  induction h with
  | nil => exact ⟨[], rfl, .nil⟩
  | cons hab _ ih =>
    obtain ⟨c, rfl, hc⟩ := hab
    obtain ⟨cs, rfl, hcs⟩ := ih
    exact ⟨c :: cs, rfl, .cons hc hcs⟩

/-- Where one of two lists side by side is cut, the other can be cut too. -/
theorem forall₂_cut {α β : Type} {R : α → β → Prop} {before after : List α} {a : α} {bs : List β}
    (h : List.Forall₂ R (before ++ a :: after) bs) :
    ∃ before' b after', bs = before' ++ b :: after' ∧ List.Forall₂ R before before' ∧ R a b ∧
      List.Forall₂ R after after' := by
  induction before generalizing bs with
  | nil =>
    cases h with
    | cons hab hafter => exact ⟨[], _, _, rfl, .nil, hab, hafter⟩
  | cons x before ih =>
    cases h with
    | cons hx hrest =>
      obtain ⟨before', b, after', rfl, hbefore, hab, hafter⟩ := ih hrest
      exact ⟨_ :: before', b, after', rfl, .cons hx hbefore, hab, hafter⟩

theorem forall₂_mem_right {α β : Type} {R : α → β → Prop} {as : List α} {bs : List β}
    (h : List.Forall₂ R as bs) {b : β} (hb : b ∈ bs) : ∃ a ∈ as, R a b := by
  obtain ⟨before, after, rfl⟩ := List.append_of_mem hb
  obtain ⟨before', a, after', rfl, _, hab, _⟩ := forall₂_cut (R := fun b a => R a b) h.flip
  exact ⟨a, by simp, hab⟩

theorem forall₂_mem_left {α β : Type} {R : α → β → Prop} {as : List α} {bs : List β}
    (h : List.Forall₂ R as bs) {a : α} (ha : a ∈ as) : ∃ b ∈ bs, R a b :=
  forall₂_mem_right (R := fun b a => R a b) h.flip ha

/-- What holds of the items on one side holds of those on the other. -/
theorem forall_mem_congr {α β : Type} {R : α → β → Prop} {P : α → Prop} {Q : β → Prop} {as : List α}
    {bs : List β} (h : List.Forall₂ R as bs) (hPQ : ∀ a b, R a b → (P a ↔ Q b)) :
    (∀ a ∈ as, P a) ↔ ∀ b ∈ bs, Q b := by
  constructor
  · intro hP b hb
    obtain ⟨a, ha, hab⟩ := forall₂_mem_right h hb
    exact (hPQ a b hab).1 (hP a ha)
  · intro hQ a ha
    obtain ⟨b, hb, hab⟩ := forall₂_mem_left h ha
    exact (hPQ a b hab).2 (hQ b hb)

/-- Of two lists side by side, the one is beside a third list as the other is. -/
theorem forall₂_congr_left {α β γ : Type} {R : α → β → Prop} {P : α → γ → Prop} {Q : β → γ → Prop}
    {as : List α} {bs : List β} {cs : List γ} (h : List.Forall₂ R as bs)
    (hPQ : ∀ a b, R a b → ∀ c ∈ cs, P a c ↔ Q b c) : List.Forall₂ P as cs ↔ List.Forall₂ Q bs cs := by
  induction h generalizing cs with
  | nil => simp
  | cons hab _ ih =>
    cases cs with
    | nil => simp
    | cons c cs =>
      rw [List.forall₂_cons, List.forall₂_cons, hPQ _ _ hab c List.mem_cons_self,
        ih fun a b hab c hc => hPQ a b hab c (List.mem_cons_of_mem _ hc)]

/-! ### Lists matched up -/

section

variable {α β γ κ : Type} {P : α → β → Prop} {Q : β → γ → Prop} {xs : List α} {ys : List β}

/-- In some order, the items of the second list are related to those of the first. -/
def Matched (P : α → β → Prop) : List α → List β → Prop := Relation.Comp (List.Forall₂ P) List.Perm

theorem Matched.flip (h : Matched P xs ys) : Matched (fun y x => P x y) ys xs := by
  obtain ⟨zs, hrel, hperm⟩ := h
  unfold Matched
  rw [List.forall₂_comp_perm_eq_perm_comp_forall₂]
  exact ⟨zs, hperm.symm, hrel.flip⟩

theorem Matched.trans {zs : List γ} (h : Matched P xs ys) (h' : Matched Q ys zs) :
    Matched (Relation.Comp P Q) xs zs := by
  obtain ⟨us, hrel, hperm⟩ := h
  obtain ⟨vs, hrel', hperm'⟩ := h'
  have hswap : Relation.Comp List.Perm (List.Forall₂ Q) us vs := ⟨ys, hperm, hrel'⟩
  rw [← List.forall₂_comp_perm_eq_perm_comp_forall₂] at hswap
  obtain ⟨ws, hrel'', hperm''⟩ := hswap
  exact ⟨ws, (forall₂_join hrel hrel''.flip).imp fun _ _ h => h, hperm''.trans hperm'⟩

theorem Matched.imp {P' : α → β → Prop} (hP : ∀ x y, P x y → P' x y) (h : Matched P xs ys) :
    Matched P' xs ys := by
  obtain ⟨zs, hrel, hperm⟩ := h
  exact ⟨zs, hrel.imp hP, hperm⟩

theorem Matched.map {γ δ : Type} {f : α → γ} {g : β → δ} {Q : γ → δ → Prop} (hQ : ∀ x y, P x y → Q (f x) (g y))
    (h : Matched P xs ys) : Matched Q (xs.map f) (ys.map g) := by
  obtain ⟨zs, hrel, hperm⟩ := h
  exact ⟨zs.map g, List.forall₂_map_left_iff.2 (List.forall₂_map_right_iff.2 (hrel.imp hQ)), hperm.map g⟩

theorem Matched.cons {x : α} {y : β} (hxy : P x y) (h : Matched P xs ys) : Matched P (x :: xs) (y :: ys) := by
  obtain ⟨zs, hrel, hperm⟩ := h
  exact ⟨y :: zs, .cons hxy hrel, hperm.cons y⟩

theorem Matched.length_eq (h : Matched P xs ys) : xs.length = ys.length := by
  obtain ⟨zs, hrel, hperm⟩ := h
  exact hrel.length_eq.trans hperm.length_eq

theorem Matched.filter {p : α → Bool} {q : β → Bool} (hpq : ∀ x y, P x y → (p x ↔ q y)) (h : Matched P xs ys) :
    Matched P (xs.filter p) (ys.filter q) := by
  obtain ⟨zs, hrel, hperm⟩ := h
  exact ⟨zs.filter q, List.rel_filter (fun _ _ hxy => hpq _ _ hxy) hrel, hperm.filter q⟩

theorem matched_congr_left {R : α → γ → Prop} {Q : γ → β → Prop} {zs : List γ}
    (h : List.Forall₂ R xs zs) (hPQ : ∀ x z, R x z → ∀ y ∈ ys, P x y ↔ Q z y) :
    Matched P xs ys ↔ Matched Q zs ys := by
  refine exists_congr fun us => and_congr_left fun hperm => ?_
  exact forall₂_congr_left h fun x z hxz y hy => hPQ x z hxz y (hperm.subset hy)

theorem Matched.mem_left (h : Matched P xs ys) {x : α} (hx : x ∈ xs) : ∃ y ∈ ys, P x y := by
  obtain ⟨zs, hrel, hperm⟩ := h
  obtain ⟨y, hy, hP⟩ := forall₂_mem_left hrel hx
  exact ⟨y, hperm.subset hy, hP⟩

theorem Matched.mem_right (h : Matched P xs ys) {y : β} (hy : y ∈ ys) : ∃ x ∈ xs, P x y :=
  h.flip.mem_left hy

/-- Items matched up stand at places that are matched up one to one. -/
theorem matched_iff_equiv :
    Matched P xs ys ↔ ∃ σ : Fin xs.length ≃ Fin ys.length, ∀ i, P xs[i] ys[σ i] := by
  classical
  constructor
  · rintro ⟨zs, hrel, hperm⟩
    refine ⟨(finCongr hrel.length_eq).trans ⟨hperm.idxBij, hperm.symm.idxBij,
      hperm.idxBij_rightInverse_idxBij_symm, hperm.idxBij_leftInverse_idxBij_symm⟩, fun i => ?_⟩
    have hi : i.val < zs.length := hrel.length_eq ▸ i.isLt
    have hitem : ys[hperm.idxBij ⟨i, hi⟩] = zs[i.val] := hperm.getElem_idxBij_eq_getElem ⟨i, hi⟩
    have hP : P xs[i.val] zs[i.val] := (List.forall₂_iff_get.1 hrel).2 i i.isLt hi
    exact hitem ▸ hP
  · rintro ⟨σ, hσ⟩
    have hlen : xs.length = ys.length := Fin.equiv_iff_eq.1 ⟨σ⟩
    let σ' : Equiv.Perm (Fin ys.length) := (finCongr hlen.symm).trans σ
    refine ⟨List.ofFn (ys.get ∘ σ'), List.forall₂_iff_get.2 ⟨by simpa using hlen, fun i hi _ => ?_⟩, ?_⟩
    · simpa [σ'] using hσ ⟨i, hi⟩
    · have hperm := σ'.ofFn_comp_perm ys.get
      rwa [List.ofFn_get] at hperm

/-- If every item is found under its key in a list as long, and no two items have one key, then none of
that list is left over. -/
theorem matched_of_keys {key : α → κ} {key' : β → κ} (hkeys : (xs.map key).Nodup)
    (hlen : xs.length = ys.length) (hfound : ∀ x ∈ xs, ∃ y ∈ ys, key x = key' y ∧ P x y) :
    Matched (fun x y => key x = key' y ∧ P x y) xs ys := by
  have hchosen : ∃ zs, List.Forall₂ (fun x y => y ∈ ys ∧ key x = key' y ∧ P x y) xs zs := by
    clear hkeys hlen
    induction xs with
    | nil => exact ⟨[], .nil⟩
    | cons x xs ih =>
      obtain ⟨y, hy⟩ := hfound x List.mem_cons_self
      obtain ⟨zs, hzs⟩ := ih fun x' hx' => hfound x' (List.mem_cons_of_mem _ hx')
      exact ⟨y :: zs, .cons hy hzs⟩
  obtain ⟨zs, hzs⟩ := hchosen
  have hsame : xs.map key = zs.map key' := map_eq_map_iff_forall₂.2 (hzs.imp fun _ _ h => h.2.1)
  have hnodup : zs.Nodup := List.Nodup.of_map key' (hsame ▸ hkeys)
  have hsubset : zs ⊆ ys := fun y hy => by
    obtain ⟨x, -, hmem, -⟩ := forall₂_mem_right hzs hy
    exact hmem
  have hle : ys.length ≤ zs.length := by rw [← hlen, hzs.length_eq]
  exact ⟨zs, hzs.imp fun _ _ h => h.2, (hnodup.subperm hsubset).perm_of_length_le hle⟩

end

/-! ### Slots -/

namespace Slots

variable {ν μ : Type}

/-- The same shape and labels, and related values under each label. -/
def Rel (R : ν → μ → Prop) (a : Slots ν) (b : Slots μ) : Prop :=
  a.shape = b.shape ∧ List.Forall₂ (fun x y => x.1 = y.1 ∧ R x.2 y.2) a.entries b.entries

variable {R : ν → μ → Prop}

theorem Rel.imp {R' : ν → μ → Prop} (hR : ∀ x y, R x y → R' x y) {a : Slots ν} {b : Slots μ}
    (h : Rel R a b) : Rel R' a b :=
  ⟨h.1, h.2.imp fun _ _ hxy => ⟨hxy.1, hR _ _ hxy.2⟩⟩

theorem Rel.flip {a : Slots ν} {b : Slots μ} (h : Rel R a b) : Rel (fun y x => R x y) b a :=
  ⟨h.1.symm, List.Forall₂.flip (h.2.imp fun _ _ hxy => ⟨hxy.1.symm, hxy.2⟩)⟩

/-- Slots beside the same third ones are beside each other. -/
theorem Rel.join {ρ : Type} {S : ρ → μ → Prop} {a : Slots ν} {b : Slots μ} {c : Slots ρ}
    (h : Rel R a b) (h' : Rel S c b) : Rel (fun x z => ∃ y, R x y ∧ S z y) a c := by
  refine ⟨h.1.trans h'.1.symm, (forall₂_join h.2 h'.2).imp ?_⟩
  rintro x z ⟨y, ⟨hlabel, hxy⟩, hlabel', hzy⟩
  exact ⟨hlabel.trans hlabel'.symm, y.2, hxy, hzy⟩

theorem Rel.nodes {a : Slots ν} {b : Slots μ} (h : Rel R a b) : List.Forall₂ R a.nodes b.nodes :=
  List.forall₂_map_left_iff.2 (List.forall₂_map_right_iff.2 (h.2.imp fun _ _ hxy => hxy.2))

theorem rel_indexed {shape : Shape} {as : List ν} {bs : List μ} :
    Rel R (indexed shape as) (indexed shape bs) ↔ List.Forall₂ R as bs := by
  simp only [Rel, indexed, true_and]
  exact forall₂_mapIdx fun i a b => by simp

theorem rel_keyed {as : List (ν × ν)} {bs : List (μ × μ)} :
    Rel R (keyed as) (keyed bs) ↔
      List.Forall₂ (fun x y => R x.1 y.1 ∧ R x.2 y.2) as bs := by
  simp only [Rel, keyed, true_and]
  suffices h : ∀ k v : Nat → Slot,
      List.Forall₂ (fun x y => x.1 = y.1 ∧ R x.2 y.2)
        (as.mapIdx fun i e => [(k i, e.1), (v i, e.2)]).flatten
        (bs.mapIdx fun i e => [(k i, e.1), (v i, e.2)]).flatten ↔
      List.Forall₂ (fun x y => R x.1 y.1 ∧ R x.2 y.2) as bs from h .key .value
  intro k v
  induction as generalizing bs k v with
  | nil => cases bs <;> simp
  | cons a as ih =>
    cases bs with
    | nil => simp
    | cons b bs =>
      simp [List.mapIdx_cons, ih (fun i => k (i + 1)) (fun i => v (i + 1)), and_assoc]

@[simp]
theorem shape_indexed (shape : Shape) (items : List ν) : (indexed shape items).shape = shape := rfl

@[simp]
theorem shape_keyed (es : List (ν × ν)) : (keyed es).shape = .map := rfl

@[simp]
theorem nodes_indexed (shape : Shape) (items : List ν) : (indexed shape items).nodes = items := by
  refine List.ext_getElem? fun i => ?_
  cases h : items[i]? <;> simp [nodes, indexed, h]

@[simp]
theorem nodes_keyed (es : List (ν × ν)) : (keyed es).nodes = es.flatMap fun e => [e.1, e.2] := by
  suffices h : ∀ k v : Nat → Slot,
      (es.mapIdx fun i e => [(k i, e.1), (v i, e.2)]).flatten.map (·.2) =
        es.flatMap fun e => [e.1, e.2] from h .key .value
  intro k v
  induction es generalizing k v with
  | nil => rfl
  | cons e es ih =>
    rw [List.mapIdx_cons, List.flatten_cons, List.map_append, List.flatMap_cons]
    exact congrArg _ (ih (fun i => k (i + 1)) fun i => v (i + 1))

theorem length_keyed (es : List (ν × ν)) : (keyed es).entries.length = es.length * 2 := by
  rw [← List.length_map (·.2), show (keyed es).entries.map (·.2) = _ from nodes_keyed es]
  simp

end Slots

/-- What a composite shows are the nodes it refers to, in order. -/
theorem Content.nodes_slots (content : Content) : content.slots.nodes = content.children := by
  cases content with
  | map entries => exact Slots.nodes_keyed entries
  | object fields => simp [slots, children, Slots.nodes]
  | array elements => exact Slots.nodes_indexed _ _
  | list elements => exact Slots.nodes_indexed _ _
  | set elements => exact Slots.nodes_indexed _ _

theorem fieldSlots_isField {className : String} {declared : List (String × FieldDef)}
    {stored : List (String × Value)} :
    ∀ e ∈ fieldSlots className declared stored, ∃ owner name type, e.1 = .field owner name type := by
  induction declared generalizing stored with
  | nil =>
    intro e he
    obtain ⟨⟨name, v⟩, _, rfl⟩ := List.mem_map.1 he
    exact ⟨className, name, .object, rfl⟩
  | cons d rest ih =>
    obtain ⟨owner, f⟩ := d
    intro e he
    rcases List.mem_cons.1 he with rfl | he
    · exact ⟨owner, f.name, f.type, rfl⟩
    · exact ih e he

theorem Value.object?_default (t : Ty) : (Value.default t).object? = none := by
  cases t <;> rfl

/-- A slot that shows an object shows what is stored under its name. -/
theorem mem_fieldSlots {className : String} {declared : List (String × FieldDef)}
    {stored : List (String × Value)} {e : Slot × Value}
    (he : e ∈ fieldSlots className declared stored) :
    (∃ name, e.1.fieldName? = some name ∧ (name, e.2) ∈ stored) ∨ e.2.object? = none := by
  induction declared generalizing stored with
  | nil =>
    obtain ⟨⟨name, v⟩, hmem, rfl⟩ := List.mem_map.1 he
    exact .inl ⟨name, rfl, hmem⟩
  | cons d rest ih =>
    obtain ⟨owner, f⟩ := d
    rcases List.mem_cons.1 he with rfl | he
    · cases found : findValue? f.name stored with
      | none => exact .inr (by simp [Value.object?_default])
      | some v => exact .inl ⟨f.name, rfl, by simpa using mem_of_findValue? found⟩
    · refine (ih he).imp_left fun ⟨name, hname, hmem⟩ => ⟨name, hname, ?_⟩
      exact (dropEntry_sublist f.name stored).subset hmem

/-- Every stored value is shown, declared or not. -/
theorem mem_fieldSlots_of_mem (className : String) {declared : List (String × FieldDef)}
    {stored : List (String × Value)} {v : Value} (hv : v ∈ stored.map (·.2)) :
    ∃ e ∈ fieldSlots className declared stored, e.2 = v := by
  induction declared generalizing stored with
  | nil =>
    obtain ⟨e, he, rfl⟩ := List.mem_map.1 hv
    exact ⟨_, List.mem_map.2 ⟨e, he, rfl⟩, rfl⟩
  | cons d rest ih =>
    obtain ⟨owner, f⟩ := d
    obtain ⟨e, he, rfl⟩ := List.mem_map.1 hv
    rcases findValue?_or_mem_dropEntry f.name he with hfound | hleft
    · exact ⟨_, List.mem_cons_self, by simp [hfound]⟩
    · obtain ⟨e', he', heq⟩ := ih (List.mem_map.2 ⟨e, hleft, rfl⟩)
      exact ⟨e', List.mem_cons_of_mem _ he', heq⟩

/-! ### Plain objects in closed form -/

/-- What an object holds under the name of a field, or what the field starts with. -/
def heldValue (stored : List (String × Value)) (f : FieldDef) : Value :=
  (findValue? f.name stored).getD (.default f.type)

/-- What an object holds beyond the declared fields. -/
def extraSlots (className : String) (declared : List (String × FieldDef)) (stored : List (String × Value)) :
    List (Slot × Value) :=
  (stored.filter fun e => e.1 ∉ declared.map (·.2.name)).map fun e => (.field className e.1 .object, e.2)

/-- Every declared field with what the object holds under its name, and the extra fields behind them. -/
def heldSlots (className : String) (declared : List (String × FieldDef)) (stored : List (String × Value)) :
    List (Slot × Value) :=
  declared.map (fun d => (.field d.1 d.2.name d.2.type, heldValue stored d.2)) ++
    extraSlots className declared stored

/-- What a declared field shows that stands behind other ones. -/
def shownValue (stored : List (String × Value)) (before : List (String × FieldDef)) (f : FieldDef) : Value :=
  if f.name ∈ before.map (·.2.name) then .default f.type else heldValue stored f

section

variable {className : String} {declared : List (String × FieldDef)} {stored : List (String × Value)}

theorem heldValue_dropEntry (hstored : (stored.map (·.1)).Nodup) (name : String) (f : FieldDef) :
    heldValue (dropEntry name stored) f = if f.name = name then .default f.type else heldValue stored f := by
  unfold heldValue
  rw [findValue?_dropEntry hstored]
  split <;> rfl

theorem shownValue_cons (hstored : (stored.map (·.1)).Nodup) (d : String × FieldDef)
    (before : List (String × FieldDef)) (f : FieldDef) :
    shownValue (dropEntry d.2.name stored) before f = shownValue stored (d :: before) f := by
  unfold shownValue
  rw [heldValue_dropEntry hstored]
  by_cases hname : f.name = d.2.name
  · simp only [hname, if_true, ite_self, List.map_cons, List.mem_cons_self]
  · simp only [hname, if_false, List.map_cons, List.mem_cons, false_or]

theorem extraSlots_dropEntry (hstored : (stored.map (·.1)).Nodup) (d : String × FieldDef) :
    extraSlots className declared (dropEntry d.2.name stored) = extraSlots className (d :: declared) stored := by
  unfold extraSlots
  rw [filter_dropEntry _ _ hstored]
  rfl

/-- The slots of a plain object in closed form, whatever names are declared. -/
theorem fieldSlots_eq_shown (className : String) (declared : List (String × FieldDef))
    (hstored : (stored.map (·.1)).Nodup) :
    fieldSlots className declared stored =
      declared.mapIdx (fun i d =>
        (.field d.1 d.2.name d.2.type, shownValue stored (declared.take i) d.2)) ++
      extraSlots className declared stored := by
  induction declared generalizing stored with
  | nil => simp [fieldSlots, extraSlots]
  | cons d rest ih =>
    have hrest := ih (nodup_dropEntry d.2.name hstored)
    rw [fieldSlots, hrest, extraSlots_dropEntry hstored, List.mapIdx_cons, List.cons_append]
    simp only [shownValue_cons hstored, List.take_succ_cons]
    rfl

/-- Where no name is declared twice, every field shows what the object holds. -/
theorem fieldSlots_eq (className : String) (hdeclared : (declared.map (·.2.name)).Nodup)
    (hstored : (stored.map (·.1)).Nodup) :
    fieldSlots className declared stored = heldSlots className declared stored := by
  rw [fieldSlots_eq_shown className declared hstored, heldSlots, List.append_cancel_right_eq, mapIdx_eq_map_iff]
  rintro before d after rfl
  rw [List.map_append, List.map_cons, List.nodup_append] at hdeclared
  have hnew : d.2.name ∉ before.map (·.2.name) :=
    fun hmem => hdeclared.2.2 _ hmem _ List.mem_cons_self rfl
  rw [List.take_left, shownValue, if_neg hnew]

/-- Declared fields are labelled by their declarations, even if two have one name. -/
theorem map_fst_fieldSlots (className : String) (declared : List (String × FieldDef))
    (hstored : (stored.map (·.1)).Nodup) :
    (fieldSlots className declared stored).map (·.1) =
      declared.map (fun d => .field d.1 d.2.name d.2.type) ++
      ((stored.map (·.1)).filter (· ∉ declared.map (·.2.name))).map fun name => .field className name .object := by
  rw [fieldSlots_eq_shown className declared hstored, List.map_append, extraSlots, List.filter_map,
    List.map_map, List.map_map]
  congr 1
  exact List.ext_getElem (by simp) (by simp)

theorem labels_fieldSlots (className : String) (hdeclared : (declared.map (·.2.name)).Nodup)
    (hstored : (stored.map (·.1)).Nodup) :
    ∃ extra, (fieldSlots className declared stored).map (·.1) =
        declared.map (fun d => .field d.1 d.2.name d.2.type) ++
          extra.map (fun name => .field className name .object) ∧
      (declared.map (·.2.name) ++ extra).Nodup := by
  refine ⟨_, map_fst_fieldSlots className declared hstored, ?_⟩
  refine List.nodup_append.2 ⟨hdeclared, List.filter_sublist.nodup hstored, ?_⟩
  rintro name hname _ hother rfl
  exact of_decide_eq_true (List.mem_filter.1 hother).2 hname

end

namespace Obj

variable {o : Obj} {types : ClassTable} {slots : Slots Value}

theorem slots?_isSome (types : ClassTable) : (o.slots? types).isSome ↔ o.locked = false := by
  unfold slots?
  split
  · simp_all
  · cases o.body <;> simp_all

theorem exists_slots? (types : ClassTable) (hlocked : o.locked = false) : ∃ slots, o.slots? types = some slots :=
  Option.isSome_iff_exists.1 ((slots?_isSome types).2 hlocked)

theorem unlocked_of_slots? (h : o.slots? types = some slots) : o.locked = false :=
  (slots?_isSome types).1 (by simp [h])

theorem shape_of_slots? (h : o.slots? types = some slots) : slots.shape = o.body.shape := by
  unfold slots? at h
  split at h
  · cases h
  · cases hbody : o.body <;> simp only [hbody, Option.some.injEq] at h <;> subst h <;> rfl

theorem nodes_of_slots? (h : o.slots? types = some slots) (hshape : o.body.shape ≠ .object) :
    slots.nodes = o.body.values := by
  unfold slots? at h
  split at h
  · cases h
  · cases hbody : o.body with
    | fields => simp [hbody, Body.shape] at hshape
    | array items | list items | set items =>
      simp only [hbody, Option.some.injEq] at h
      exact h ▸ Slots.nodes_indexed _ items
    | map entries =>
      simp only [hbody, Option.some.injEq] at h
      exact h ▸ Slots.nodes_keyed entries

theorem mem_slots {e : Slot × Value} (h : o.slots? types = some slots) (he : e ∈ slots.entries) :
    e.2 ∈ o.body.values ∨ e.2.object? = none := by
  unfold slots? at h
  split at h
  · cases h
  · cases hbody : o.body with
    | fields stored =>
      simp only [hbody, Option.some.injEq] at h
      subst h
      exact (mem_fieldSlots he).imp_left fun ⟨_, _, hmem⟩ => List.mem_map.2 ⟨_, hmem, rfl⟩
    | map entries =>
      simp only [hbody, Option.some.injEq] at h
      subst h
      simp only [Slots.keyed, List.mem_flatten, List.mem_mapIdx] at he
      obtain ⟨_, ⟨i, hi, rfl⟩, he⟩ := he
      refine .inl (List.mem_flatMap.2 ⟨_, List.getElem_mem hi, ?_⟩)
      simp only [List.mem_cons, List.not_mem_nil, or_false] at he ⊢
      exact he.imp (congrArg Prod.snd) (congrArg Prod.snd)
    | array items | list items | set items =>
      simp only [hbody, Option.some.injEq] at h
      subst h
      obtain ⟨i, hi, rfl⟩ := List.mem_mapIdx.1 he
      exact .inl (List.getElem_mem hi)

theorem mem_slots_of_mem {v : Value} (h : o.slots? types = some slots) (hv : v ∈ o.body.values) :
    ∃ e ∈ slots.entries, e.2 = v := by
  unfold slots? at h
  split at h
  · cases h
  · cases hbody : o.body with
    | fields stored =>
      simp only [hbody, Option.some.injEq] at h
      rw [hbody] at hv
      subst h
      exact mem_fieldSlots_of_mem _ hv
    | map entries =>
      simp only [hbody, Option.some.injEq] at h
      rw [hbody] at hv
      subst h
      have hmem : v ∈ (Slots.keyed entries).nodes := by
        rw [Slots.nodes_keyed]
        exact hv
      exact List.mem_map.1 hmem
    | array items | list items | set items =>
      simp only [hbody, Option.some.injEq] at h
      rw [hbody] at hv
      subst h
      refine List.mem_map.1 (?_ : v ∈ (Slots.indexed _ items).nodes)
      rw [Slots.nodes_indexed]
      exact hv

end Obj

end Reenact
