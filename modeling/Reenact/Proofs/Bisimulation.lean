import Mathlib
import Reenact.Equality

/-!
Deep equality is bisimilarity. The worklist of `DeepEquality.equals` always empties, or meets a pair
that differs, within the steps it is given, and the verdict is true exactly when some relation of
references is closed under the comparison of two nodes.
-/

namespace Reenact.DeepEquality

variable {ν μ : Type}

/-- The first entry whose slot has a property. -/
def FirstWith (p : Slot → Prop) (entries : List (Slot × μ)) (n : μ) : Prop :=
  ∃ before slot after, entries = before ++ (slot, n) :: after ∧ p slot ∧ ∀ e ∈ before, ¬ p e.1

/-- A field is compared with the one in the equal slot, else with the first of the same name. -/
def FieldPartner (slot : Slot) (entries : List (Slot × μ)) (n : μ) : Prop :=
  FirstWith (· = slot) entries n ∨
    (∀ e ∈ entries, e.1 ≠ slot) ∧
      FirstWith (fun other => slot.fieldName?.isSome ∧ other.fieldName? = slot.fieldName?) entries n

section

variable (s : Structure ν) (t : Structure μ)

/-- Two parts agree: references by the relation, anything else by showing one plain value. -/
def Agree (R : ν → μ → Prop) (l : ν) (r : μ) : Prop :=
  if (s.identity l).isSome ∧ (t.identity r).isSome then R l r
  else ∃ p, s.inspect l = .plain p ∧ t.inspect r = .plain p

/-- Every node shows a plain value and has no identity. -/
def AllPlain (s : Structure ν) (ns : List ν) : Prop := ∀ n ∈ ns, (s.plain? n).isSome

instance (s : Structure ν) (ns : List ν) : Decidable (AllPlain s ns) :=
  inferInstanceAs (Decidable (∀ n ∈ ns, _))

/-- The last entry under a key that shows the same plain value. -/
def LastUnder (key : ν) (entries : List (μ × μ)) (n : μ) : Prop :=
  ∃ before k after, entries = before ++ (k, n) :: after ∧ t.plain? k = s.plain? key ∧
    ∀ e ∈ after, t.plain? e.1 ≠ s.plain? key

/-- The rule of each shape for two contents of that shape and of one length. -/
def ContentsAgree (R : ν → μ → Prop) (left : Slots ν) (right : Slots μ) : Prop :=
  match left.shape with
  | .object => ∀ e ∈ left.entries, ∃ n, FieldPartner e.1 right.entries n ∧ Agree s t R e.2 n
  | .array | .list => List.Forall₂ (Agree s t R) left.nodes right.nodes
  | .set =>
    if AllPlain s left.nodes ∧ AllPlain t right.nodes then
      (left.nodes.map s.plain?).Perm (right.nodes.map t.plain?)
    else List.Forall₂ (Agree s t R) left.nodes right.nodes
  | .map =>
    if AllPlain s ((unzipEntries left.nodes).map Prod.fst) ∧
        AllPlain t ((unzipEntries right.nodes).map Prod.fst) then
      ∀ e ∈ unzipEntries left.nodes,
        ∃ n, LastUnder s t e.1 (unzipEntries right.nodes) n ∧ Agree s t R e.2 n
    else List.Forall₂ (Agree s t R) left.nodes right.nodes

/-- The comparison of two nodes, the references in them being taken to agree where related. -/
def Locally (R : ν → μ → Prop) (l : ν) (r : μ) : Prop :=
  match s.inspect l, t.inspect r with
  | .composite lt left, .composite rt right =>
    lt.erasure = rt.erasure ∧ left.shape = right.shape ∧
      left.entries.length = right.entries.length ∧ ContentsAgree s t R left right
  | .plain a, .plain b => a = b
  | _, _ => False

/-- A relation between references that holds only of pairs that agree locally. -/
structure Bisimulation (R : ν → μ → Prop) : Prop where
  references : ∀ l r, R l r → (s.identity l).isSome ∧ (t.identity r).isSome
  locally : ∀ l r, R l r → Locally s t R l r

/-- The loop over the worklist, without a bound on its steps. -/
inductive Drains : Worklist ν μ → Bool → Prop where
  | empty {w} : w.queue = [] → Drains w true
  | differ {w l r rest w'} : w.queue = (l, r) :: rest →
      compare s t l r { w with queue := rest } = (false, w') → Drains w false
  | next {w l r rest w' b} : w.queue = (l, r) :: rest →
      compare s t l r { w with queue := rest } = (true, w') → Drains w' b → Drains w b

/-- A comparison of two nodes that ends with a verdict. -/
def Decides (l : ν) (r : μ) (verdict : Bool) : Prop :=
  match pair s t l r .empty with
  | (true, w) => Drains s t w verdict
  | (false, _) => verdict = false

end

/-! ### Partners -/

theorem firstWith_iff (p : Slot → Bool) (entries : List (Slot × μ)) (n : μ) :
    (entries.find? fun e => p e.1).map (·.2) = some n ↔ FirstWith (p · = true) entries n := by
  simp only [Option.map_eq_some_iff, List.find?_eq_some_iff_append]
  constructor
  · rintro ⟨⟨slot, m⟩, ⟨hp, before, after, rfl, hb⟩, rfl⟩
    exact ⟨before, slot, after, rfl, hp, fun e he => by simpa using hb e he⟩
  · rintro ⟨before, slot, after, rfl, hp, hb⟩
    exact ⟨(slot, n), ⟨hp, before, after, rfl, fun e he => by simpa using hb e he⟩, rfl⟩

theorem FirstWith.unique {p : Slot → Prop} {entries : List (Slot × μ)} {n m : μ} (h : FirstWith p entries n)
    (h' : FirstWith p entries m) : n = m := by
  classical
  have hfirst := firstWith_iff (fun slot => decide (p slot)) entries
  simp only [decide_eq_true_eq] at hfirst
  exact Option.some.inj (((hfirst n).2 h).symm.trans ((hfirst m).2 h'))

private theorem fieldPartner_iff {slot : Slot} {entries : List (Slot × μ)} {n : μ} :
    ((entries.find? (·.1 == slot) <|> entries.find? fun (other, _) =>
      slot.fieldName?.isSome && other.fieldName? == slot.fieldName?).map (·.2)) = some n ↔
      FieldPartner slot entries n := by
  have hequal := firstWith_iff (· == slot) entries n
  have hnamed := firstWith_iff
    (fun other => slot.fieldName?.isSome && other.fieldName? == slot.fieldName?) entries n
  simp only [beq_iff_eq, Bool.and_eq_true] at hequal hnamed
  unfold FieldPartner
  cases found : entries.find? (·.1 == slot) with
  | none =>
    have hne : ∀ e ∈ entries, e.1 ≠ slot := by simpa using found
    have hno : ¬ FirstWith (· = slot) entries n := by
      rw [← hequal, found]; simp
    rw [or_iff_right hno, and_iff_right hne]
    simpa using hnamed
  | some e =>
    have hmem : ∃ e ∈ entries, e.1 = slot :=
      ⟨e, List.mem_of_find?_eq_some found, by simpa using List.find?_some found⟩
    have hno : ¬ ∀ e ∈ entries, e.1 ≠ slot := by
      obtain ⟨e, he, heq⟩ := hmem
      exact fun h => h e he heq
    rw [found] at hequal
    rw [or_iff_left (fun h => hno h.1)]
    simpa using hequal

section

variable {s : Structure ν} {t : Structure μ}

theorem plain?_eq_some {n : ν} {p : Plain} :
    s.plain? n = some p ↔ s.identity n = none ∧ s.inspect n = .plain p := by
  unfold Structure.plain?
  cases s.identity n <;> cases s.inspect n <;> simp

private theorem mapM_eq_some {α β : Type} {f : α → Option β} {xs : List α} {ys : List β} :
    xs.mapM f = some ys ↔ xs.map f = ys.map some := by
  induction xs generalizing ys with
  | nil => cases ys <;> simp
  | cons x xs ih =>
    cases hx : f x with
    | none => cases ys <;> simp [hx]
    | some y => cases ys <;> simp [hx, Option.bind_eq_some_iff, ih, and_comm]

private theorem mapM_isSome {α β : Type} {f : α → Option β} {xs : List α} :
    (xs.mapM f).isSome ↔ ∀ x ∈ xs, (f x).isSome := by
  induction xs with
  | nil => simp
  | cons x xs ih =>
    rw [List.forall_mem_cons, ← ih]
    cases hx : f x <;> cases hxs : xs.mapM f <;> simp [hx, hxs]

theorem plains?_eq_some {ns : List ν} {ps : List Plain} :
    s.plains? ns = some ps ↔ ns.map s.plain? = ps.map some := mapM_eq_some

theorem plains?_isSome {ns : List ν} : (s.plains? ns).isSome ↔ AllPlain s ns := mapM_isSome

theorem plainEntries?_eq_some {ns : List ν} {es : List (Plain × ν)} :
    plainEntries? s ns = some es ↔
      (unzipEntries ns).map (fun e => (s.plain? e.1).map (·, e.2)) = es.map some := mapM_eq_some

theorem plainEntries?_isSome {ns : List ν} :
    (plainEntries? s ns).isSome ↔ AllPlain s ((unzipEntries ns).map Prod.fst) := by
  unfold plainEntries? AllPlain
  rw [mapM_isSome]
  simp

/-- Looking a key up among the plain keys is looking for a key that shows the same. -/
private theorem find_key {es : List (ν × ν)} {keyed : List (Plain × ν)} {key : Plain}
    (h : es.map (fun e => (s.plain? e.1).map (·, e.2)) = keyed.map some) :
    (keyed.find? (·.1 == key)).map (·.2) =
      (es.find? fun e => s.plain? e.1 == some key).map (·.2) := by
  induction es generalizing keyed with
  | nil => cases keyed <;> simp_all
  | cons e es ih =>
    cases keyed with
    | nil => simp at h
    | cons k keyed =>
      simp only [List.map_cons, List.cons.injEq, Option.map_eq_some_iff] at h
      obtain ⟨⟨q, hq, rfl⟩, hrest⟩ := h
      by_cases hk : q = key
      · simp [hq, hk]
      · simp [hq, hk, ih hrest]

private theorem lastUnder_iff {key : ν} {q : Plain} (hq : s.plain? key = some q)
    {ns : List μ} {keyed : List (Plain × μ)} (h : plainEntries? t ns = some keyed) {n : μ} :
    (keyed.reverse.find? (·.1 == q)).map (·.2) = some n ↔
      LastUnder s t key (unzipEntries ns) n := by
  have hrev : (unzipEntries ns).reverse.map (fun e => (t.plain? e.1).map (·, e.2)) =
      keyed.reverse.map some := by
    rw [List.map_reverse, List.map_reverse, plainEntries?_eq_some.1 h]
  rw [find_key hrev, Option.map_eq_some_iff, LastUnder]
  simp only [List.find?_eq_some_iff_append, hq, beq_iff_eq]
  constructor
  · rintro ⟨⟨k, m⟩, ⟨hk, after, before, hsplit, hafter⟩, rfl⟩
    refine ⟨before.reverse, k, after.reverse, ?_, hk, fun e he => ?_⟩
    · simpa using congrArg List.reverse hsplit
    · simpa using hafter e (List.mem_reverse.1 he)
  · rintro ⟨before, k, after, hsplit, hk, hafter⟩
    refine ⟨(k, n), ⟨hk, after.reverse, before.reverse, by simp [hsplit], fun e he => ?_⟩, rfl⟩
    simpa using hafter e (List.mem_reverse.1 he)

/-! ### What a comparison demands -/

/-- Every part has a partner, and agrees with it. -/
def Satisfied (s : Structure ν) (t : Structure μ) (R : ν → μ → Prop)
    (partners : List (ν × Option μ)) : Prop :=
  ∀ p ∈ partners, ∃ n, p.2 = some n ∧ Agree s t R p.1 n

variable {R : ν → μ → Prop}

private theorem satisfied_fields {left : List (Slot × ν)} {right : List (Slot × μ)} :
    Satisfied s t R (fieldPartners left right) ↔
      ∀ e ∈ left, ∃ n, FieldPartner e.1 right n ∧ Agree s t R e.2 n := by
  simp only [Satisfied, fieldPartners, List.forall_mem_map]
  refine forall₂_congr fun e _ => exists_congr fun n => and_congr_left fun _ => ?_
  exact fieldPartner_iff

private theorem satisfied_positions {left : List ν} {right : List μ}
    (hlen : left.length = right.length) :
    Satisfied s t R (positionPartners left right) ↔
      List.Forall₂ (Agree s t R) left right := by
  rw [List.forall₂_iff_zip, and_iff_right hlen]
  simp only [Satisfied, positionPartners, List.forall_mem_map]
  constructor
  · intro h a b hab
    obtain ⟨n, hn, hagree⟩ := h (a, b) hab
    cases hn
    exact hagree
  · intro h p hp
    exact ⟨p.2, rfl, h hp⟩

private theorem satisfied_keys {ls : List ν} {rs : List μ} {as : List (Plain × ν)}
    {bs : List (Plain × μ)} (hl : plainEntries? s ls = some as)
    (hr : plainEntries? t rs = some bs) :
    Satisfied s t R (keyPartners as bs) ↔
      ∀ e ∈ unzipEntries ls, ∃ n, LastUnder s t e.1 (unzipEntries rs) n ∧ Agree s t R e.2 n := by
  have hmem : ∀ {q v}, (q, v) ∈ as ↔ ∃ k, (k, v) ∈ unzipEntries ls ∧ s.plain? k = some q := by
    intro q v
    have := congrArg (some (q, v) ∈ ·) (plainEntries?_eq_some.1 hl)
    simpa using this.symm
  simp only [Satisfied, keyPartners, List.forall_mem_map]
  constructor
  · rintro h ⟨k, v⟩ he
    have hplain : AllPlain s ((unzipEntries ls).map Prod.fst) :=
      plainEntries?_isSome.1 (by simp [hl])
    obtain ⟨q, hq⟩ := Option.isSome_iff_exists.1 (hplain k (List.mem_map_of_mem he))
    obtain ⟨n, hn, hagree⟩ := h (q, v) (hmem.2 ⟨k, he, hq⟩)
    exact ⟨n, (lastUnder_iff hq hr).1 hn, hagree⟩
  · rintro h ⟨q, v⟩ he
    obtain ⟨k, hk, hq⟩ := hmem.1 he
    obtain ⟨n, hn, hagree⟩ := h (k, v) hk
    exact ⟨n, (lastUnder_iff hq hr).2 hn, hagree⟩

/-- A comparison of contents can be met exactly when the rule of their shape holds. -/
theorem contentsAgree_iff_demands {left : Slots ν} {right : Slots μ}
    (hlen : left.entries.length = right.entries.length) :
    ContentsAgree s t R left right ↔
      ∃ partners, demands s t left right = some partners ∧ Satisfied s t R partners := by
  have hnodes : left.nodes.length = right.nodes.length := by simpa [Slots.nodes] using hlen
  have hpos := satisfied_positions (s := s) (t := t) (R := R) hnodes
  unfold ContentsAgree demands
  cases left.shape with
  | object => simpa using satisfied_fields.symm
  | array => simpa using hpos.symm
  | list => simpa using hpos.symm
  | set =>
    simp only [← plains?_isSome]
    cases hl : s.plains? left.nodes with
    | none => simpa using hpos.symm
    | some as =>
      cases hr : t.plains? right.nodes with
      | none => simpa using hpos.symm
      | some bs =>
        rw [plains?_eq_some.1 hl, plains?_eq_some.1 hr,
          List.map_perm_map_iff (Option.some_injective _), ← List.isPerm_iff]
        cases hperm : as.isPerm bs <;> simp [Satisfied, hperm]
  | map =>
    simp only [← plainEntries?_isSome]
    cases hl : plainEntries? s left.nodes with
    | none => simpa using hpos.symm
    | some as =>
      cases hr : plainEntries? t right.nodes with
      | none => simpa using hpos.symm
      | some bs => simpa using (satisfied_keys hl hr).symm

/-! ### The worklist -/

/-- The pair was put on the worklist at some time. -/
def Seen (s : Structure ν) (t : Structure μ) (w : Worklist ν μ) (l : ν) (r : μ) : Prop :=
  ∃ i j, s.identity l = some i ∧ t.identity r = some j ∧ (i, j) ∈ w.seen

/-- What comparing leaves of a worklist: it keeps all pairs, and new ones are queued. -/
structure Extends (s : Structure ν) (t : Structure μ) (w w' : Worklist ν μ) : Prop where
  seen : ∀ l r, Seen s t w l r → Seen s t w' l r
  queue : ∀ p ∈ w.queue, p ∈ w'.queue
  queued : ∀ l r, Seen s t w' l r → Seen s t w l r ∨ (l, r) ∈ w'.queue

theorem Extends.refl (w : Worklist ν μ) : Extends s t w w :=
  ⟨fun _ _ h => h, fun _ h => h, fun _ _ h => .inl h⟩

theorem Extends.trans {w w' w'' : Worklist ν μ} (h : Extends s t w w')
    (h' : Extends s t w' w'') : Extends s t w w'' where
  seen l r hs := h'.seen l r (h.seen l r hs)
  queue p hp := h'.queue p (h.queue p hp)
  queued l r hs := by
    rcases h'.queued l r hs with hs | hq
    · exact (h.queued l r hs).imp_right (h'.queue _)
    · exact .inr hq

theorem Agree.mono {R' : ν → μ → Prop} (hR : ∀ l r, R l r → R' l r) {l : ν} {r : μ}
    (h : Agree s t R l r) : Agree s t R' l r := by
  unfold Agree at *
  split at h
  · next href => rw [if_pos href]; exact hR l r h
  · next href => rw [if_neg href]; exact h

theorem ContentsAgree.mono {R' : ν → μ → Prop} (hR : ∀ l r, R l r → R' l r) {left : Slots ν}
    {right : Slots μ} (h : ContentsAgree s t R left right) : ContentsAgree s t R' left right := by
  have hpos (h : List.Forall₂ (Agree s t R) left.nodes right.nodes) :
      List.Forall₂ (Agree s t R') left.nodes right.nodes := h.imp fun _ _ => Agree.mono hR
  have hkeyed : ∀ {α : Type} {p : α → μ → Prop} {v : α → ν} {es : List α},
      (∀ e ∈ es, ∃ n, p e n ∧ Agree s t R (v e) n) → ∀ e ∈ es, ∃ n, p e n ∧ Agree s t R' (v e) n :=
    fun h e he => (h e he).imp fun _ hn => ⟨hn.1, hn.2.mono hR⟩
  unfold ContentsAgree at *
  split at h
  · exact hkeyed h
  · exact hpos h
  · exact hpos h
  · split at h
    · next hplain => simpa [hplain] using h
    · next hplain => simpa [hplain] using hpos h
  · split at h
    · next hplain => simpa [hplain] using hkeyed h
    · next hplain => simpa [hplain] using hpos h

theorem Locally.mono {R' : ν → μ → Prop} (hR : ∀ l r, R l r → R' l r) {l : ν} {r : μ}
    (h : Locally s t R l r) : Locally s t R' l r := by
  unfold Locally at *
  split at h
  · exact ⟨h.1, h.2.1, h.2.2.1, h.2.2.2.mono hR⟩
  · exact h
  · exact h

private theorem seen_iff {w : Worklist ν μ} {l : ν} {r : μ} {i j : Nat}
    (hl : s.identity l = some i) (hr : t.identity r = some j) :
    Seen s t w l r ↔ (i, j) ∈ w.seen := by
  simp [Seen, hl, hr]

private theorem enqueue_extends {w : Worklist ν μ} {l : ν} {r : μ} {i j : Nat}
    (hl : s.identity l = some i) (hr : t.identity r = some j) :
    Extends s t w (enqueue w l r (i, j)) ∧ Seen s t (enqueue w l r (i, j)) l r := by
  unfold enqueue
  split
  · next hmem => exact ⟨.refl w, (seen_iff hl hr).2 hmem⟩
  · refine ⟨⟨?_, fun p hp => List.mem_append_left _ hp, ?_⟩, (seen_iff hl hr).2 (by simp)⟩
    · rintro l' r' ⟨i', j', hl', hr', hmem⟩
      exact ⟨i', j', hl', hr', List.mem_cons_of_mem _ hmem⟩
    · rintro l' r' ⟨i', j', hl', hr', hmem⟩
      rcases List.mem_cons.1 hmem with heq | hmem
      · cases heq
        rw [s.identity_inj hl' hl, t.identity_inj hr' hr]
        exact .inr (by simp)
      · exact .inl ⟨i', j', hl', hr', hmem⟩

theorem pair_cases (l : ν) (r : μ) (w : Worklist ν μ) :
    (∃ i j, s.identity l = some i ∧ t.identity r = some j ∧
      pair s t l r w = (true, enqueue w l r (i, j))) ∨
    (¬ ((s.identity l).isSome ∧ (t.identity r).isSome) ∧
      ∃ b, pair s t l r w = (b, w) ∧
        (b = true ↔ ∃ p, s.inspect l = .plain p ∧ t.inspect r = .plain p)) := by
  unfold pair
  by_cases href : (s.identity l).isSome ∧ (t.identity r).isSome
  · obtain ⟨i, hl⟩ := Option.isSome_iff_exists.1 href.1
    obtain ⟨j, hr⟩ := Option.isSome_iff_exists.1 href.2
    exact .inl ⟨i, j, hl, hr, by simp only [hl, hr]⟩
  · refine .inr ⟨href, ?_⟩
    split
    · next hl hr => simp [hl, hr] at href
    · split
      · next a b hl hr =>
        refine ⟨_, rfl, ?_⟩
        simp only [hl, hr, beq_iff_eq, Inspected.plain.injEq]
        exact ⟨fun h => ⟨a, rfl, h.symm⟩, fun ⟨p, hp, hq⟩ => hp.trans hq.symm⟩
      · next hno => exact ⟨_, rfl, by simpa using fun p hl hr => hno p p hl hr⟩

/-- A pair that does not differ at once agrees as far as the worklist will tell. -/
theorem pair_true {l : ν} {r : μ} {w w' : Worklist ν μ} (h : pair s t l r w = (true, w')) :
    Extends s t w w' ∧ Agree s t (Seen s t w') l r := by
  rcases pair_cases (s := s) (t := t) l r w with ⟨i, j, hl, hr, heq⟩ | ⟨href, b, heq, hb⟩
  · cases heq.symm.trans h
    obtain ⟨hext, hseen⟩ := enqueue_extends (w := w) hl hr
    exact ⟨hext, by simp [Agree, hl, hr, hseen]⟩
  · cases heq.symm.trans h
    exact ⟨.refl _, by rw [Agree, if_neg href]; exact hb.1 rfl⟩

theorem pairAll_true {partners : List (ν × Option μ)} {w w' : Worklist ν μ}
    (h : pairAll s t partners w = (true, w')) :
    Extends s t w w' ∧ Satisfied s t (Seen s t w') partners := by
  induction partners generalizing w with
  | nil => cases h; exact ⟨.refl _, by simp [Satisfied]⟩
  | cons p rest ih =>
    obtain ⟨l, _ | r⟩ := p
    · cases h
    · simp only [pairAll] at h
      split at h
      · next u hu =>
        obtain ⟨hext, hagree⟩ := pair_true hu
        obtain ⟨hrest, hsat⟩ := ih h
        refine ⟨hext.trans hrest, ?_⟩
        rw [Satisfied, List.forall_mem_cons]
        exact ⟨⟨r, rfl, hagree.mono hrest.seen⟩, hsat⟩
      · cases h

theorem compare_true {l : ν} {r : μ} {w w' : Worklist ν μ}
    (h : compare s t l r w = (true, w')) :
    Extends s t w w' ∧ Locally s t (Seen s t w') l r := by
  unfold compare at h
  split at h
  · next lt left rt right hl hr =>
    simp only [Locally, hl, hr]
    split at h
    · next hsame =>
      split at h
      · next partners hdemands =>
        obtain ⟨hext, hsat⟩ := pairAll_true h
        have hcontents := (contentsAgree_iff_demands hsame.2.2).2 ⟨partners, hdemands, hsat⟩
        exact ⟨hext, hsame.1, hsame.2.1, hsame.2.2, hcontents⟩
      · cases h
    · cases h
  · next a b hl hr =>
    simp only [Locally, hl, hr]
    simp only [Prod.mk.injEq, beq_iff_eq] at h
    exact ⟨h.2 ▸ .refl w, h.1⟩
  · cases h

/-! ### Soundness -/

/-- Every pair that was put on the worklist is still queued or agrees locally. -/
def Settled (s : Structure ν) (t : Structure μ) (w : Worklist ν μ) : Prop :=
  ∀ l r, Seen s t w l r → (l, r) ∈ w.queue ∨ Locally s t (Seen s t w) l r

theorem compare_settled {l : ν} {r : μ} {rest : List (ν × μ)} {w w' : Worklist ν μ}
    (hw : Settled s t w) (hq : w.queue = (l, r) :: rest)
    (h : compare s t l r { w with queue := rest } = (true, w')) :
    Extends s t { w with queue := rest } w' ∧ Settled s t w' := by
  obtain ⟨hext, hlocal⟩ := compare_true h
  refine ⟨hext, fun l' r' hseen => ?_⟩
  rcases hext.queued l' r' hseen with hold | hnew
  · rcases hw l' r' hold with hqueue | hdone
    · rw [hq, List.mem_cons] at hqueue
      rcases hqueue with heq | hrest
      · cases heq; exact .inr hlocal
      · exact .inl (hext.queue _ hrest)
    · exact .inr (hdone.mono hext.seen)
  · exact .inl hnew

/-- A worklist that empties leaves a relation closed under comparison. -/
theorem Drains.bisimulation {w : Worklist ν μ} {b : Bool} (h : Drains s t w b) (hb : b = true)
    (hw : Settled s t w) :
    ∃ R, Bisimulation s t R ∧ ∀ l r, Seen s t w l r → R l r := by
  induction h with
  | @empty w hq =>
    refine ⟨Seen s t w, ⟨fun l r hs => ?_, fun l r hs => ?_⟩, fun _ _ h => h⟩
    · obtain ⟨i, j, hi, hj, _⟩ := hs
      simp [hi, hj]
    · exact (hw l r hs).resolve_left (by simp [hq])
  | differ => cases hb
  | next hq hc _ ih =>
    obtain ⟨hext, hw'⟩ := compare_settled hw hq hc
    obtain ⟨R, hR, hseen⟩ := ih hb hw'
    exact ⟨R, hR, fun l r hs => hseen l r (hext.seen l r hs)⟩

/-! ### Completeness -/

/-- Every queued pair is related. -/
def Within (R : ν → μ → Prop) (w : Worklist ν μ) : Prop := ∀ p ∈ w.queue, R p.1 p.2

theorem pair_of_agree {l : ν} {r : μ} {w : Worklist ν μ} (h : Agree s t R l r)
    (hw : Within R w) : ∃ w', pair s t l r w = (true, w') ∧ Within R w' := by
  rcases pair_cases (s := s) (t := t) l r w with ⟨i, j, hl, hr, heq⟩ | ⟨href, b, heq, hb⟩
  · have hR : R l r := by simpa [Agree, hl, hr] using h
    refine ⟨_, heq, fun p hp => ?_⟩
    unfold enqueue at hp
    split at hp
    · exact hw p hp
    · rcases List.mem_append.1 hp with hp | hp
      · exact hw p hp
      · cases List.mem_singleton.1 hp; exact hR
  · rw [Agree, if_neg href] at h
    exact ⟨w, by rw [heq, hb.2 h], hw⟩

theorem pairAll_of_satisfied {partners : List (ν × Option μ)} {w : Worklist ν μ}
    (h : Satisfied s t R partners) (hw : Within R w) :
    ∃ w', pairAll s t partners w = (true, w') ∧ Within R w' := by
  induction partners generalizing w with
  | nil => exact ⟨w, rfl, hw⟩
  | cons p rest ih =>
    rw [Satisfied, List.forall_mem_cons] at h
    obtain ⟨l, r?⟩ := p
    obtain ⟨⟨r, rfl, hagree⟩, hrest⟩ := h
    obtain ⟨u, hu, hwu⟩ := pair_of_agree hagree hw
    obtain ⟨w', hw', hwithin⟩ := ih hrest hwu
    exact ⟨w', by simp only [pairAll, hu, hw'], hwithin⟩

theorem compare_of_locally {l : ν} {r : μ} {w : Worklist ν μ} (h : Locally s t R l r)
    (hw : Within R w) : ∃ w', compare s t l r w = (true, w') ∧ Within R w' := by
  unfold Locally at h
  split at h
  · next lt left rt right hl hr =>
    simp only [compare, hl, hr]
    obtain ⟨htype, hshape, hlen, hcontents⟩ := h
    obtain ⟨partners, hdemands, hsat⟩ := (contentsAgree_iff_demands hlen).1 hcontents
    rw [if_pos ⟨htype, hshape, hlen⟩]
    simp only [hdemands]
    exact pairAll_of_satisfied hsat hw
  · next a b hl hr =>
    simp only [compare, hl, hr]
    exact ⟨w, by simp [h], hw⟩
  · exact h.elim

/-- No pair of a bisimulation makes the loop stop early. -/
theorem Drains.verdict {w : Worklist ν μ} {b : Bool} (h : Drains s t w b)
    (hR : Bisimulation s t R) (hw : Within R w) : b = true := by
  induction h with
  | empty => rfl
  | @differ w l r rest w' hq hc =>
    obtain ⟨_, heq, _⟩ := compare_of_locally (w := { w with queue := rest })
      (hR.locally l r (hw (l, r) (by simp [hq]))) (fun p hp => hw p (by simp [hq, hp]))
    cases heq.symm.trans hc
  | @next w l r rest w' b hq hc _ ih =>
    obtain ⟨u, heq, hwithin⟩ := compare_of_locally (w := { w with queue := rest })
      (hR.locally l r (hw (l, r) (by simp [hq]))) (fun p hp => hw p (by simp [hq, hp]))
    cases heq.symm.trans hc
    exact ih hwithin

/-! ### Termination -/

/-- The pairs of identities that were never put on the worklist. -/
def unseen (s : Structure ν) (t : Structure μ) (w : Worklist ν μ) : Finset (Nat × Nat) :=
  (Finset.range s.bound ×ˢ Finset.range t.bound) \ w.seen.toFinset

/-- How many more pairs can be taken from the worklist. -/
def remaining (s : Structure ν) (t : Structure μ) (w : Worklist ν μ) : Nat :=
  w.queue.length + (unseen s t w).card

theorem remaining_enqueue {w : Worklist ν μ} {l : ν} {r : μ} {i j : Nat}
    (hl : s.identity l = some i) (hr : t.identity r = some j) :
    remaining s t (enqueue w l r (i, j)) ≤ remaining s t w := by
  unfold enqueue
  split
  · exact le_rfl
  · next hnew =>
    have hmem : (i, j) ∈ unseen s t w := by
      simp [unseen, hnew, s.identity_lt hl, t.identity_lt hr]
    have hinsert : unseen s t ⟨w.queue ++ [(l, r)], (i, j) :: w.seen⟩ =
        (unseen s t w).erase (i, j) := by
      ext p
      simp only [unseen, List.toFinset_cons, Finset.mem_sdiff, Finset.mem_insert,
        Finset.mem_erase]
      tauto
    have hcard := Finset.card_erase_add_one hmem
    simp only [remaining, hinsert, List.length_append, List.length_singleton]
    omega

theorem remaining_pair {l : ν} {r : μ} {w : Worklist ν μ} :
    remaining s t (pair s t l r w).2 ≤ remaining s t w := by
  rcases pair_cases (s := s) (t := t) l r w with ⟨i, j, hl, hr, heq⟩ | ⟨_, b, heq, _⟩
  · rw [heq]; exact remaining_enqueue hl hr
  · rw [heq]

theorem remaining_pairAll {partners : List (ν × Option μ)} {w : Worklist ν μ} :
    remaining s t (pairAll s t partners w).2 ≤ remaining s t w := by
  induction partners generalizing w with
  | nil => exact le_rfl
  | cons p rest ih =>
    obtain ⟨l, _ | r⟩ := p
    · exact le_rfl
    · have hpair := remaining_pair (s := s) (t := t) (l := l) (r := r) (w := w)
      simp only [pairAll]
      split
      · next u hu => rw [hu] at hpair; exact ih.trans hpair
      · next u hu => rw [hu] at hpair; exact hpair

theorem remaining_compare {l : ν} {r : μ} {w : Worklist ν μ} :
    remaining s t (compare s t l r w).2 ≤ remaining s t w := by
  unfold compare
  split
  · split
    · split
      · exact remaining_pairAll
      · exact le_rfl
    · exact le_rfl
  · exact le_rfl
  · exact le_rfl

/-- Enough steps take the loop to its end. -/
theorem drainUpTo_drains {steps : Nat} {w : Worklist ν μ} (h : remaining s t w ≤ steps) :
    Drains s t w (drainUpTo s t steps w).1 := by
  induction steps generalizing w with
  | zero =>
    have hq : w.queue = [] := List.length_eq_zero_iff.1 (by unfold remaining at h; omega)
    simpa [drainUpTo, hq] using Drains.empty hq
  | succ steps ih =>
    unfold drainUpTo
    cases hq : w.queue with
    | nil => exact .empty hq
    | cons p rest =>
      obtain ⟨l, r⟩ := p
      have hle := remaining_compare (s := s) (t := t) (l := l) (r := r)
        (w := { w with queue := rest })
      have hpop : remaining s t { w with queue := rest } + 1 = remaining s t w := by
        simp only [remaining, hq, List.length_cons, unseen]
        omega
      dsimp only
      split
      · next w' hc =>
        rw [hc] at hle
        exact .next hq hc (ih (by dsimp only at hle; omega))
      · next w' hc => exact .differ hq hc

theorem drain_drains (w : Worklist ν μ) : Drains s t w (drain s t w).1 := by
  refine drainUpTo_drains ?_
  have hcard : (unseen s t w).card ≤ s.bound * t.bound := by
    refine (Finset.card_le_card Finset.sdiff_subset).trans ?_
    simp
  unfold remaining
  omega

theorem Drains.unique {w : Worklist ν μ} {b b' : Bool} (h : Drains s t w b)
    (h' : Drains s t w b') : b = b' := by
  induction h with
  | empty hq =>
    cases h' with
    | empty => rfl
    | differ hq' => simp [hq] at hq'
    | next hq' => simp [hq] at hq'
  | differ hq hc =>
    cases h' with
    | empty hq' => simp [hq] at hq'
    | differ => rfl
    | next hq' hc' _ =>
      cases hq.symm.trans hq'
      cases hc.symm.trans hc'
  | next hq hc _ ih =>
    cases h' with
    | empty hq' => simp [hq] at hq'
    | differ hq' hc' =>
      cases hq.symm.trans hq'
      cases hc.symm.trans hc'
    | next hq' hc' h' =>
      cases hq.symm.trans hq'
      cases hc.symm.trans hc'
      exact ih h'

theorem equals_decides (l : ν) (r : μ) : Decides s t l r (equals s t l r) := by
  cases hw : pair s t l r .empty with
  | mk b w =>
    cases b with
    | true => simpa only [Decides, equals, hw] using drain_drains w
    | false => simp only [Decides, equals, hw]

theorem Decides.unique {l : ν} {r : μ} {b : Bool} (h : Decides s t l r b) :
    b = equals s t l r := by
  cases hw : pair s t l r .empty with
  | mk c w =>
    cases c with
    | true =>
      simp only [Decides, hw] at h
      simpa only [equals, hw] using h.unique (drain_drains w)
    | false => simpa only [Decides, equals, hw] using h

/-! ### Verdict -/

/-- Nodes that are not both references agree locally only as plain values. -/
theorem plain_of_locally {l : ν} {r : μ} (h : Locally s t R l r)
    (href : ¬ ((s.identity l).isSome ∧ (t.identity r).isSome)) :
    ∃ p, s.inspect l = .plain p ∧ t.inspect r = .plain p := by
  unfold Locally at h
  split at h
  · next hl hr => exact (href ⟨s.identity_isSome hl, t.identity_isSome hr⟩).elim
  · next p q hl hr => exact ⟨p, hl, h ▸ hr⟩
  · exact h.elim

theorem locally_of_plain {l : ν} {r : μ}
    (h : ∃ p, s.inspect l = .plain p ∧ t.inspect r = .plain p) : Locally s t R l r := by
  obtain ⟨p, hl, hr⟩ := h
  simp [Locally, hl, hr]

theorem equals_of_bisimulation {l : ν} {r : μ} (hR : Bisimulation s t R) (h : Agree s t R l r) :
    equals s t l r = true := by
  obtain ⟨w, hpair, hwithin⟩ := pair_of_agree (w := .empty) h (by simp [Within, Worklist.empty])
  unfold equals
  simp only [hpair]
  exact (drain_drains w).verdict hR hwithin

theorem bisimulation_of_equals {l : ν} {r : μ} (h : equals s t l r = true) :
    ∃ R, Bisimulation s t R ∧ Agree s t R l r := by
  unfold equals at h
  split at h
  · next w hpair =>
    obtain ⟨hext, hagree⟩ := pair_true hpair
    have hnone : ∀ l r, ¬ Seen s t Worklist.empty l r := by simp [Seen, Worklist.empty]
    have hsettled : Settled s t w := fun l r hs =>
      .inl ((hext.queued l r hs).resolve_left (hnone l r))
    obtain ⟨R, hR, hseen⟩ := (drain_drains w).bisimulation h hsettled
    exact ⟨R, hR, hagree.mono hseen⟩
  · cases h

/-- The comparison ends, with one verdict, and the verdict is whether the two nodes are bisimilar:
whether they and all pairs of some relation of references agree locally up to that relation. -/
theorem equals_iff_bisimilar (s : Structure ν) (t : Structure μ) (l : ν) (r : μ) :
    (∀ b, Decides s t l r b ↔ b = equals s t l r) ∧
      (equals s t l r = true ↔ ∃ R, Bisimulation s t R ∧ Locally s t R l r) := by
  refine ⟨fun b => ⟨Decides.unique, fun h => h ▸ equals_decides l r⟩, fun h => ?_, ?_⟩
  · obtain ⟨R, hR, hagree⟩ := bisimulation_of_equals h
    refine ⟨R, hR, ?_⟩
    unfold Agree at hagree
    split at hagree
    · exact hR.locally l r hagree
    · exact locally_of_plain hagree
  · rintro ⟨R, hR, hlocal⟩
    by_cases href : (s.identity l).isSome ∧ (t.identity r).isSome
    · -- `R` need not hold of the pair itself, so the pair is added to it.
      let R' : ν → μ → Prop := fun a b => R a b ∨ (a = l ∧ b = r)
      have hsub : ∀ a b, R a b → R' a b := fun _ _ h => .inl h
      refine equals_of_bisimulation (R := R') ⟨?_, ?_⟩ (by simp [Agree, href, R'])
      · rintro a b (hab | ⟨rfl, rfl⟩)
        · exact hR.references a b hab
        · exact href
      · rintro a b (hab | ⟨rfl, rfl⟩)
        · exact (hR.locally a b hab).mono hsub
        · exact hlocal.mono hsub
    · refine equals_of_bisimulation hR ?_
      rw [Agree, if_neg href]
      exact plain_of_locally hlocal href

end

end Reenact.DeepEquality
