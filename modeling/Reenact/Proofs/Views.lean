import Mathlib
import Reenact.Proofs.Bisimulation
import Reenact.Proofs.Serialization

/-!
One structure seen through another. Where nodes are related to nodes that look alike, deep equality
gives one verdict on either side, whatever identifies the nodes; a captured value is such a view of
the live one.
-/

namespace Reenact

namespace DeepEquality

variable {ν ν' μ μ' : Type}

/-- The same plain value, or the same type with slots that look alike. -/
inductive Alike (S : ν → ν' → Prop) : Inspected ν → Inspected ν' → Prop where
  | plain (p : Plain) : Alike S (.plain p) (.plain p)
  | composite {type : Ty} {slots : Slots ν} {slots' : Slots ν'} :
      Slots.Rel S slots slots' → Alike S (.composite type slots) (.composite type slots')
  | unreadable : Alike S .unreadable .unreadable

/-- Related nodes look alike, and both have an identity or neither. -/
structure View (s : Structure ν) (s' : Structure ν') (S : ν → ν' → Prop) : Prop where
  identity : ∀ {n n'}, S n n' → ((s.identity n).isSome ↔ (s'.identity n').isSome)
  inspect : ∀ {n n'}, S n n' → Alike S (s.inspect n) (s'.inspect n')

/-- Two views of a relation: it holds of nodes that related nodes are seen as. -/
def Image (S : ν → ν' → Prop) (T : μ → μ' → Prop) (R : ν → μ → Prop) (l' : ν') (r' : μ') : Prop :=
  ∃ l r, S l l' ∧ T r r' ∧ R l r

section

variable {s : Structure ν} {s' : Structure ν'} {t : Structure μ} {t' : Structure μ'}
  {S : ν → ν' → Prop} {T : μ → μ' → Prop} {R : ν → μ → Prop}

theorem Alike.flip {a : Inspected ν} {b : Inspected ν'} (h : Alike S a b) :
    Alike (fun y x => S x y) b a := by
  cases h with
  | plain p => exact .plain p
  | composite hrel => exact .composite hrel.flip
  | unreadable => exact .unreadable

theorem View.refl (s : Structure ν) : View s s (· = ·) where
  identity hn := by rw [hn]
  inspect {n n'} hn := by
    subst hn
    cases s.inspect n with
    | plain p => exact .plain p
    | unreadable => exact .unreadable
    | composite type slots => exact .composite ⟨rfl, List.forall₂_same.2 fun _ _ => ⟨rfl, rfl⟩⟩

theorem View.symm (h : View s s' S) : View s' s fun n' n => S n n' where
  identity hn := (h.identity hn).symm
  inspect hn := (h.inspect hn).flip

theorem View.inspect_plain (h : View s s' S) {n : ν} {n' : ν'} (hn : S n n') {p : Plain} :
    s.inspect n = .plain p ↔ s'.inspect n' = .plain p := by
  have halike := h.inspect hn
  cases hs : s.inspect n <;> cases hs' : s'.inspect n' <;> rw [hs, hs'] at halike <;> cases halike
  · simp
  · simp
  · simp

theorem View.plain? (h : View s s' S) {n : ν} {n' : ν'} (hn : S n n') :
    s.plain? n = s'.plain? n' := by
  have hnone : s.identity n = none ↔ s'.identity n' = none := by
    simpa using not_congr (h.identity hn)
  ext p
  rw [plain?_eq_some, plain?_eq_some, hnone, h.inspect_plain hn]

theorem View.allPlain (h : View s s' S) {ns : List ν} {ns' : List ν'} (hn : List.Forall₂ S ns ns') :
    AllPlain s ns ↔ AllPlain s' ns' := by
  induction hn with
  | nil => simp [AllPlain]
  | cons hn _ ih =>
    unfold AllPlain at ih ⊢
    rw [List.forall_mem_cons, List.forall_mem_cons, h.plain? hn, ih]

theorem View.map_plain? (h : View s s' S) {ns : List ν} {ns' : List ν'}
    (hn : List.Forall₂ S ns ns') : ns.map s.plain? = ns'.map s'.plain? := by
  induction hn with
  | nil => rfl
  | cons hn _ ih => rw [List.map_cons, List.map_cons, h.plain? hn, ih]

theorem unzipEntries_flatMap {α : Type} (es : List (α × α)) :
    unzipEntries (es.flatMap fun e => [e.1, e.2]) = es := by
  induction es with
  | nil => rfl
  | cons e es ih =>
    rw [List.flatMap_cons]
    exact congrArg (e :: ·) ih

theorem unzipEntries_keyed (es : List (ν × ν)) : unzipEntries (Slots.keyed es).nodes = es := by
  rw [Slots.nodes_keyed, unzipEntries_flatMap]

theorem unzipEntries_forall₂ {as : List ν} {bs : List ν'} (h : List.Forall₂ S as bs) :
    List.Forall₂ (fun x y => S x.1 y.1 ∧ S x.2 y.2) (unzipEntries as) (unzipEntries bs) := by
  induction as using unzipEntries.induct generalizing bs with
  | case1 k v rest ih =>
    cases h with
    | cons hk h =>
      cases h with
      | cons hv hrest => exact .cons ⟨hk, hv⟩ (ih hrest)
  | case2 as hno =>
    cases h with
    | nil => exact .nil
    | cons hk hrest =>
      cases hrest with
      | nil => exact .nil
      | cons hv hrest => exact (hno _ _ _ rfl).elim

/-! ### Partners in a view -/

private theorem FirstWith.image {p : Slot → Prop} {entries : List (Slot × μ)}
    {entries' : List (Slot × μ')} (hrel : List.Forall₂ (fun x y => x.1 = y.1 ∧ T x.2 y.2) entries entries')
    {n : μ} (h : FirstWith p entries n) : ∃ n', FirstWith p entries' n' ∧ T n n' := by
  obtain ⟨before, slot, after, rfl, hp, hbefore⟩ := h
  obtain ⟨before', ⟨slot', n'⟩, after', rfl, hb, ⟨heq, hn⟩, _⟩ := forall₂_cut hrel
  dsimp only at heq hn
  subst heq
  refine ⟨n', ⟨before', slot, after', rfl, hp, fun e he => ?_⟩, hn⟩
  obtain ⟨e', he', hlabel, _⟩ := forall₂_mem_right hb he
  exact hlabel ▸ hbefore e' he'

private theorem FieldPartner.image {slot : Slot} {entries : List (Slot × μ)}
    {entries' : List (Slot × μ')} (hrel : List.Forall₂ (fun x y => x.1 = y.1 ∧ T x.2 y.2) entries entries')
    {n : μ} (h : FieldPartner slot entries n) : ∃ n', FieldPartner slot entries' n' ∧ T n n' := by
  rcases h with h | ⟨hne, h⟩
  · obtain ⟨n', h', hn⟩ := h.image hrel
    exact ⟨n', .inl h', hn⟩
  · obtain ⟨n', h', hn⟩ := h.image hrel
    refine ⟨n', .inr ⟨fun e he => ?_, h'⟩, hn⟩
    obtain ⟨e', he', hlabel, _⟩ := forall₂_mem_right hrel he
    exact hlabel ▸ hne e' he'

private theorem LastUnder.image (ht : View t t' T) (hs : View s s' S) {key : ν} {key' : ν'}
    (hkey : S key key') {entries : List (μ × μ)} {entries' : List (μ' × μ')}
    (hrel : List.Forall₂ (fun x y => T x.1 y.1 ∧ T x.2 y.2) entries entries') {n : μ}
    (h : LastUnder s t key entries n) : ∃ n', LastUnder s' t' key' entries' n' ∧ T n n' := by
  obtain ⟨before, k, after, rfl, hk, hafter⟩ := h
  obtain ⟨before', ⟨k', n'⟩, after', rfl, _, ⟨hk', hn⟩, ha⟩ := forall₂_cut hrel
  refine ⟨n', ⟨before', k', after', rfl, ?_, fun e he => ?_⟩, hn⟩
  · rw [← ht.plain? hk', ← hs.plain? hkey]
    exact hk
  · obtain ⟨e', he', hlabel, _⟩ := forall₂_mem_right ha he
    rw [← ht.plain? hlabel, ← hs.plain? hkey]
    exact hafter e' he'

/-! ### Bisimulations in a view -/

theorem Agree.image (hs : View s s' S) (ht : View t t' T) {l : ν} {l' : ν'} {r : μ} {r' : μ'}
    (hl : S l l') (hr : T r r') (h : Agree s t R l r) : Agree s' t' (Image S T R) l' r' := by
  have href := and_congr (hs.identity hl) (ht.identity hr)
  unfold Agree at *
  split at h
  · next hboth =>
    rw [if_pos (href.1 hboth)]
    exact ⟨l, r, hl, hr, h⟩
  · next hnot =>
    rw [if_neg fun hboth => hnot (href.2 hboth)]
    obtain ⟨p, hlp, hrp⟩ := h
    exact ⟨p, (hs.inspect_plain hl).1 hlp, (ht.inspect_plain hr).1 hrp⟩

private theorem agree_positions (hs : View s s' S) (ht : View t t' T) {ls : List ν} {ls' : List ν'}
    {rs : List μ} {rs' : List μ'} (hl : List.Forall₂ S ls ls') (hr : List.Forall₂ T rs rs')
    (h : List.Forall₂ (Agree s t R) ls rs) : List.Forall₂ (Agree s' t' (Image S T R)) ls' rs' := by
  induction h generalizing ls' rs' with
  | nil =>
    cases hl
    cases hr
    exact .nil
  | cons hagree _ ih =>
    cases hl with
    | cons hl hls =>
      cases hr with
      | cons hr hrs => exact .cons (hagree.image hs ht hl hr) (ih hls hrs)

theorem ContentsAgree.image (hs : View s s' S) (ht : View t t' T) {left : Slots ν}
    {left' : Slots ν'} {right : Slots μ} {right' : Slots μ'} (hl : Slots.Rel S left left')
    (hr : Slots.Rel T right right') (h : ContentsAgree s t R left right) :
    ContentsAgree s' t' (Image S T R) left' right' := by
  have hpositions := fun h => agree_positions (R := R) hs ht hl.nodes hr.nodes h
  unfold ContentsAgree at *
  rw [← hl.1]
  cases hshape : left.shape with
  | object =>
    simp only [hshape] at h ⊢
    intro e' he'
    obtain ⟨e, he, hlabel, hval⟩ := forall₂_mem_right hl.2 he'
    obtain ⟨n, hpartner, hagree⟩ := h e he
    obtain ⟨n', hpartner', hn⟩ := hpartner.image hr.2
    exact ⟨n', hlabel ▸ hpartner', hagree.image hs ht hval hn⟩
  | array => simp only [hshape] at h ⊢; exact hpositions h
  | list => simp only [hshape] at h ⊢; exact hpositions h
  | set =>
    simp only [hshape] at h ⊢
    have hall := and_congr (hs.allPlain hl.nodes) (ht.allPlain hr.nodes)
    rw [← hs.map_plain? hl.nodes, ← ht.map_plain? hr.nodes]
    split at h
    · next hplain => rw [if_pos (hall.1 hplain)]; exact h
    · next hplain => rw [if_neg fun hp => hplain (hall.2 hp)]; exact hpositions h
  | map =>
    simp only [hshape] at h ⊢
    have hunzipl := unzipEntries_forall₂ hl.nodes
    have hunzipr := unzipEntries_forall₂ hr.nodes
    have hkeysl : List.Forall₂ S ((unzipEntries left.nodes).map Prod.fst)
        ((unzipEntries left'.nodes).map Prod.fst) :=
      List.forall₂_map_left_iff.2 (List.forall₂_map_right_iff.2 (hunzipl.imp fun _ _ => And.left))
    have hkeysr : List.Forall₂ T ((unzipEntries right.nodes).map Prod.fst)
        ((unzipEntries right'.nodes).map Prod.fst) :=
      List.forall₂_map_left_iff.2 (List.forall₂_map_right_iff.2 (hunzipr.imp fun _ _ => And.left))
    have hall := and_congr (hs.allPlain hkeysl) (ht.allPlain hkeysr)
    split at h
    · next hplain =>
      rw [if_pos (hall.1 hplain)]
      intro e' he'
      obtain ⟨e, he, hkey, hval⟩ := forall₂_mem_right hunzipl he'
      obtain ⟨n, hlast, hagree⟩ := h e he
      obtain ⟨n', hlast', hn⟩ := hlast.image ht hs hkey hunzipr
      exact ⟨n', hlast', hagree.image hs ht hval hn⟩
    · next hplain => rw [if_neg fun hp => hplain (hall.2 hp)]; exact hpositions h

theorem Locally.image (hs : View s s' S) (ht : View t t' T) {l : ν} {l' : ν'} {r : μ} {r' : μ'}
    (hl : S l l') (hr : T r r') (h : Locally s t R l r) : Locally s' t' (Image S T R) l' r' := by
  have hlike := hs.inspect hl
  have hrike := ht.inspect hr
  unfold Locally at h
  split at h
  · next lt left rt right hleft hright =>
    rw [hleft] at hlike
    rw [hright] at hrike
    generalize hleft' : s'.inspect l' = x at hlike
    generalize hright' : t'.inspect r' = y at hrike
    cases hlike with
    | composite hlrel =>
      cases hrike with
      | composite hrrel =>
        simp only [Locally, hleft', hright']
        obtain ⟨htype, hshape, hlen, hcontents⟩ := h
        refine ⟨htype, ?_, ?_, hcontents.image hs ht hlrel hrrel⟩
        · rw [← hlrel.1, ← hrrel.1]; exact hshape
        · rw [← hlrel.2.length_eq, ← hrrel.2.length_eq]; exact hlen
  · next a b hleft hright =>
    simp only [Locally, (hs.inspect_plain hl).1 hleft, (ht.inspect_plain hr).1 hright]
    exact h
  · exact h.elim

theorem Bisimulation.image (hs : View s s' S) (ht : View t t' T) (hR : Bisimulation s t R) :
    Bisimulation s' t' (Image S T R) where
  references := by
    rintro l' r' ⟨l, r, hl, hr, hlr⟩
    rw [← hs.identity hl, ← ht.identity hr]
    exact hR.references l r hlr
  locally := by
    rintro l' r' ⟨l, r, hl, hr, hlr⟩
    exact (hR.locally l r hlr).image hs ht hl hr

private theorem equals_image (hs : View s s' S) (ht : View t t' T) {l : ν} {l' : ν'} {r : μ}
    {r' : μ'} (hl : S l l') (hr : T r r') (h : equals s t l r = true) :
    equals s' t' l' r' = true := by
  obtain ⟨R, hR, hagree⟩ := bisimulation_of_equals h
  exact equals_of_bisimulation (hR.image hs ht) (hagree.image hs ht hl hr)

/-- Deep equality sees no difference between a structure and a view of it. -/
theorem equals_eq_of_views (hs : View s s' S) (ht : View t t' T) {l : ν} {l' : ν'} {r : μ}
    {r' : μ'} (hl : S l l') (hr : T r r') : equals s t l r = equals s' t' l' r' := by
  rw [Bool.eq_iff_iff]
  exact ⟨equals_image hs ht hl hr, equals_image hs.symm ht.symm hl hr⟩

end

end DeepEquality

namespace Serialization

open DeepEquality

variable {h : Heap} {types : ClassTable}

/-- Captured nodes are a view of the live values that they show. -/
theorem view_captured {g : Graph} {met : ObjectId → NodeId → Prop} (hc : Captured h types g met) :
    View (h.structure types) g.structure (Shows g met) where
  identity {v n} hv := by
    cases hv with
    | null hn => simp [Heap.structure, Heap.identity, Graph.structure, Graph.identity, hn, Node.isReference]
    | scalar hn => simp [Heap.structure, Heap.identity, Graph.structure, Graph.identity, hn, Node.isReference]
    | constant hn => simp [Heap.structure, Heap.identity, Graph.structure, Graph.identity, hn, Node.isReference]
    | object hm =>
      obtain ⟨o, slots, declared, content, ho, _, hn, _⟩ := hc.holds hm
      have hlt := Heap.get?_isSome.1 (Option.isSome_iff_exists.2 ⟨o, ho⟩)
      simp [Heap.structure, Heap.identity, Graph.structure, Graph.identity, hn, Node.isReference, hlt]
  inspect {v n} hv := by
    cases hv with
    | null hn =>
      simp only [Heap.structure, Heap.inspect, Graph.structure, Graph.inspect, hn]
      exact .plain _
    | scalar hn =>
      simp only [Heap.structure, Heap.inspect, Graph.structure, Graph.inspect, hn]
      exact .plain _
    | constant hn =>
      simp only [Heap.structure, Heap.inspect, Graph.structure, Graph.inspect, hn]
      exact .plain _
    | object hm =>
      obtain ⟨o, slots, declared, content, ho, hslots, hn, hrel⟩ := hc.holds hm
      simp only [Heap.structure, Heap.inspect, Graph.structure, Graph.inspect, hn, ho, hslots]
      exact .composite hrel

/-- One verdict on two captured values, on the first of them and the other live one, and on the live
ones. -/
def SameVerdict (h : Heap) (types : ClassTable) (a b : Value) (g : Graph) (m : NodeId) (g' : Graph)
    (n : NodeId) : Prop :=
  g.equal m g' n = h.equal types a b ∧ g.matchesLive m h types b = h.equal types a b

theorem sameVerdict_of_captured {a b : Value} {g g' : Graph} {m n : NodeId}
    {met met' : ObjectId → NodeId → Prop} (hc : Captured h types g met)
    (hc' : Captured h types g' met') (ha : Shows g met a m) (hb : Shows g' met' b n) :
    SameVerdict h types a b g m g' n :=
  ⟨(equals_eq_of_views (view_captured hc) (view_captured hc') ha hb).symm,
    (equals_eq_of_views (view_captured hc) (.refl _) ha rfl).symm⟩

/-- Capturing keeps deep equality, in one graph within one serialization, in one graph within two,
and in two graphs, whatever they hold already. -/
theorem captured_equal_iff_equal (h : Heap) (types : ClassTable) (a b : Value) (da db : Ty)
    (g g' : Graph) (i i' : Interner) (ha : h.Readable a) (hb : h.Readable b) :
    (∃ m s n t, node ⟨h, types, standard⟩ a da (.start g i) = (.ok m, s) ∧
      node ⟨h, types, standard⟩ b db s = (.ok n, t) ∧
        SameVerdict h types a b t.graph m t.graph n) ∧
    (∃ m s n t, node ⟨h, types, standard⟩ a da (.start g i) = (.ok m, s) ∧
      (do resetIdentities; node ⟨h, types, standard⟩ b db) s = (.ok n, t) ∧
        SameVerdict h types a b t.graph m t.graph n) ∧
    (∃ m s n t, node ⟨h, types, standard⟩ a da (.start g i) = (.ok m, s) ∧
      node ⟨h, types, standard⟩ b db (.start g' i') = (.ok n, t) ∧
        SameVerdict h types a b s.graph m t.graph n) := by
  have htidy : Tidy (.start g i) := tidy_of_identities_eq_nil rfl
  obtain ⟨m, s, hrun, hstart, hs, hm⟩ := node_succeeds types a da ha htidy
  have hcs := hstart.captured rfl hs
  refine ⟨?_, ?_, ?_⟩
  · obtain ⟨n, t, hrun', hst, ht, hn⟩ := node_succeeds types b db hb hs
    have hct := (hstart.trans hst).captured rfl ht
    exact ⟨m, s, n, t, hrun, hrun', sameVerdict_of_captured hct hct (hst.shows hm) hn⟩
  · let s' : State := { s with identities := [] }
    have hs' : Tidy s' := tidy_of_identities_eq_nil rfl
    obtain ⟨n, t, hrun', hst, ht, hn⟩ := node_succeeds types b db hb hs'
    have hct := hst.captured rfl ht
    have hreset : resetIdentities s = (.ok ⟨⟩, s') := rfl
    refine ⟨m, s, n, t, hrun, (Effect.bind_of_ok hreset).trans hrun', ?_⟩
    have hkept : ∀ {n x}, s.graph.get? n = some x → t.graph.get? n = some x := fun hx => hst.node hx
    exact sameVerdict_of_captured (hcs.mono hkept) hct
      (hm.mono (fun hx _ => hkept hx) fun hmet => hmet) hn
  · have htidy' : Tidy (.start g' i') := tidy_of_identities_eq_nil rfl
    obtain ⟨n, t, hrun', hst, ht, hn⟩ := node_succeeds types b db hb htidy'
    exact ⟨m, s, n, t, hrun, hrun', sameVerdict_of_captured hcs (hst.captured rfl ht) hm hn⟩

/-- Two lists that each hold only themselves are found equal in two graphs. -/
theorem captured_loops_equal :
    let loops : Heap := ⟨#[⟨.ofClass "ArrayList", .list [.object 0], false⟩,
      ⟨.ofClass "ArrayList", .list [.object 1], false⟩]⟩
    ∃ m s n t,
      node ⟨loops, .empty, standard⟩ (.object 0) .object (.start .empty .empty) = (.ok m, s) ∧
        node ⟨loops, .empty, standard⟩ (.object 1) .object (.start .empty .empty) = (.ok n, t) ∧
          s.graph.equal m t.graph n = true := by
  intro loops
  obtain ⟨_, _, m, s, n, t, hm, hn, hverdict, _⟩ :=
    captured_equal_iff_equal loops .empty (.object 0) (.object 1) .object .object .empty .empty
      .empty .empty (by decide) (by decide)
  exact ⟨m, s, n, t, hm, hn, hverdict.trans (by decide)⟩

end Serialization

end Reenact
