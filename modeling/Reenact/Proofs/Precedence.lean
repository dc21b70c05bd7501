import Mathlib
import Reenact.Proofs.Ancestry

/-!
The order of a chain. Every adaptor stands before its ancestors, siblings stand as they were
registered, and an adaptor only overtakes one registered before it on the way to an ancestor that was
registered no later; so a list that puts children first already is left as it is.
-/

namespace Reenact

/-- The first element stands before the second in the list. -/
def Precedes {α : Type} (l : List α) (a b : α) : Prop := [a, b].Sublist l

section

variable {α : Type} {l front rest : List α} {a b c : α}

theorem precedes_iff : Precedes l a b ↔ ∃ front rest, l = front ++ rest ∧ a ∈ front ∧ b ∈ rest := by
  constructor
  · intro h
    obtain ⟨front, rest, rfl, ha, hb⟩ := List.cons_sublist_iff.1 h
    exact ⟨front, rest, rfl, ha, List.singleton_sublist.1 hb⟩
  · rintro ⟨front, rest, rfl, ha, hb⟩
    exact (List.singleton_sublist.2 ha).append (List.singleton_sublist.2 hb)

theorem precedes_split (ha : a ∈ front) : Precedes (front ++ b :: rest) a b :=
  precedes_iff.2 ⟨front, b :: rest, rfl, ha, List.mem_cons_self⟩

theorem Precedes.mem_left (h : Precedes l a b) : a ∈ l := h.subset (by simp)

theorem Precedes.mem_right (h : Precedes l a b) : b ∈ l := h.subset (by simp)

theorem Precedes.ne (hnodup : l.Nodup) (h : Precedes l a b) : a ≠ b := by
  simpa using List.Sublist.nodup h hnodup

theorem precedes_or (ha : a ∈ l) (hb : b ∈ l) (hne : a ≠ b) : Precedes l a b ∨ Precedes l b a := by
  obtain ⟨front, rest, rfl⟩ := List.append_of_mem ha
  rcases List.mem_append.1 hb with hfront | hrest
  · exact .inr (precedes_split hfront)
  · have hrest : b ∈ rest := (List.mem_cons.1 hrest).resolve_left hne.symm
    exact .inl (precedes_iff.2 ⟨front ++ [a], rest, by simp, by simp, hrest⟩)

theorem Precedes.trans (hnodup : l.Nodup) (hab : Precedes l a b) (hbc : Precedes l b c) : Precedes l a c := by
  obtain ⟨front, rest, rfl, ha, hb⟩ := precedes_iff.1 hab
  obtain ⟨front', rest', heq, hb', hc⟩ := precedes_iff.1 hbc
  rw [List.nodup_append] at hnodup
  rcases List.append_eq_append_iff.1 heq with ⟨between, rfl, rfl⟩ | ⟨between, rfl, rfl⟩
  · exact precedes_iff.2 ⟨front, between ++ rest', rfl, ha, List.mem_append_right _ hc⟩
  · exact absurd rfl (hnodup.2.2 b (List.mem_append_left _ hb') b hb)

theorem Precedes.asymm (hnodup : l.Nodup) (hab : Precedes l a b) (hba : Precedes l b a) : False :=
  (hab.trans hnodup hba).ne hnodup rfl

/-- In a list without repetition, who stands before a member stands in the part in front of it. -/
theorem Precedes.mem_front (hnodup : l.Nodup) (h : Precedes l a b)
    (heq : l = front ++ b :: rest) : a ∈ front := by
  subst heq
  rcases List.mem_append.1 h.mem_left with ha | ha
  · exact ha
  · rcases List.mem_cons.1 ha with rfl | ha
    · exact absurd rfl (h.ne hnodup)
    · have hba : Precedes (front ++ b :: rest) b a :=
        precedes_iff.2 ⟨front ++ [b], rest, by simp, by simp, ha⟩
      exact (h.asymm hnodup hba).elim

/-- Two lists with the same members are the same if no two of them stand in another order. -/
theorem eq_of_perm_of_precedes {l l' : List α} (hperm : l.Perm l') (hnodup' : l'.Nodup)
    (h : ∀ {a b}, Precedes l a b → ¬ Precedes l' b a) : l = l' := by
  have hnodup : l.Nodup := hperm.nodup_iff.2 hnodup'
  have hordered : l.Pairwise (Precedes l') := by
    refine List.pairwise_iff_forall_sublist.2 fun {a b} hab => ?_
    have hab : Precedes l a b := hab
    have hor := precedes_or (hperm.subset hab.mem_left) (hperm.subset hab.mem_right) (hab.ne hnodup)
    exact hor.resolve_right (h hab)
  have hordered' : l'.Pairwise (Precedes l') := List.pairwise_iff_forall_sublist.2 fun hab => hab
  exact List.Perm.eq_of_pairwise (fun a b _ _ hab hba => (hab.asymm hnodup' hba).elim) hordered hordered' hperm

end

namespace Chain

variable {β : Type}

/-- A chain of the registered adaptors in which children come first, and which keeps the order of
registration otherwise. -/
structure ChildrenFirst (all entries : List (Adaptor β)) : Prop where
  perm : entries.Perm all
  descendant_first : ∀ {a b}, Descends all a b → Precedes entries a b
  sibling_order : ∀ {a b}, a.parent = b.parent → Precedes all a b → Precedes entries a b
  overtaken : ∀ {a b}, Precedes entries a b → Precedes all b a →
    ∃ c, Descends all a c ∧ (c = b ∨ Precedes all c b)
  unchanged : (∀ {a b}, Link all a b → Precedes all a b) → entries = all

def children (all : List (Adaptor β)) (a : Adaptor β) : List (Adaptor β) :=
  all.filter (·.parent == some a.name)

/-- Placing the pending adaptors behind those that are placed: one that is placed stays where it is, any
other one is placed behind its children. -/
inductive Walk (all : List (Adaptor β)) :
    (placed pending out : List (Adaptor β)) → Prop where
  | done {placed} : Walk all placed [] placed
  | skip {placed a pending out} : a ∈ placed → Walk all placed pending out → Walk all placed (a :: pending) out
  | enter {placed a pending mid out} : a ∉ placed → Walk all placed (children all a) mid →
      Walk all (mid ++ [a]) pending out → Walk all placed (a :: pending) out

/-- The first adaptor has to be placed before the second: it is a child of it, or a sibling that was
registered earlier. -/
inductive Due (all : List (Adaptor β)) (a b : Adaptor β) : Prop where
  | child : Link all a b → Due all a b
  | elder : a.parent = b.parent → Precedes all a b → Due all a b

def Settled (all placed : List (Adaptor β)) : Prop :=
  ∀ front b rest, placed = front ++ b :: rest → ∀ a, Due all a b → a ∈ front

/-- The siblings registered before a pending adaptor are placed, or pending before it. -/
def Waiting (all placed pending : List (Adaptor β)) : Prop :=
  ∀ front b rest, pending = front ++ b :: rest → ∀ a, a.parent = b.parent → Precedes all a b →
    a ∈ placed ∨ a ∈ front

variable {all placed pending front rest mid out : List (Adaptor β)} {a b c : Adaptor β}

theorem Descends.precedes {l : List (Adaptor β)} (hnodup : l.Nodup) (hlink : ∀ {a b}, Link all a b → Precedes l a b)
    (h : Descends all a b) : Precedes l a b := by
  induction h with
  | single hab => exact hlink hab
  | tail _ hbc ih => exact ih.trans hnodup (hlink hbc)

/-! ### Placing -/

theorem children_subset (a : Adaptor β) : children all a ⊆ all := List.filter_subset_self _

theorem mem_children : b ∈ children all a ↔ b ∈ all ∧ b.parent = some a.name := by
  simp [children]

theorem Link.of_child (ha : a ∈ all) (hb : b ∈ children all a) : Link all b a :=
  ⟨(mem_children.1 hb).1, ha, (mem_children.1 hb).2⟩

theorem Walk.functional {out' : List (Adaptor β)} (h : Walk all placed pending out)
    (h' : Walk all placed pending out') : out = out' := by
  induction h generalizing out' with
  | done =>
    cases h'
    rfl
  | skip ha _ ih =>
    cases h' with
    | skip _ hrest => exact ih hrest
    | enter hnew => exact absurd ha hnew
  | enter hnew _ _ ihchildren ihrest =>
    cases h' with
    | skip ha => exact absurd ha hnew
    | enter _ hchildren hrest =>
      obtain rfl := ihchildren hchildren
      exact ihrest hrest

theorem Walk.append {more : List (Adaptor β)} (h : Walk all placed (pending ++ more) out) :
    ∃ mid, Walk all placed pending mid ∧ Walk all mid more out := by
  induction pending generalizing placed with
  | nil => exact ⟨placed, .done, h⟩
  | cons a pending ih =>
    cases h with
    | skip ha hrest =>
      obtain ⟨mid, hmid, hmore⟩ := ih hrest
      exact ⟨mid, .skip ha hmid, hmore⟩
    | enter hnew hchildren hrest =>
      obtain ⟨mid, hmid, hmore⟩ := ih hrest
      exact ⟨mid, .enter hnew hchildren hmid, hmore⟩

/-- What is placed stays in front. -/
theorem Walk.exists_append (h : Walk all placed pending out) : ∃ new, out = placed ++ new := by
  induction h with
  | done => exact ⟨[], by simp⟩
  | skip _ _ ih => exact ih
  | @enter placed a _ _ _ _ _ _ ihchildren ihrest =>
    obtain ⟨new, rfl⟩ := ihchildren
    obtain ⟨new', rfl⟩ := ihrest
    exact ⟨new ++ a :: new', by simp⟩

theorem Walk.mem_of_placed (h : Walk all placed pending out) (ha : a ∈ placed) : a ∈ out := by
  obtain ⟨new, rfl⟩ := h.exists_append
  exact List.mem_append_left _ ha

theorem Walk.mem_of_pending (h : Walk all placed pending out) (ha : a ∈ pending) : a ∈ out := by
  induction h with
  | done => cases ha
  | skip hplaced hrest ih =>
    rcases List.mem_cons.1 ha with rfl | ha
    · exact hrest.mem_of_placed hplaced
    · exact ih ha
  | enter _ _ hrest _ ih =>
    rcases List.mem_cons.1 ha with rfl | ha
    · exact hrest.mem_of_placed (by simp)
    · exact ih ha

/-- Only pending adaptors and their descendants get placed. -/
theorem Walk.mem_cases (h : Walk all placed pending out) (hpending : pending ⊆ all) (hb : b ∈ out) :
    b ∈ placed ∨ ∃ a ∈ pending, b = a ∨ Descends all b a := by
  induction h with
  | done => exact .inl hb
  | skip _ _ ih =>
    refine (ih (List.subset_of_cons_subset hpending) hb).imp_right ?_
    rintro ⟨c, hc, hbc⟩
    exact ⟨c, List.mem_cons_of_mem _ hc, hbc⟩
  | @enter placed a pending mid out _ _ _ ihchildren ihrest =>
    have ha : a ∈ all := hpending List.mem_cons_self
    rcases ihrest (List.subset_of_cons_subset hpending) hb with hmid | ⟨c, hc, hbc⟩
    · rcases List.mem_append.1 hmid with hmid | hself
      · refine (ihchildren (children_subset a) hmid).imp_right ?_
        rintro ⟨c, hc, hbc⟩
        have hlink := Link.of_child ha hc
        refine ⟨a, List.mem_cons_self, .inr ?_⟩
        rcases hbc with rfl | hbc
        · exact .single hlink
        · exact hbc.tail hlink
      · exact .inr ⟨a, List.mem_cons_self, .inl (List.mem_singleton.1 hself)⟩
    · exact .inr ⟨c, List.mem_cons_of_mem _ hc, hbc⟩

theorem Walk.subset (h : Walk all placed pending out) (hplaced : placed ⊆ all) (hpending : pending ⊆ all) :
    out ⊆ all := by
  intro b hb
  rcases h.mem_cases hpending hb with hb | ⟨a, ha, rfl | hdescends⟩
  · exact hplaced hb
  · exact hpending ha
  · exact hdescends.mem_left

theorem Walk.nodup (h : Walk all placed pending out) (hacyclic : ∀ a, ¬ Descends all a a)
    (hpending : pending ⊆ all) (hplaced : placed.Nodup) : out.Nodup := by
  induction h with
  | done => exact hplaced
  | skip _ _ ih => exact ih (List.subset_of_cons_subset hpending) hplaced
  | @enter placed a pending mid out hnew hchildren _ ihchildren ihrest =>
    have ha : a ∈ all := hpending List.mem_cons_self
    -- What is placed for the sake of `a` lies below it, so it is not `a` itself.
    have hfresh : a ∉ mid := by
      intro hmid
      rcases hchildren.mem_cases (children_subset a) hmid with hplaced | ⟨c, hc, rfl | hac⟩
      · exact hnew hplaced
      · exact hacyclic a (.single (Link.of_child ha hc))
      · exact hacyclic a (hac.tail (Link.of_child ha hc))
    refine ihrest (List.subset_of_cons_subset hpending) ?_
    exact List.nodup_append.2 ⟨ihchildren (children_subset a) hplaced, by simp, fun b hb c hc heq =>
      hfresh (List.mem_singleton.1 hc ▸ heq ▸ hb)⟩

/-! ### What is placed first -/

theorem Waiting.tail (h : Waiting all placed (a :: pending)) (hsub : placed ⊆ mid) (ha : a ∈ mid) :
    Waiting all mid pending := by
  intro front b rest heq c hparent hc
  rcases h (a :: front) b rest (by rw [heq, List.cons_append]) c hparent hc with hplaced | hfront
  · exact .inl (hsub hplaced)
  · rcases List.mem_cons.1 hfront with rfl | hfront
    · exact .inl ha
    · exact .inr hfront

theorem waiting_all (hnodup : all.Nodup) : Waiting all placed all :=
  fun _ _ _ heq _ _ hprecedes => .inr (hprecedes.mem_front hnodup heq)

theorem waiting_children (hnodup : all.Nodup) (a : Adaptor β) : Waiting all placed (children all a) := by
  intro front b rest heq c hparent hprecedes
  have hb : b.parent = some a.name := (mem_children.1 (heq ▸ by simp : b ∈ children all a)).2
  have hpair : Precedes (children all a) c b := by
    have hfiltered := List.Sublist.filter (fun x : Adaptor β => x.parent == some a.name) hprecedes
    rwa [List.filter_cons_of_pos (by simp [hparent, hb]), List.filter_cons_of_pos (by simp [hb]),
      List.filter_nil] at hfiltered
  exact .inr (hpair.mem_front (hnodup.filter _) heq)

theorem Settled.concat (h : Settled all placed) (ha : ∀ b, Due all b a → b ∈ placed) :
    Settled all (placed ++ [a]) := by
  intro front b rest heq c hdue
  rcases List.eq_nil_or_concat rest with rfl | ⟨init, x, rfl⟩
  · obtain ⟨rfl, hab⟩ := List.append_inj' heq rfl
    cases hab
    exact ha c hdue
  · rw [List.concat_eq_append, ← List.cons_append, ← List.append_assoc] at heq
    exact h front b init (List.append_inj' heq rfl).1 c hdue

theorem Walk.settled (h : Walk all placed pending out) (hnodup : all.Nodup) (hplaced : Settled all placed)
    (hwaiting : Waiting all placed pending) : Settled all out := by
  induction h with
  | done => exact hplaced
  | skip ha _ ih => exact ih hplaced (hwaiting.tail (fun _ h => h) ha)
  | @enter placed a pending mid out _ hchildren _ ihchildren ihrest =>
    refine ihrest ((ihchildren hplaced (waiting_children hnodup a)).concat fun b hdue => ?_)
      (hwaiting.tail (fun _ h => List.mem_append_left _ (hchildren.mem_of_placed h)) (by simp))
    cases hdue with
    | child hlink => exact hchildren.mem_of_pending (mem_children.2 ⟨hlink.child, hlink.named⟩)
    | elder hparent hprecedes =>
      rcases hwaiting [] a pending rfl b hparent hprecedes with hb | hb
      · exact hchildren.mem_of_placed hb
      · cases hb

/-! ### Building a chain -/

theorem Distinct.nodup (h : Distinct all) : all.Nodup := .of_map _ h

/-- The deeper an adaptor lies below its ancestors, the fewer levels there are below it. -/
theorem Sound.walk_foldl_place (h : Sound all) (depth : ℕ) (hplaced : placed ⊆ all)
    (hpending : ∀ a ∈ pending, a ∈ all ∧ all.length ≤ depth + (ancestors all a).card) :
    Walk all placed pending (pending.foldl (place all depth) placed) := by
  induction depth generalizing placed pending with
  | zero =>
    cases pending with
    | nil => exact .done
    | cons a pending =>
      obtain ⟨ha, hdepth⟩ := hpending a List.mem_cons_self
      have hlt := card_ancestors_lt_length ha (h.acyclic a)
      omega
  | succ depth ihdepth =>
    induction pending generalizing placed with
    | nil => exact .done
    | cons a pending ih =>
      obtain ⟨⟨ha, hdepth⟩, hrest⟩ := List.forall_mem_cons.1 hpending
      rw [List.foldl_cons, place]
      split
      · next hname =>
        obtain ⟨b, hb, heq⟩ := List.mem_map.1 (any_name.1 hname)
        obtain rfl := h.distinct.eq_of_name (hplaced hb) ha heq
        exact .skip hb (ih hplaced hrest)
      · next hname =>
        have hchildren : Walk all placed (children all a) ((children all a).foldl (place all depth) placed) := by
          refine ihdepth hplaced fun b hb => ?_
          have hlink := Link.of_child ha hb
          have hmore := card_ancestors_lt hlink (h.acyclic a)
          exact ⟨hlink.child, by omega⟩
        have hmid := hchildren.subset hplaced (children_subset a)
        refine .enter (fun hmem => hname (any_name.2 (List.mem_map_of_mem hmem))) hchildren (ih ?_ hrest)
        exact List.append_subset.2 ⟨hmid, by simpa using ha⟩

/-- The chain is what placing all adaptors one after the other gives. -/
theorem walk_of_build {chain : Chain β} (h : build all = .ok chain) : Walk all [] all chain.entries := by
  have hsound : Sound all := exists_build_iff.1 ⟨chain, h⟩
  rw [hsound.build_eq] at h
  cases h
  exact hsound.walk_foldl_place _ (List.nil_subset _) fun a ha => ⟨ha, Nat.le_add_right _ _⟩

theorem Settled.precedes_of_link (h : Settled all out) (hsub : all ⊆ out) (hlink : Link all a b) :
    Precedes out a b := by
  obtain ⟨front, rest, rfl⟩ := List.append_of_mem (hsub hlink.parent)
  exact precedes_split (h front b rest rfl a (.child hlink))

theorem Settled.sibling_order (h : Settled all out) (hsub : all ⊆ out) (hparent : a.parent = b.parent)
    (hab : Precedes all a b) : Precedes out a b := by
  obtain ⟨front, rest, rfl⟩ := List.append_of_mem (hsub hab.mem_right)
  exact precedes_split (h front b rest rfl a (.elder hparent hab))

/-- By the time an adaptor and those registered before it are placed, only these and their descendants
are. So what stands in front of it, but was registered later, descends from one of them. -/
theorem Walk.overtaken (h : Walk all [] all out) (hall : all.Nodup) (hout : out.Nodup) (hab : Precedes out a b)
    (hba : Precedes all b a) : ∃ c, Descends all a c ∧ (c = b ∨ Precedes all c b) := by
  obtain ⟨front, rest, heq⟩ := List.append_of_mem hba.mem_left
  have hsplit : all = (front ++ [b]) ++ rest := by simp [heq]
  obtain ⟨mid, hmid, hrest⟩ := Walk.append (hsplit ▸ h : Walk all [] ((front ++ [b]) ++ rest) out)
  obtain ⟨new, rfl⟩ := hrest.exists_append
  have hb : b ∈ mid := hmid.mem_of_pending (by simp)
  have ha : a ∈ mid := by
    obtain ⟨before, after, rfl⟩ := List.append_of_mem hb
    rw [List.append_assoc, List.cons_append] at hab hout
    exact List.mem_append_left _ (hab.mem_front hout rfl)
  have hsub : front ++ [b] ⊆ all := by rw [hsplit]; exact List.subset_append_left _ _
  rcases hmid.mem_cases hsub ha with hnone | ⟨c, hc, hac⟩
  · cases hnone
  have hcb : c = b ∨ Precedes all c b := by
    rcases List.mem_append.1 hc with hfront | hself
    · exact .inr (heq ▸ precedes_split hfront)
    · exact .inl (List.mem_singleton.1 hself)
  refine ⟨c, hac.resolve_left ?_, hcb⟩
  rintro rfl
  rcases hcb with rfl | hcb
  · exact hba.ne hall rfl
  · exact hba.asymm hall hcb

theorem Walk.childrenFirst (h : Walk all [] all out) (hsound : Sound all) : ChildrenFirst all out := by
  have hall : all.Nodup := hsound.distinct.nodup
  have hout : out.Nodup := h.nodup hsound.acyclic (List.Subset.refl _) List.nodup_nil
  have hsub : all ⊆ out := fun a ha => h.mem_of_pending ha
  have hperm : out.Perm all := (List.perm_ext_iff_of_nodup hout hall).2 fun a =>
    ⟨fun ha => h.subset (List.nil_subset _) (List.Subset.refl _) ha, fun ha => hsub ha⟩
  have hsettled : Settled all out := h.settled hall (fun front b rest heq => by simp at heq) (waiting_all hall)
  refine ⟨hperm, Descends.precedes hout (hsettled.precedes_of_link hsub), hsettled.sibling_order hsub,
    h.overtaken hall hout, fun hfirst => eq_of_perm_of_precedes hperm hall fun hab hba => ?_⟩
  -- What overtakes descends from something that stands no later, so it stood in front before.
  obtain ⟨c, hdescends, hcb⟩ := h.overtaken hall hout hab hba
  have hac := Descends.precedes hall hfirst hdescends
  rcases hcb with rfl | hcb
  · exact hba.asymm hall hac
  · exact hba.asymm hall (hac.trans hall hcb)

/-- A list of adaptors makes a chain exactly if it is sound, and is refused for the first thing wrong with
it otherwise; the chain puts children first and keeps the order of registration apart from that. -/
theorem built_children_first (all : List (Adaptor β)) :
    ((∃ chain, build all = .ok chain) ↔ Sound all) ∧ (∀ e, build all = .error e ↔ Rejects all e) ∧
      ∀ chain, build all = .ok chain → ChildrenFirst all chain.entries :=
  ⟨exists_build_iff, fun _ => build_eq_error_iff,
    fun chain hchain => (walk_of_build hchain).childrenFirst (exists_build_iff.1 ⟨chain, hchain⟩)⟩

/-- Adaptors for lists that refine each other, registered after what they refine. -/
def listAdaptors : List (Adaptor Unit) :=
  [⟨"literal", none, ()⟩, ⟨"list", none, ()⟩, ⟨"set", none, ()⟩, ⟨"wrapped", some "list", ()⟩,
    ⟨"checked", some "wrapped", ()⟩]

def listChain : Chain Unit :=
  ⟨[⟨"literal", none, ()⟩, ⟨"checked", some "wrapped", ()⟩, ⟨"wrapped", some "list", ()⟩, ⟨"list", none, ()⟩,
    ⟨"set", none, ()⟩]⟩

theorem list_chain_children_first :
    build listAdaptors = .ok listChain ∧ Sound listAdaptors ∧ ChildrenFirst listAdaptors listChain.entries :=
  have hbuild : build listAdaptors = .ok listChain := rfl
  have h := built_children_first listAdaptors
  ⟨hbuild, h.1.1 ⟨_, hbuild⟩, h.2.2 _ hbuild⟩

end Chain

end Reenact
