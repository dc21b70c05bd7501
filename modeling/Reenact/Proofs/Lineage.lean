import Mathlib
import Reenact.Proofs.Inheritance

/-!
What a class inherits, whatever the table. Superclass and interface links may loop, lead to names that are not
registered, or belong to definitions that replaced others. Every walk along them remembers what it has met, so
it ends all the same, and it ends having met all that there is: a class has those above it that the links lead
to, and the fields of the classes on its chain of superclasses, up to the first gap or repetition.
-/

namespace Reenact.ClassTable

variable {t : ClassTable} {name upper : String} {seen queue : List String} {current : Option String}
  {chain chain' : List ClassDef}

/-! ### What has not been met -/

/-- The registered names that have not been met. -/
def unmet (t : ClassTable) (seen : List String) : Finset String := t.registeredNames \ seen.toFinset

theorem card_unmet_le_size (t : ClassTable) (seen : List String) : (t.unmet seen).card ≤ t.size :=
  (Finset.card_le_card Finset.sdiff_subset).trans t.card_registeredNames_le

theorem unmet_cons (t : ClassTable) (seen : List String) (name : String) :
    t.unmet (name :: seen) = (t.unmet seen).erase name := by
  unfold unmet
  rw [List.toFinset_cons, Finset.sdiff_insert]

theorem card_unmet_cons_le : (t.unmet (name :: seen)).card ≤ (t.unmet seen).card := by
  rw [unmet_cons]
  exact Finset.card_erase_le

theorem card_unmet_cons_lt {d : ClassDef} (hd : t.get? name = some d) (hnew : name ∉ seen) :
    (t.unmet (name :: seen)).card < (t.unmet seen).card := by
  rw [unmet_cons]
  have hmem : name ∈ t.unmet seen := Finset.mem_sdiff.2 ⟨mem_registeredNames hd, by simpa using hnew⟩
  exact Finset.card_erase_lt_of_mem hmem

/-! ### Ancestors -/

/-- The search for a class above those in the queue, without a bound on its steps. -/
inductive Seeks (t : ClassTable) (upper : String) : (queue seen : List String) → Bool → Prop where
  | exhausted {seen : List String} : Seeks t upper [] seen false
  | found {queue seen : List String} : Seeks t upper (upper :: queue) seen true
  | again {name : String} {queue seen : List String} {found : Bool} : name ≠ upper → name ∈ seen →
      Seeks t upper queue seen found → Seeks t upper (name :: queue) seen found
  | expand {name : String} {queue seen : List String} {found : Bool} : name ≠ upper → name ∉ seen →
      Seeks t upper (queue ++ t.parents name) (name :: seen) found → Seeks t upper (name :: queue) seen found

/-- Whether a class is above another one is asked, and the answer comes. -/
def Answers (t : ClassTable) (lower upper : String) (answer : Bool) : Prop :=
  if lower = upper ∨ upper = "Object" then answer = true else Seeks t upper [lower] [] answer

/-- The search ends: expanding a registered name leaves fewer of them unmet, and any other name has no parents,
so that expanding it leaves a shorter queue. -/
theorem exists_seeks (t : ClassTable) (upper : String) (n : ℕ) :
    ∀ queue seen, (t.unmet seen).card ≤ n → ∃ found, t.Seeks upper queue seen found := by
  induction n using Nat.strong_induction_on with
  | _ n ih =>
    intro queue
    induction queue with
    | nil => exact fun seen _ => ⟨false, .exhausted⟩
    | cons name queue ihqueue =>
      intro seen hn
      by_cases hupper : name = upper
      · exact ⟨true, hupper ▸ .found⟩
      by_cases hseen : name ∈ seen
      · obtain ⟨found, hfound⟩ := ihqueue seen hn
        exact ⟨found, .again hupper hseen hfound⟩
      have hexpand : ∃ found, t.Seeks upper (queue ++ t.parents name) (name :: seen) found := by
        cases hd : t.get? name with
        | none =>
          rw [parents_of_get?_none hd, List.append_nil]
          exact ihqueue (name :: seen) (card_unmet_cons_le.trans hn)
        | some d =>
          have hless := card_unmet_cons_lt hd hseen
          exact ih _ (hless.trans_le hn) (queue ++ t.parents name) (name :: seen) le_rfl
      obtain ⟨found, hfound⟩ := hexpand
      exact ⟨found, .expand hupper hseen hfound⟩

theorem Seeks.sound (h : t.Seeks upper queue seen true) : ∃ name ∈ queue, Leads t.parents name upper := by
  generalize hfound : true = found at h
  induction h with
  | exhausted => cases hfound
  | found => exact ⟨upper, List.mem_cons_self, .refl⟩
  | again _ _ _ ih =>
    obtain ⟨a, ha, hlead⟩ := ih hfound
    exact ⟨a, List.mem_cons_of_mem _ ha, hlead⟩
  | @expand name queue _ _ _ _ _ ih =>
    obtain ⟨a, ha, hlead⟩ := ih hfound
    rcases List.mem_append.1 ha with ha | ha
    · exact ⟨a, List.mem_cons_of_mem _ ha, hlead⟩
    · exact ⟨name, List.mem_cons_self, .head ha hlead⟩

/-- What was met has only parents that were met or are in the queue; so once the queue is empty, the names met
are closed under links. -/
theorem Seeks.complete (h : t.Seeks upper queue seen false) (hupper : upper ∉ seen)
    (hclosed : ∀ a ∈ seen, ∀ b ∈ t.parents a, b ∈ seen ∨ b ∈ queue) :
    ∀ a, a ∈ seen ∨ a ∈ queue → ¬ Leads t.parents a upper := by
  generalize hfound : false = found at h
  induction h with
  | @exhausted seen =>
    intro a ha hlead
    have hmet : ∀ b, Leads t.parents a b → b ∈ seen := by
      intro b hb
      induction hb with
      | refl => simpa using ha
      | tail _ hstep ih => simpa using hclosed _ ih _ hstep
    exact hupper (hmet upper hlead)
  | found => cases hfound
  | @again name queue seen _ _ hmem _ ih =>
    have hin : ∀ b, b ∈ seen ∨ b ∈ name :: queue → b ∈ seen ∨ b ∈ queue := by
      rintro b (hb | hb)
      · exact .inl hb
      · rcases List.mem_cons.1 hb with rfl | hb
        · exact .inl hmem
        · exact .inr hb
    exact fun a ha => ih hupper (fun a ha b hb => hin b (hclosed a ha b hb)) hfound a (hin a ha)
  | @expand name queue seen _ hne hnew _ ih =>
    have hin : ∀ b, b ∈ seen ∨ b ∈ name :: queue → b ∈ name :: seen ∨ b ∈ queue ++ t.parents name := by
      intro b hb
      simp only [List.mem_cons, List.mem_append] at hb ⊢
      tauto
    refine fun a ha => ih ?_ ?_ hfound a (hin a ha)
    · exact fun hmem => (List.mem_cons.1 hmem).elim (fun heq => hne heq.symm) hupper
    · intro a ha b hb
      rcases List.mem_cons.1 ha with rfl | ha
      · exact .inr (List.mem_append_right _ hb)
      · exact hin b (hclosed a ha b hb)

theorem seeks_iff {lower : String} {found : Bool} :
    t.Seeks upper [lower] [] found ↔ (found = true ↔ Leads t.parents lower upper) := by
  have hverdict : ∀ {found}, t.Seeks upper [lower] [] found → (found = true ↔ Leads t.parents lower upper) := by
    intro found h
    cases found with
    | true =>
      obtain ⟨a, ha, hlead⟩ := h.sound
      exact iff_of_true rfl (List.mem_singleton.1 ha ▸ hlead)
    | false => exact iff_of_false (by simp) (h.complete (by simp) (by simp) lower (by simp))
  refine ⟨hverdict, fun h => ?_⟩
  obtain ⟨found', hfound'⟩ := exists_seeks t upper t.size [lower] [] (card_unmet_le_size t [])
  rwa [Bool.eq_iff_iff.2 (h.trans (hverdict hfound').symm)]

theorem answers_iff {lower : String} {answer : Bool} :
    t.Answers lower upper answer ↔ answer = t.isSubclass lower upper := by
  rw [Bool.eq_iff_iff, isSubclass_iff, ← or_assoc]
  unfold Answers
  split
  · next hshort => simp [hshort]
  · next hlong => rw [seeks_iff, or_iff_right hlong]

/-! ### Superclasses -/

/-- The class that so many superclass links lead to. -/
def ancestorAt (t : ClassTable) : ℕ → Option String → Option String
  | 0, start => start
  | n + 1, start => t.ancestorAt n ((start.bind t.get?).bind ClassDef.superclass)

/-- The registered classes up the superclass links from a name, the nearest first: each of them once, and all
of them up to where the links end, lead to a name that is not registered, or come back. -/
structure Lineage (t : ClassTable) (name : String) (chain : List ClassDef) : Prop where
  linked : ∀ n < chain.length, (t.ancestorAt n (some name)).bind t.get? = chain[n]?
  nodup : (chain.map ClassDef.name).Nodup
  ends : ∀ above, t.ancestorAt chain.length (some name) = some above →
    t.get? above = none ∨ above ∈ chain.map ClassDef.name

/-- The walk up the superclass links, without a bound on its steps. -/
inductive Climbs (t : ClassTable) : (seen : List String) → Option String → List ClassDef → Prop where
  | top {seen : List String} : Climbs t seen none []
  | repeated {seen : List String} {name : String} : name ∈ seen → Climbs t seen (some name) []
  | missing {seen : List String} {name : String} : name ∉ seen → t.get? name = none → Climbs t seen (some name) []
  | next {seen : List String} {name : String} {d : ClassDef} {above : List ClassDef} : name ∉ seen →
      t.get? name = some d → Climbs t (name :: seen) d.superclass above → Climbs t seen (some name) (d :: above)

/-- As many steps as there are registered names to meet take the walk to its end. -/
theorem climbs_superclassChain {steps : ℕ} (hsteps : (t.unmet seen).card ≤ steps) :
    t.Climbs seen (some name) (t.superclassChain steps seen name) := by
  induction steps generalizing seen name with
  | zero =>
    by_cases hseen : name ∈ seen
    · exact .repeated hseen
    · cases hd : t.get? name with
      | none => exact .missing hseen hd
      | some d =>
        have hless := card_unmet_cons_lt hd hseen
        omega
  | succ steps ih =>
    unfold superclassChain
    split
    · next hseen => exact .repeated hseen
    next hseen =>
    split
    · next hd => exact .missing hseen hd
    next d hd =>
    have hless := card_unmet_cons_lt hd hseen
    split
    · next htop =>
      refine .next hseen hd ?_
      rw [htop]
      exact .top
    · next up hup =>
      refine .next hseen hd ?_
      rw [hup]
      exact ih (by omega)

theorem Climbs.fresh (h : t.Climbs seen current chain) :
    (∀ d ∈ chain, d.name ∉ seen) ∧ (chain.map ClassDef.name).Nodup := by
  induction h with
  | top | repeated | missing => exact ⟨fun d hd => (List.not_mem_nil hd).elim, List.nodup_nil⟩
  | @next seen name d above hnew hd _ ih =>
    obtain ⟨hrest, hnodup⟩ := ih
    have hname := name_of_get? hd
    refine ⟨List.forall_mem_cons.2 ⟨hname ▸ hnew, fun d' hd' hmem => ?_⟩, ?_⟩
    · exact hrest d' hd' (List.mem_cons_of_mem _ hmem)
    · rw [List.map_cons, List.nodup_cons]
      refine ⟨fun hmem => ?_, hnodup⟩
      obtain ⟨d', hd', heq⟩ := List.mem_map.1 hmem
      exact hrest d' hd' (heq.trans hname ▸ List.mem_cons_self)

theorem Climbs.linked (h : t.Climbs seen current chain) :
    ∀ n < chain.length, (t.ancestorAt n current).bind t.get? = chain[n]? := by
  induction h with
  | top | repeated | missing => exact fun n hn => absurd hn (Nat.not_lt_zero n)
  | @next seen name d above _ hd _ ih =>
    intro n hn
    cases n with
    | zero => exact hd
    | succ n =>
      have hrest := ih n (Nat.lt_of_succ_lt_succ hn)
      simpa [ancestorAt, hd] using hrest

theorem Climbs.ends (h : t.Climbs seen current chain) {above : String}
    (habove : t.ancestorAt chain.length current = some above) :
    t.get? above = none ∨ above ∈ seen ∨ above ∈ chain.map ClassDef.name := by
  induction h with
  | top => cases habove
  | repeated hseen =>
    cases habove
    exact .inr (.inl hseen)
  | missing _ hnone =>
    cases habove
    exact .inl hnone
  | @next seen name d rest _ hd _ ih =>
    have hrest : t.ancestorAt rest.length d.superclass = some above := by
      simpa [ancestorAt, hd] using habove
    rw [List.map_cons, List.mem_cons, name_of_get? hd]
    have hcases := ih hrest
    rw [List.mem_cons] at hcases
    tauto

theorem Climbs.lineage (h : t.Climbs [] (some name) chain) : t.Lineage name chain where
  linked := h.linked
  nodup := h.fresh.2
  ends _ habove := (h.ends habove).imp_right fun hmem => hmem.resolve_left List.not_mem_nil

theorem Lineage.mem_classes (h : t.Lineage name chain) {d : ClassDef} (hd : d ∈ chain) : d ∈ t.classes := by
  obtain ⟨n, hn⟩ := List.mem_iff_getElem?.1 hd
  obtain ⟨hlt, -⟩ := List.getElem?_eq_some_iff.1 hn
  obtain ⟨c, -, hc⟩ := Option.bind_eq_some_iff.1 ((h.linked n hlt).trans hn)
  exact List.mem_of_find?_eq_some hc

/-- A chain does not go on where another one ends. -/
theorem Lineage.length_le (h : t.Lineage name chain) (h' : t.Lineage name chain') : chain'.length ≤ chain.length := by
  by_contra hlonger
  have hlt : chain.length < chain'.length := Nat.lt_of_not_le hlonger
  obtain ⟨above, habove, hd⟩ := Option.bind_eq_some_iff.1 ((h'.linked _ hlt).trans (List.getElem?_eq_getElem hlt))
  rcases h.ends above habove with hnone | hmem
  · rw [hnone] at hd
    cases hd
  · -- the longer chain has the name at two places
    obtain ⟨i, hname⟩ := List.mem_iff_getElem?.1 hmem
    obtain ⟨hi, -⟩ := List.getElem?_eq_some_iff.1 hname
    rw [List.length_map] at hi
    refine List.nodup_iff_getElem?_ne_getElem?.1 h'.nodup i chain.length hi (by simpa using hlt) ?_
    rw [List.getElem?_map, ← h'.linked i (hi.trans hlt), h.linked i hi, ← List.getElem?_map, hname,
      List.getElem?_map, List.getElem?_eq_getElem hlt, Option.map_some, name_of_get? hd]

theorem Lineage.unique (h : t.Lineage name chain) (h' : t.Lineage name chain') : chain = chain' := by
  have hlen : chain.length = chain'.length := le_antisymm (h'.length_le h) (h.length_le h')
  refine List.ext_getElem? fun n => ?_
  by_cases hn : n < chain.length
  · rw [← h.linked n hn, h'.linked n (hlen ▸ hn)]
  · rw [List.getElem?_eq_none (Nat.le_of_not_lt hn), List.getElem?_eq_none (hlen ▸ Nat.le_of_not_lt hn)]

theorem lineage_superclassChain (t : ClassTable) (name : String) :
    t.Lineage name (t.superclassChain t.size [] name) :=
  (climbs_superclassChain (card_unmet_le_size t [])).lineage

/-- Both questions have one answer, with all walks coming to an end. A class is below itself, below `Object`, and
below what the links lead to. Its fields are those of its lineage that are not static, the farthest ancestor
first and each class with its fields as they are declared. -/
theorem inheritance_closed (t : ClassTable) (lower : String) :
    (∀ upper, (∀ answer, t.Answers lower upper answer ↔ answer = t.isSubclass lower upper) ∧
      (t.isSubclass lower upper = true ↔ lower = upper ∨ upper = "Object" ∨ Leads t.parents lower upper)) ∧
    ∃ chain, t.Lineage lower chain ∧ (∀ chain', t.Lineage lower chain' → chain' = chain) ∧
      (∀ climbed, t.Climbs [] (some lower) climbed ↔ climbed = chain) ∧
      t.allFields lower = chain.reverse.flatMap fun d => (d.fields.filter (!·.isStatic)).map (d.name, ·) := by
  refine ⟨fun upper => ⟨fun answer => answers_iff, isSubclass_iff⟩, t.superclassChain t.size [] lower, ?_⟩
  have hlineage := lineage_superclassChain t lower
  refine ⟨hlineage, fun chain' h => h.unique hlineage, fun climbed => ?_, rfl⟩
  constructor
  · exact fun h => h.lineage.unique hlineage
  · rintro rfl
    exact climbs_superclassChain (card_unmet_le_size t [])

/-- In a loop of two classes each has its own fields and those of the other, once. -/
example :
    let t := ClassTable.empty.registerAll
      [((ClassDef.concrete "Left").withSuperclass "Right").withField "l" .object,
        ((ClassDef.concrete "Right").withSuperclass "Left").withField "r" .object]
    t.allFields "Left" = [("Right", ⟨"r", .object, false⟩), ("Left", ⟨"l", .object, false⟩)] := by
  decide +kernel

end Reenact.ClassTable
