import Mathlib
import Reenact.Assoc

/-!
What looking up finds in an association list after storing and removing.
-/

namespace Reenact

variable {κ ν : Type} [DecidableEq κ]

@[simp]
theorem findValue?_putEntry (key k : κ) (value : ν) (es : List (κ × ν)) :
    findValue? k (putEntry key value es) = if k = key then some value else findValue? k es := by
  induction es with
  | nil => simp [putEntry, findValue?, eq_comm]
  | cons e rest ih =>
    obtain ⟨k', v'⟩ := e
    unfold putEntry
    split
    · next heq =>
      subst heq
      by_cases hk : k' = k
      · simp [findValue?, hk]
      · simp [findValue?, hk, Ne.symm hk]
    · next hne =>
      by_cases hk : k' = k
      · subst hk; simp [findValue?, hne]
      · simp [findValue?, hk, ih]

theorem findValue?_dropEntry_of_ne {key k : κ} (hne : k ≠ key) (es : List (κ × ν)) :
    findValue? k (dropEntry key es) = findValue? k es := by
  induction es with
  | nil => rfl
  | cons e rest ih =>
    obtain ⟨k', v'⟩ := e
    unfold dropEntry
    split
    · next heq => subst heq; simp [findValue?, hne.symm]
    · by_cases hk : k' = k <;> simp [findValue?, hk, ih]

theorem findValue?_eq_none {k : κ} {es : List (κ × ν)} :
    findValue? k es = none ↔ k ∉ es.map (·.1) := by
  induction es with
  | nil => simp [findValue?]
  | cons e rest ih =>
    by_cases hk : e.1 = k <;> simp_all [findValue?, eq_comm]

theorem findValue?_eq_find? (k : κ) (es : List (κ × ν)) :
    findValue? k es = (es.find? fun e => e.1 = k).map (·.2) := by
  induction es with
  | nil => rfl
  | cons e rest ih =>
    obtain ⟨k', v⟩ := e
    by_cases hk : k' = k
    · simp [findValue?, hk]
    · simp [findValue?, hk, ih]

theorem putEntry_of_notMem {k : κ} {v : ν} {es : List (κ × ν)} (hk : k ∉ es.map (·.1)) :
    putEntry k v es = es ++ [(k, v)] := by
  induction es with
  | nil => rfl
  | cons e rest ih =>
    obtain ⟨k', v'⟩ := e
    rw [List.map_cons, List.mem_cons, not_or] at hk
    unfold putEntry
    rw [if_neg (Ne.symm hk.1), ih hk.2, List.cons_append]

/-- A key that is present keeps its place. -/
theorem putEntry_of_findValue? {k : κ} {v w : ν} {es : List (κ × ν)} (h : findValue? k es = some w) :
    ∃ i, es[i]? = some (k, w) ∧ putEntry k v es = es.set i (k, v) := by
  induction es with
  | nil => cases h
  | cons e rest ih =>
    obtain ⟨k', w'⟩ := e
    unfold findValue? at h
    unfold putEntry
    by_cases hk : k' = k
    · rw [if_pos hk] at h ⊢
      cases h
      subst hk
      exact ⟨0, rfl, rfl⟩
    · rw [if_neg hk] at h ⊢
      obtain ⟨i, hi, hput⟩ := ih h
      exact ⟨i + 1, hi, by rw [hput, List.set_cons_succ]⟩

theorem putEntry_eq_concat_iff {k : κ} {v : ν} {es : List (κ × ν)} :
    putEntry k v es = es ++ [(k, v)] ↔ findValue? k es = none := by
  constructor
  · intro hput
    cases hfound : findValue? k es with
    | none => rfl
    | some w =>
      obtain ⟨i, -, hset⟩ := putEntry_of_findValue? (v := v) hfound
      have hlength := congrArg List.length (hput.symm.trans hset)
      simp at hlength
  · intro hnone
    exact putEntry_of_notMem (findValue?_eq_none.1 hnone)

theorem mem_putEntry {k : κ} {v : ν} {es : List (κ × ν)} {e : κ × ν} (he : e ∈ putEntry k v es) :
    e = (k, v) ∨ e ∈ es := by
  induction es with
  | nil => exact .inl (List.mem_singleton.1 he)
  | cons x rest ih =>
    obtain ⟨k', w⟩ := x
    unfold putEntry at he
    split at he
    · rcases List.mem_cons.1 he with rfl | hrest
      · next heq => exact .inl (by rw [heq])
      · exact .inr (List.mem_cons_of_mem _ hrest)
    · rcases List.mem_cons.1 he with rfl | hrest
      · exact .inr List.mem_cons_self
      · exact (ih hrest).imp_right fun hold => List.mem_cons_of_mem _ hold

theorem mem_of_findValue? {k : κ} {v : ν} {es : List (κ × ν)} (h : findValue? k es = some v) :
    (k, v) ∈ es := by
  induction es with
  | nil => cases h
  | cons e rest ih =>
    obtain ⟨k', v'⟩ := e
    unfold findValue? at h
    split at h
    · next heq => cases h; cases heq; exact List.mem_cons_self
    · exact List.mem_cons_of_mem _ (ih h)

theorem findValue?_of_mem {k : κ} {v : ν} {es : List (κ × ν)} (hkeys : (es.map (·.1)).Nodup)
    (h : (k, v) ∈ es) : findValue? k es = some v := by
  induction es with
  | nil => cases h
  | cons e rest ih =>
    obtain ⟨k', v'⟩ := e
    rw [List.map_cons, List.nodup_cons] at hkeys
    unfold findValue?
    rcases List.mem_cons.1 h with heq | hrest
    · cases heq
      rw [if_pos rfl]
    · have hne : k' ≠ k := fun heq => hkeys.1 (heq ▸ List.mem_map.2 ⟨_, hrest, rfl⟩)
      rw [if_neg hne, ih hkeys.2 hrest]

theorem findValue?_perm {k : κ} {es es' : List (κ × ν)} (hkeys : (es.map (·.1)).Nodup) (hperm : es.Perm es') :
    findValue? k es = findValue? k es' := by
  have hkeys' : (es'.map (·.1)).Nodup := (hperm.map _).nodup_iff.1 hkeys
  cases found : findValue? k es with
  | some v => exact (findValue?_of_mem hkeys' (hperm.subset (mem_of_findValue? found))).symm
  | none => exact (findValue?_eq_none.2 fun hk => findValue?_eq_none.1 found ((hperm.map _).symm.subset hk)).symm

theorem dropEntry_sublist (key : κ) (es : List (κ × ν)) : (dropEntry key es).Sublist es := by
  induction es with
  | nil => exact .slnil
  | cons e rest ih =>
    obtain ⟨k', v'⟩ := e
    unfold dropEntry
    split
    · exact List.sublist_cons_self _ _
    · exact ih.cons_cons _

/-- Removing a key takes away the entry that looking it up finds, and nothing else. -/
theorem findValue?_or_mem_dropEntry (key : κ) {e : κ × ν} {es : List (κ × ν)} (he : e ∈ es) :
    findValue? key es = some e.2 ∨ e ∈ dropEntry key es := by
  induction es with
  | nil => cases he
  | cons x rest ih =>
    obtain ⟨k, v⟩ := x
    unfold findValue? dropEntry
    by_cases hk : k = key
    · rw [if_pos hk, if_pos hk]
      exact (List.mem_cons.1 he).imp (fun heq => by rw [heq]) fun hrest => hrest
    · rw [if_neg hk, if_neg hk]
      rcases List.mem_cons.1 he with rfl | hrest
      · exact .inr List.mem_cons_self
      · exact (ih hrest).imp_right (List.mem_cons_of_mem _)

theorem dropEntry_eq_filter {k : κ} {es : List (κ × ν)} (hkeys : (es.map (·.1)).Nodup) :
    dropEntry k es = es.filter fun e => e.1 ≠ k := by
  induction es with
  | nil => rfl
  | cons e rest ih =>
    obtain ⟨k', v'⟩ := e
    rw [List.map_cons, List.nodup_cons] at hkeys
    unfold dropEntry
    split
    · next heq =>
      subst heq
      have hrest : ∀ e ∈ rest, decide (e.1 ≠ k') = true := by
        rintro ⟨a, b⟩ he
        simpa using fun heq : a = k' => hkeys.1 (heq ▸ List.mem_map.2 ⟨(a, b), he, rfl⟩)
      rw [List.filter_cons_of_neg (by simp), List.filter_eq_self.2 hrest]
    · next hne => rw [ih hkeys.2, List.filter_cons_of_pos (by simpa using hne)]

theorem notMem_dropEntry {k : κ} {es : List (κ × ν)} (hkeys : (es.map (·.1)).Nodup) :
    k ∉ (dropEntry k es).map (·.1) := by
  rw [dropEntry_eq_filter hkeys]
  simp

theorem filter_dropEntry (k : κ) (ks : List κ) {es : List (κ × ν)} (hkeys : (es.map (·.1)).Nodup) :
    ((dropEntry k es).filter fun e => e.1 ∉ ks) = es.filter fun e => e.1 ∉ k :: ks := by
  rw [dropEntry_eq_filter hkeys, List.filter_filter]
  refine List.filter_congr fun e _ => ?_
  rw [Bool.and_eq_decide, decide_eq_decide, decide_eq_true_eq, decide_eq_true_eq, List.mem_cons, not_or, and_comm]

theorem findValue?_dropEntry {key k : κ} {es : List (κ × ν)} (hkeys : (es.map (·.1)).Nodup) :
    findValue? k (dropEntry key es) = if k = key then none else findValue? k es := by
  split
  · next heq => exact heq ▸ findValue?_eq_none.2 (notMem_dropEntry hkeys)
  · next hne => exact findValue?_dropEntry_of_ne hne es

theorem nodup_dropEntry (key : κ) {es : List (κ × ν)} (hkeys : (es.map (·.1)).Nodup) :
    ((dropEntry key es).map (·.1)).Nodup :=
  ((dropEntry_sublist key es).map _).nodup hkeys

theorem map_putEntry_of_mem {k : κ} {v : ν} {es : List (κ × ν)} (hk : k ∈ es.map (·.1)) :
    (putEntry k v es).map (·.1) = es.map (·.1) := by
  induction es with
  | nil => simp at hk
  | cons e rest ih =>
    obtain ⟨k', v'⟩ := e
    unfold putEntry
    split
    · rfl
    · next hne =>
      rw [List.map_cons, List.mem_cons] at hk
      rw [List.map_cons, List.map_cons, ih (hk.resolve_left (Ne.symm hne))]

theorem nodup_putEntry {k : κ} {v : ν} {es : List (κ × ν)} (hkeys : (es.map (·.1)).Nodup) :
    ((putEntry k v es).map (·.1)).Nodup := by
  by_cases hk : k ∈ es.map (·.1)
  · rw [map_putEntry_of_mem hk]
    exact hkeys
  · rw [putEntry_of_notMem hk, ← List.concat_eq_append, List.map_concat]
    exact List.Nodup.concat hk hkeys

/-- Storing entries one after the other. -/
def putAll (es new : List (κ × ν)) : List (κ × ν) := new.foldl (fun es e => putEntry e.1 e.2 es) es

theorem putAll_append (es new new' : List (κ × ν)) :
    putAll es (new ++ new') = putAll (putAll es new) new' :=
  List.foldl_append

theorem putAll_of_nodup {es new : List (κ × ν)} (hkeys : ((es ++ new).map (·.1)).Nodup) :
    putAll es new = es ++ new := by
  induction new generalizing es with
  | nil => simp [putAll]
  | cons e new ih =>
    have hnew : e.1 ∉ es.map (·.1) := by
      rw [List.map_append] at hkeys
      exact fun hmem => (List.nodup_append.1 hkeys).2.2 e.1 hmem e.1 (by simp) rfl
    have hstep : putAll es (e :: new) = putAll (es ++ [e]) new := by
      rw [putAll, List.foldl_cons, putEntry_of_notMem hnew]
      rfl
    rw [hstep, ih (by simpa using hkeys), List.append_assoc, List.singleton_append]

theorem nodup_putAll {es new : List (κ × ν)} (hkeys : (es.map (·.1)).Nodup) :
    ((putAll es new).map (·.1)).Nodup := by
  induction new generalizing es with
  | nil => exact hkeys
  | cons e new ih => exact ih (nodup_putEntry hkeys)

theorem findValue?_putAll {es new : List (κ × ν)} {k : κ} (hkeys : (new.map (·.1)).Nodup) :
    findValue? k (putAll es new) = (findValue? k new).or (findValue? k es) := by
  induction new generalizing es with
  | nil => simp [putAll, findValue?]
  | cons e new ih =>
    obtain ⟨k', v'⟩ := e
    rw [List.map_cons, List.nodup_cons] at hkeys
    have hstep := @ih (putEntry k' v' es) hkeys.2
    unfold putAll at *
    rw [List.foldl_cons, hstep, findValue?_putEntry]
    by_cases hk : k = k'
    · subst hk
      simp [findValue?, findValue?_eq_none.2 hkeys.1]
    · simp [findValue?, hk, Ne.symm hk]

/-- Of several values stored under one key the last counts. -/
theorem findValue?_putAll_reverse (es new : List (κ × ν)) (k : κ) :
    findValue? k (putAll es new) = (findValue? k new.reverse).or (findValue? k es) := by
  induction new using List.reverseRecOn with
  | nil => rfl
  | append_singleton new e ih =>
    have hstep : putAll es (new ++ [e]) = putEntry e.1 e.2 (putAll es new) := by
      rw [putAll, List.foldl_append]
      rfl
    rw [hstep, findValue?_putEntry, ih, List.reverse_append, List.reverse_singleton, List.singleton_append]
    by_cases hk : k = e.1
    · simp [findValue?, hk]
    · simp [findValue?, hk, Ne.symm hk]

theorem findValue?_map {μ : Type} (f : ν → μ) (k : κ) (es : List (κ × ν)) :
    findValue? k (es.map fun e => (e.1, f e.2)) = (findValue? k es).map f := by
  induction es with
  | nil => rfl
  | cons e rest ih =>
    by_cases hk : e.1 = k <;> simp [findValue?, hk, ih]

theorem filter_putEntry (p : κ → Bool) (k : κ) (v : ν) (es : List (κ × ν)) :
    (putEntry k v es).filter (fun e => p e.1) =
      if p k then putEntry k v (es.filter fun e => p e.1) else es.filter fun e => p e.1 := by
  induction es with
  | nil => by_cases hp : p k <;> simp [putEntry, hp]
  | cons e rest ih =>
    obtain ⟨k', v'⟩ := e
    by_cases heq : k' = k
    · subst heq
      by_cases hp : p k' <;> simp [hp, putEntry]
    · have hstep (es : List (κ × ν)) :
          putEntry k v ((k', v') :: es) = (k', v') :: putEntry k v es := by
        rw [putEntry, if_neg heq]
      rw [hstep, List.filter_cons, List.filter_cons, ih]
      by_cases hp : p k' <;> by_cases hpk : p k <;> simp [hp, hpk, hstep]

theorem filter_putAll (p : κ → Bool) (es new : List (κ × ν)) :
    (putAll es new).filter (fun e => p e.1) =
      putAll (es.filter fun e => p e.1) (new.filter fun e => p e.1) := by
  induction new generalizing es with
  | nil => rfl
  | cons e new ih =>
    have hstep : putAll es (e :: new) = putAll (putEntry e.1 e.2 es) new := rfl
    rw [hstep, ih, filter_putEntry, List.filter_cons]
    by_cases hp : p e.1 <;> simp [hp, putAll]

/-! ### Side by side -/

section

variable {κ' ν' : Type} [DecidableEq κ'] {P : κ → κ' → Prop} {Q : ν → ν' → Prop}
  {es : List (κ × ν)} {es' : List (κ' × ν')} {k : κ} {k' : κ'}

/-- Storing under keys that correspond keeps the entries side by side. -/
theorem forall₂_putEntry {v : ν} {v' : ν'} (h : List.Forall₂ (fun x y => P x.1 y.1 ∧ Q x.2 y.2) es es')
    (hk : P k k') (hv : Q v v') (hkeys : ∀ {a a'}, P a a' → (a = k ↔ a' = k')) :
    List.Forall₂ (fun x y => P x.1 y.1 ∧ Q x.2 y.2) (putEntry k v es) (putEntry k' v' es') := by
  induction h with
  | nil => exact .cons ⟨hk, hv⟩ .nil
  | @cons e e' rest rest' he hrest ih =>
    obtain ⟨a, w⟩ := e
    obtain ⟨a', w'⟩ := e'
    unfold putEntry
    by_cases ha : a = k
    · rw [if_pos ha, if_pos ((hkeys he.1).1 ha)]
      exact .cons ⟨he.1, hv⟩ hrest
    · rw [if_neg ha, if_neg fun ha' => ha ((hkeys he.1).2 ha')]
      exact .cons he ih

theorem findValue?_forall₂ (h : List.Forall₂ (fun x y => P x.1 y.1 ∧ Q x.2 y.2) es es')
    (hkeys : ∀ {a a'}, P a a' → (a = k ↔ a' = k')) :
    Option.Rel Q (findValue? k es) (findValue? k' es') := by
  induction h with
  | nil => exact .none
  | @cons e e' rest rest' he hrest ih =>
    obtain ⟨a, w⟩ := e
    obtain ⟨a', w'⟩ := e'
    unfold findValue?
    by_cases ha : a = k
    · rw [if_pos ha, if_pos ((hkeys he.1).1 ha)]
      exact .some he.2
    · rw [if_neg ha, if_neg fun ha' => ha ((hkeys he.1).2 ha')]
      exact ih

end

/-! ### What is found on either side -/

section

variable {α β : Type} {r r' : α → β → Prop} {x : Option α} {y : Option β} {a : α} {b : β}

theorem rel_some_left (h : Option.Rel r (some a) y) : ∃ b, y = some b ∧ r a b := by
  cases h with
  | some hab => exact ⟨_, rfl, hab⟩

theorem rel_some_right (h : Option.Rel r x (some b)) : ∃ a, x = some a ∧ r a b := by
  cases h with
  | some hab => exact ⟨_, rfl, hab⟩

theorem rel_none_left (h : Option.Rel r none y) : y = none := by
  cases h
  rfl

theorem rel_none_right (h : Option.Rel r x none) : x = none := by
  cases h
  rfl

theorem rel_imp (hr : ∀ {a b}, r a b → r' a b) (h : Option.Rel r x y) : Option.Rel r' x y := by
  cases h with
  | none => exact .none
  | some hab => exact .some (hr hab)

theorem rel_getD (h : Option.Rel r x y) (hd : r a b) : r (x.getD a) (y.getD b) := by
  cases h with
  | none => exact hd
  | some hxy => exact hxy

theorem isSome_of_rel (h : Option.Rel r x y) : x.isSome = y.isSome := by
  cases h <;> rfl

theorem forall₂_toList (h : Option.Rel r x y) : List.Forall₂ r x.toList y.toList := by
  cases h with
  | none => exact .nil
  | some hab => exact .cons hab .nil

end

end Reenact
