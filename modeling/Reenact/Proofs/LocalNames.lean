import Mathlib
import Reenact.Code.Names
import Reenact.Proofs.Assoc

/-!
Numbered locals. A stem that does not end in a digit can be told from the number after it, so the
names made from such stems never coincide.
-/

namespace Reenact

/-- The text does not end in a digit. -/
def Unnumbered (stem : String) : Prop := stem.toList.getLast?.all (!·.isDigit)

instance (stem : String) : Decidable (Unnumbered stem) := inferInstanceAs (Decidable (_ = true))

private theorem append_left_eq {α : Type} {p : α → Bool} {as bs ds es : List α}
    (ha : as.getLast?.all (!p ·)) (hb : bs.getLast?.all (!p ·)) (hd : ∀ c ∈ ds, p c)
    (he : ∀ c ∈ es, p c) (heq : as ++ ds = bs ++ es) : as = bs := by
  rcases List.append_eq_append_iff.1 heq with ⟨mid, rfl, rfl⟩ | ⟨mid, rfl, rfl⟩
  · rcases List.eq_nil_or_concat mid with rfl | ⟨init, c, rfl⟩
    · simp
    · have hc : p c = true := hd c (by simp)
      simp [← List.append_assoc, hc] at hb
  · rcases List.eq_nil_or_concat mid with rfl | ⟨init, c, rfl⟩
    · simp
    · have hc : p c = true := he c (by simp)
      simp [← List.append_assoc, hc] at ha

theorem numbered_inj {stem stem' : String} {k k' : Nat} (h : Unnumbered stem)
    (h' : Unnumbered stem') (heq : stem ++ toString k = stem' ++ toString k') :
    stem = stem' ∧ k = k' := by
  have hdigits : ∀ n : Nat, ∀ c ∈ (toString n).toList, c.isDigit := by
    intro n c hc
    rw [Nat.toString_eq_ofList_toDigits, String.toList_ofList] at hc
    exact Nat.isDigit_of_mem_toDigits (by omega) (by omega) hc
  have hlist : stem.toList ++ (toString k).toList = stem'.toList ++ (toString k').toList := by
    simpa using congrArg String.toList heq
  have hstem : stem = stem' :=
    String.toList_injective (append_left_eq h h' (hdigits k) (hdigits k') hlist)
  subst hstem
  refine ⟨rfl, ?_⟩
  have hnum : toString k = toString k' := String.toList_injective (List.append_cancel_left hlist)
  exact Nat.repr_injective hnum

/-- A numbered name ends in a digit. -/
theorem numbered_ne {stem name : String} (k : Nat) (h : Unnumbered name) :
    stem ++ toString k ≠ name := by
  rintro rfl
  have hne : (toString k).toList ≠ [] := by
    rw [Nat.toString_eq_ofList_toDigits, String.toList_ofList]
    exact Nat.toDigits_ne_nil
  obtain ⟨init, c, hc⟩ := (List.eq_nil_or_concat _).resolve_left hne
  have hdigit : c.isDigit := by
    have hmem : c ∈ (toString k).toList := by rw [hc]; simp
    rw [Nat.toString_eq_ofList_toDigits, String.toList_ofList] at hmem
    exact Nat.isDigit_of_mem_toDigits (by omega) (by omega) hmem
  unfold Unnumbered at h
  rw [String.toList_append, hc, List.concat_eq_append, ← List.append_assoc] at h
  simp [hdigit] at h

namespace LocalNames

/-- The number that the last name of a stem got. -/
def count (names : LocalNames) (stem : String) : Nat := (findValue? stem names.counts).getD 0

theorem fresh_eq (names : LocalNames) (stem : String) :
    (names.fresh stem).2 = stem ++ toString (names.count stem + 1) := rfl

theorem count_fresh (names : LocalNames) (stem other : String) :
    (names.fresh stem).1.count other =
      if other = stem then names.count stem + 1 else names.count other := by
  unfold fresh count
  rw [findValue?_putEntry]
  split <;> rfl

/-- A name that is still to be given. -/
def Ahead (names : LocalNames) (name : String) : Prop :=
  ∃ stem k, Unnumbered stem ∧ names.count stem < k ∧ name = stem ++ toString k

section

variable {names : LocalNames} {stem name : String}

theorem ahead_fresh (hstem : Unnumbered stem) : names.Ahead (names.fresh stem).2 :=
  ⟨stem, _, hstem, Nat.lt_succ_self _, fresh_eq names stem⟩

theorem not_ahead_fresh (hstem : Unnumbered stem) :
    ¬ (names.fresh stem).1.Ahead (names.fresh stem).2 := by
  rintro ⟨other, k, hother, hk, heq⟩
  rw [fresh_eq] at heq
  obtain ⟨rfl, rfl⟩ := numbered_inj hstem hother heq
  rw [count_fresh, if_pos rfl] at hk
  exact Nat.lt_irrefl _ hk

theorem Ahead.of_fresh (h : (names.fresh stem).1.Ahead name) : names.Ahead name := by
  obtain ⟨other, k, hother, hk, rfl⟩ := h
  refine ⟨other, k, hother, ?_, rfl⟩
  rw [count_fresh] at hk
  split at hk
  · next heq =>
    subst heq
    omega
  · exact hk

end

end LocalNames

end Reenact
