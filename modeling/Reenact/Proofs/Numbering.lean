import Mathlib
import Reenact.Proofs.LocalNames

/-!
When numbered names coincide. The name that a stem gets when it is asked for the eleventh time is also the
first one of the stem with a one behind it. In general the names made from some stems are distinct exactly
if, wherever a stem is asked for with a number behind it, the stem itself is asked for at most ten times
that number.
-/

namespace Reenact

/-! ### Digits -/

theorem ten_le_of_toDigits_eq {front : List Char} {n k : ℕ} (hfront : front ≠ [])
    (h : Nat.toDigits 10 n = front ++ Nat.toDigits 10 k) : 10 ≤ n := by
  by_contra hn
  have hlength := congrArg List.length h
  rw [Nat.toDigits_of_lt_base (by omega), List.length_append, List.length_singleton] at hlength
  have hfront := List.length_pos_iff.2 hfront
  have hdigits := List.length_pos_iff.2 (Nat.toDigits_ne_nil (b := 10) (n := k))
  omega

/-- What stands in front of a number inside a number is itself a number, less than a tenth of the whole. -/
theorem exists_leading {front : List Char} {n k : ℕ} (hk : 0 < k) (hfront : front ≠ [])
    (h : Nat.toDigits 10 n = front ++ Nat.toDigits 10 k) :
    ∃ d, 0 < d ∧ front = Nat.toDigits 10 d ∧ 10 * d < n := by
  induction k using Nat.strong_induction_on generalizing n with
  | _ k ih =>
    have hn := ten_le_of_toDigits_eq hfront h
    rw [Nat.toDigits_of_base_le (by omega) hn] at h
    by_cases hsmall : k < 10
    · rw [Nat.toDigits_of_lt_base hsmall] at h
      obtain ⟨hlead, hlast⟩ := List.append_inj' h rfl
      have hlast : n % 10 ≠ 0 := fun hzero => by
        rw [hzero, List.singleton_inj] at hlast
        interval_cases k <;> cases hlast
      exact ⟨n / 10, by omega, hlead.symm, by omega⟩
    · rw [Nat.toDigits_of_base_le (by omega) (by omega : 10 ≤ k), ← List.append_assoc] at h
      obtain ⟨d, hd, rfl, hlt⟩ := ih (k / 10) (by omega) (by omega) (List.append_inj' h rfl).1
      exact ⟨d, hd, rfl, by omega⟩

theorem toList_toString (n : ℕ) : (toString n).toList = Nat.toDigits 10 n := by
  rw [Nat.toString_eq_ofList_toDigits, String.toList_ofList]

/-- The eleventh number and its likes end in a one. -/
theorem toString_ten_mul_succ {d : ℕ} (hd : 0 < d) : toString (10 * d + 1) = toString d ++ toString 1 := by
  refine String.toList_injective ?_
  rw [String.toList_append, toList_toString, toList_toString, toList_toString,
    Nat.toDigits_append_toDigits (by omega) hd (by omega)]

theorem numbered_split {stem stem' : String} {n k : ℕ} {middle : List Char} (hk : 0 < k)
    (hstem : stem'.toList = stem.toList ++ middle) (hdigits : Nat.toDigits 10 n = middle ++ Nat.toDigits 10 k) :
    (stem = stem' ∧ n = k) ∨ ∃ d, 0 < d ∧ stem' = stem ++ toString d ∧ 10 * d < n := by
  by_cases hmiddle : middle = []
  · subst hmiddle
    rw [List.append_nil] at hstem
    rw [List.nil_append, ← toList_toString, ← toList_toString] at hdigits
    exact .inl ⟨(String.toList_injective hstem).symm, Nat.repr_injective (String.toList_injective hdigits)⟩
  · obtain ⟨d, hd, rfl, hlt⟩ := exists_leading hk hmiddle hdigits
    refine .inr ⟨d, hd, String.toList_injective ?_, hlt⟩
    rw [hstem, String.toList_append, toList_toString]

/-- Two numbered names coincide only if their stems do, or one stem is the other with the leading digits of
its number behind it. -/
theorem numbered_cases {stem stem' : String} {n k : ℕ} (hn : 0 < n) (hk : 0 < k)
    (heq : stem ++ toString n = stem' ++ toString k) :
    (stem = stem' ∧ n = k) ∨ (∃ d, 0 < d ∧ stem' = stem ++ toString d ∧ 10 * d < n) ∨
      ∃ d, 0 < d ∧ stem = stem' ++ toString d ∧ 10 * d < k := by
  have hlist : stem.toList ++ Nat.toDigits 10 n = stem'.toList ++ Nat.toDigits 10 k := by
    simpa only [String.toList_append, toList_toString] using congrArg String.toList heq
  rcases List.append_eq_append_iff.1 hlist with ⟨middle, hstem, hdigits⟩ | ⟨middle, hstem, hdigits⟩
  · exact (numbered_split hk hstem hdigits).imp_right .inl
  · exact (numbered_split hn hstem hdigits).imp (fun h => ⟨h.1.symm, h.2.symm⟩) .inr

/-! ### Numbering -/

/-- Each stem with how often it was asked for up to there. -/
def ordinals (seen : List String) : List String → List (String × ℕ)
  | [] => []
  | stem :: rest => (stem, seen.count stem + 1) :: ordinals (stem :: seen) rest

/-- The numbered names of stems that are asked for one after the other. -/
def numbered (stems : List String) : List String := (ordinals [] stems).map fun e => e.1 ++ toString e.2

theorem mem_ordinals {seen stems : List String} {stem : String} {n : ℕ} :
    (stem, n) ∈ ordinals seen stems ↔ seen.count stem < n ∧ n ≤ seen.count stem + stems.count stem := by
  induction stems generalizing seen with
  | nil =>
    simp only [ordinals, List.not_mem_nil, List.count_nil, false_iff]
    omega
  | cons s rest ih =>
    rw [ordinals, List.mem_cons, ih, Prod.mk.injEq]
    by_cases hs : s = stem
    · subst hs
      simp only [List.count_cons_self, true_and]
      omega
    · simp only [List.count_cons_of_ne hs, Ne.symm hs, false_and, false_or]

theorem nodup_ordinals (seen stems : List String) : (ordinals seen stems).Nodup := by
  induction stems generalizing seen with
  | nil => exact List.nodup_nil
  | cons stem rest ih =>
    refine List.nodup_cons.2 ⟨fun hmem => ?_, ih _⟩
    have hlater := (mem_ordinals.1 hmem).1
    rw [List.count_cons_self] at hlater
    exact Nat.lt_irrefl _ hlater

theorem nodup_numbered_iff {stems : List String} : (numbered stems).Nodup ↔
    ∀ stem d, 0 < d → stem ++ toString d ∈ stems → stems.count stem ≤ 10 * d := by
  rw [numbered, List.nodup_map_iff_inj_on (nodup_ordinals [] stems)]
  constructor
  · intro hinj stem d hd hmem
    by_contra hmany
    have hfirst : (stem ++ toString d, 1) ∈ ordinals [] stems :=
      mem_ordinals.2 ⟨by simp, by simpa using List.count_pos_iff.2 hmem⟩
    have heleventh : (stem, 10 * d + 1) ∈ ordinals [] stems :=
      mem_ordinals.2 ⟨by simp, by rw [List.count_nil]; omega⟩
    have heq := hinj _ heleventh _ hfirst (by rw [toString_ten_mul_succ hd, String.append_assoc])
    have hnumber := congrArg Prod.snd heq
    omega
  · rintro hfew ⟨stem, n⟩ hn ⟨stem', k⟩ hk heq
    have hasked : ∀ {s m}, (s, m) ∈ ordinals [] stems → 0 < m ∧ m ≤ stems.count s ∧ s ∈ stems := by
      intro s m hmem
      have hbounds := mem_ordinals.1 hmem
      rw [List.count_nil, Nat.zero_add] at hbounds
      exact ⟨hbounds.1, hbounds.2, List.count_pos_iff.1 (hbounds.1.trans_le hbounds.2)⟩
    obtain ⟨hpos, hcount, hstem⟩ := hasked hn
    obtain ⟨hpos', hcount', hstem'⟩ := hasked hk
    rcases numbered_cases hpos hpos' heq with ⟨rfl, rfl⟩ | ⟨d, hd, rfl, hlt⟩ | ⟨d, hd, rfl, hlt⟩
    · rfl
    · have hbound := hfew stem d hd hstem'
      omega
    · have hbound := hfew stem' d hd hstem
      omega

/-! ### Locals -/

namespace LocalNames

/-- A local is asked for by a stem, or for values of a type. -/
inductive Request where
  | stem (text : String)
  | type (t : Ty)

def Request.text : Request → String
  | .stem text => text
  | .type t => t.localStem

/-- The names that are given to requests, one after the other. -/
def given (names : LocalNames) : List Request → List String
  | [] => []
  | r :: rest => (names.fresh r.text).2 :: (names.fresh r.text).1.given rest

theorem given_eq_numbered (requests : List Request) :
    LocalNames.empty.given requests = numbered (requests.map Request.text) := by
  have hfrom : ∀ (names : LocalNames) (seen : List String), (∀ stem, names.count stem = seen.count stem) →
      names.given requests = (ordinals seen (requests.map Request.text)).map fun e => e.1 ++ toString e.2 := by
    induction requests with
    | nil => exact fun _ _ _ => rfl
    | cons r rest ih =>
      intro names seen hcount
      rw [given, fresh_eq, List.map_cons, ordinals, List.map_cons, hcount]
      congr 1
      refine ih _ _ fun stem => ?_
      rw [count_fresh, List.count_cons, hcount, hcount]
      by_cases hstem : stem = r.text
      · subst hstem
        simp
      · simp [hstem, Ne.symm hstem]
  exact hfrom .empty [] fun _ => rfl

/-- The locals of a unit have distinct names exactly if, wherever a stem is asked for with a number behind it,
the stem itself is asked for at most ten times that number. -/
theorem given_nodup_iff (requests : List Request) :
    (LocalNames.empty.given requests).Nodup ↔
      ∀ stem d, 0 < d → stem ++ toString d ∈ requests.map Request.text →
        (requests.map Request.text).count stem ≤ 10 * d := by
  rw [given_eq_numbered, nodup_numbered_iff]

/-- The eleventh local for a class and the first one for the class with a one behind its name. -/
theorem eleventh_item_named_twice :
    ¬ (LocalNames.empty.given
      (List.replicate 11 (.type (.ofClass "Item")) ++ [.type (.ofClass "Item1")])).Nodup := by
  decide

end LocalNames

end Reenact
