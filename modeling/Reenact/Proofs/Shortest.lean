import Mathlib
import Reenact.Proofs.Decimals
import Reenact.Proofs.Patterns

/-!
Numbers of a binary format by their decimal texts. The decimal that is chosen for a number lies in its rounding
interval, wherever the search ends, and the rounding intervals of two numbers have no point in common. So the
text of a number is that of no other number.
-/

namespace Reenact.Number

/-- The step of a decimal grid, in units of a power of two, as a fraction. -/
theorem gridStep_ratio (g e : ℤ) :
    0 < (gridStep g e).2 ∧ ((gridStep g e).1 : ℚ) / (gridStep g e).2 = 10 ^ g / 2 ^ e := by
  unfold gridStep
  by_cases hg : 0 ≤ g
  · obtain ⟨k, rfl⟩ := Int.eq_ofNat_of_zero_le hg
    rw [if_pos hg]
    refine ⟨scaleTwo_pos _ Nat.one_pos _, (scaleTwo_ratio _ _ _).trans ?_⟩
    rw [Int.toNat_natCast, Nat.pow_eq, Nat.cast_pow, Nat.cast_one, zpow_neg, zpow_natCast, div_one]
    rfl
  · obtain ⟨k, hk⟩ := Int.eq_ofNat_of_zero_le (by omega : 0 ≤ -g)
    rw [if_neg hg, hk, Int.eq_neg_comm.1 hk.symm]
    refine ⟨scaleTwo_pos _ (Nat.pow_pos (by decide)) _, (scaleTwo_ratio _ _ _).trans ?_⟩
    rw [Int.toNat_natCast, Nat.pow_eq, Nat.cast_pow, Nat.cast_one, zpow_neg, zpow_neg, zpow_natCast, one_div]
    rfl

/-- The interval has the number, the interval's ends being counted in units of `2 ^ e`. -/
def Interval.Contains (i : Interval) (e : ℤ) (x : ℚ) : Prop :=
  if i.closed then i.low * 2 ^ e ≤ x ∧ x ≤ i.high * 2 ^ e else i.low * 2 ^ e < x ∧ x < i.high * 2 ^ e

theorem Tie.nearer_eq (tie : Tie) (below down up : ℕ) :
    tie.nearer below down up = below ∨ tie.nearer below down up = below + 1 := by
  unfold nearer
  split
  · exact .inl rfl
  split
  · exact .inr rfl
  cases tie with
  | up => exact .inr rfl
  | toEven =>
    rcases Nat.mod_two_eq_zero_or_one below with h | h
    · exact .inl (congrArg (below + ·) h)
    · exact .inr (congrArg (below + ·) h)

namespace Interval

variable {i : Interval} {e g : ℤ} {tie : Tie} {d : ℕ}

theorem Contains.le {x : ℚ} (h : i.Contains e x) : i.low * 2 ^ e ≤ x ∧ x ≤ i.high * 2 ^ e := by
  unfold Contains at h
  split at h
  · exact h
  · exact ⟨h.1.le, h.2.le⟩

theorem Contains.lt {x : ℚ} (h : i.Contains e x) (hopen : i.closed = false) :
    i.low * 2 ^ e < x ∧ x < i.high * 2 ^ e := by
  unfold Contains at h
  rwa [hopen] at h

/-- A multiple of the step that holds in the scaled interval is a decimal of the interval. -/
theorem contains_of_holds {n den : ℕ} (hden : 0 < den) (hstep : (n : ℚ) / den = 10 ^ g / 2 ^ e)
    (h : (⟨i.low * den, i.mid * den, i.high * den, i.closed⟩ : Interval).holds (d * n)) :
    i.Contains e (d * 10 ^ g) := by
  have hden' : (0 : ℚ) < den := by exact_mod_cast hden
  have htwo : (0 : ℚ) < 2 ^ e := by positivity
  have hvalue : (d : ℚ) * 10 ^ g = d * n / den * 2 ^ e := by
    rw [mul_div_assoc, hstep]
    field_simp
  unfold holds at h
  unfold Contains
  rw [hvalue]
  split at h
  case isTrue hclosed =>
    simp only [Bool.and_eq_true, decide_eq_true_eq] at h
    rw [if_pos hclosed]
    constructor
    · gcongr
      rw [le_div_iff₀ hden']
      exact_mod_cast h.1
    · gcongr
      rw [div_le_iff₀ hden']
      exact_mod_cast h.2
  case isFalse hclosed =>
    simp only [Bool.and_eq_true, decide_eq_true_eq] at h
    rw [if_neg hclosed]
    constructor
    · gcongr
      rw [lt_div_iff₀ hden']
      exact_mod_cast h.1
    · gcongr
      rw [div_lt_iff₀ hden']
      exact_mod_cast h.2

theorem contains_of_nearest? (h : i.nearest? tie g e = some d) : i.Contains e (d * 10 ^ g) := by
  obtain ⟨hden, hstep⟩ := gridStep_ratio g e
  rw [nearest?] at h
  generalize gridStep g e = step at h hden hstep
  obtain ⟨n, den⟩ := step
  refine contains_of_holds hden hstep ?_
  dsimp -zeta only at h
  extract_lets scaled below above at h
  split at h
  case h_1 => cases h
  case h_2 hbelow _ =>
    rw [← Option.some.inj h]
    exact hbelow
  case h_3 habove =>
    rw [← Option.some.inj h]
    exact habove
  case h_4 hbelow habove =>
    rw [← Option.some.inj h]
    rcases tie.nearer_eq below (scaled.mid - below * n) (above * n - scaled.mid) with hnearer | hnearer
    · rw [hnearer]
      exact hbelow
    · rw [hnearer]
      exact habove

/-- Where the search ends without a hit, the number itself is taken. -/
theorem contains_of_coarsest {exact : ℕ × ℤ} (hexact : i.Contains e (exact.1 * 10 ^ exact.2)) (steps : ℕ) :
    i.Contains e ((i.coarsest tie e exact steps g).1 * 10 ^ (i.coarsest tie e exact steps g).2) := by
  induction steps generalizing g with
  | zero => exact hexact
  | succ steps ih =>
    rw [coarsest]
    split
    case h_1 d h => exact contains_of_nearest? h
    case h_2 => exact ih

end Interval

namespace Format

variable {f : Format} {m m' : ℕ} {q q' : ℤ} {x : ℚ}

theorem interval_low_le (f : Format) (m : ℕ) (q : ℤ) :
    (f.interval m q).low ≤ 4 * m ∧ (m ≠ 0 → (f.interval m q).low < 4 * m) := by
  simp only [interval]
  split <;> omega

/-- The number is in the interval around it. -/
theorem interval_contains (f : Format) (m : ℕ) (q : ℤ) : (f.interval m q).Contains (q - 2) (m * 2 ^ q) := by
  have hunit : (0 : ℚ) < 2 ^ (q - 2) := by positivity
  have hvalue : (m : ℚ) * 2 ^ q = (4 * m : ℕ) * 2 ^ (q - 2) := by
    rw [zpow_sub₀ (by norm_num)]
    push_cast
    field_simp
  obtain ⟨hle, hlt⟩ := f.interval_low_le m q
  have hhigh : 4 * m < (f.interval m q).high := by simp [interval]
  rw [hvalue]
  unfold Interval.Contains
  split
  case isTrue =>
    constructor
    · gcongr
    · gcongr
  case isFalse hopen =>
    have hm : m ≠ 0 := by
      rintro rfl
      exact hopen rfl
    constructor
    · gcongr
      exact hlt hm
    · gcongr

/-- A number as a decimal that is equal to it. -/
def exactDecimal (m : ℕ) (q : ℤ) : ℕ × ℤ :=
  if 0 ≤ q then (m * Nat.pow 2 q.toNat, 0) else (m * Nat.pow 5 (-q).toNat, q)

theorem exactDecimal_value (m : ℕ) (q : ℤ) :
    (exactDecimal m q).1 * 10 ^ (exactDecimal m q).2 = (m * 2 ^ q : ℚ) := by
  unfold exactDecimal
  split
  case isTrue hq =>
    obtain ⟨k, rfl⟩ := Int.eq_ofNat_of_zero_le hq
    simp
  case isFalse hq =>
    obtain ⟨k, hk⟩ := Int.eq_ofNat_of_zero_le (by omega : 0 ≤ -q)
    have hten : (10 : ℚ) ^ k = 5 ^ k * 2 ^ k := by rw [← mul_pow]; norm_num
    rw [hk, Int.eq_neg_comm.1 hk.symm]
    simp only [Int.toNat_natCast, Nat.pow_eq, Nat.cast_mul, Nat.cast_pow, Nat.cast_ofNat, zpow_neg, zpow_natCast,
      hten]
    field_simp

/-- The decimal that is chosen for a number lies in the interval around it. -/
theorem shortest_contains (f : Format) (tie : Tie) (m : ℕ) (q : ℤ) :
    (f.interval m q).Contains (q - 2) ((f.shortest tie m q).1 * 10 ^ (f.shortest tie m q).2) := by
  have hnumber := f.interval_contains m q
  unfold shortest
  split
  case isTrue hm =>
    subst hm
    simpa using hnumber
  case isFalse hm =>
    rw [← exactDecimal_value] at hnumber
    exact Interval.contains_of_coarsest hnumber _

/-- The interval around a number ends where that around a greater one begins, or before. The point between them
belongs to one of the two at most: neighbours differ in parity, and a number below a power of two is odd. -/
theorem Canonical.interval_le (h : f.Canonical m q) (h' : f.Canonical m' q') (hlt : q < q' ∨ q = q' ∧ m < m') :
    (f.interval m q).high * (2 : ℚ) ^ (q - 2) ≤ (f.interval m' q').low * 2 ^ (q' - 2) ∧
      ((f.interval m q).high * (2 : ℚ) ^ (q - 2) = (f.interval m' q').low * 2 ^ (q' - 2) →
        (f.interval m q).closed = false ∨ (f.interval m' q').closed = false) := by
  have hunit : (0 : ℚ) < 2 ^ (q - 2) := by positivity
  rcases hlt with hlt | ⟨rfl, hlt⟩
  · have hlow : 4 * 2 ^ f.fractionBits - 1 ≤ (f.interval m' q').low := by
      have hq' := h.lastPlace_le.trans_lt hlt
      have hm' := h'.le_of_lt hq'
      simp only [interval, Nat.pow_eq]
      split <;> omega
    have hhigh : (f.interval m q).high = 4 * m + 2 := rfl
    have hm : m < 2 * 2 ^ f.fractionBits := by
      rw [← pow_succ']
      exact h.lt
    have hscale : (2 : ℚ) * 2 ^ (q - 2) ≤ 2 ^ (q' - 2) := by
      rw [← zpow_one_add₀ (by norm_num : (2 : ℚ) ≠ 0)]
      exact zpow_le_zpow_right₀ (by norm_num) (by omega)
    have htwice : ((f.interval m' q').low * 2 : ℚ) * 2 ^ (q - 2) ≤ (f.interval m' q').low * 2 ^ (q' - 2) := by
      rw [mul_assoc]
      gcongr
    have hle : (f.interval m q).high ≤ (f.interval m' q').low * 2 := by omega
    have hle' : ((f.interval m q).high : ℚ) ≤ (f.interval m' q').low * 2 := by exact_mod_cast hle
    refine ⟨(mul_le_mul_of_nonneg_right hle' hunit.le).trans htwice, fun heq => .inl ?_⟩
    have hge : ((f.interval m' q').low * 2 : ℚ) ≤ (f.interval m q).high :=
      le_of_mul_le_mul_right (htwice.trans heq.ge) hunit
    have hge' : (f.interval m' q').low * 2 ≤ (f.interval m q).high := by exact_mod_cast hge
    simp only [interval, beq_eq_false_iff_ne]
    omega
  · have hlow : 4 * m' - 2 ≤ (f.interval m' q).low := by
      simp only [interval]
      split <;> omega
    have hhigh : (f.interval m q).high = 4 * m + 2 := rfl
    refine ⟨?_, fun heq => ?_⟩
    · gcongr
      omega
    · have heq := mul_right_cancel₀ hunit.ne' heq
      norm_cast at heq
      simp only [interval, beq_eq_false_iff_ne]
      omega

theorem Canonical.not_contains_both (h : f.Canonical m q) (h' : f.Canonical m' q') (hlt : q < q' ∨ q = q' ∧ m < m')
    (hx : (f.interval m q).Contains (q - 2) x) : ¬(f.interval m' q').Contains (q' - 2) x := by
  intro hx'
  obtain ⟨hle, hopen⟩ := h.interval_le h' hlt
  have heq := le_antisymm hle (hx'.le.1.trans hx.le.2)
  rcases hopen heq with hopen | hopen
  · exact absurd ((hx.lt hopen).2.trans_le hle) (not_lt.2 hx'.le.1)
  · exact absurd (hle.trans_lt (hx'.lt hopen).1) (not_lt.2 hx.le.2)

/-- No point is in the intervals around two numbers. -/
theorem Canonical.eq_of_contains (h : f.Canonical m q) (h' : f.Canonical m' q')
    (hx : (f.interval m q).Contains (q - 2) x) (hx' : (f.interval m' q').Contains (q' - 2) x) :
    m = m' ∧ q = q' := by
  by_contra hne
  rcases lt_trichotomy q q' with hq | hq | hq
  · exact h.not_contains_both h' (.inl hq) hx hx'
  · rcases lt_or_gt_of_ne (fun hm => hne ⟨hm, hq⟩) with hm | hm
    · exact h.not_contains_both h' (.inr ⟨hq, hm⟩) hx hx'
    · exact h'.not_contains_both h (.inr ⟨hq.symm, hm⟩) hx' hx
  · exact h'.not_contains_both h (.inl hq) hx' hx

end Format

/-- The text of a finite number in a style. -/
def numberText (f : Format) (style : DecimalStyle) (negative : Bool) (m : ℕ) (q : ℤ) : String :=
  (if negative then "-" else "") ++ style.write (f.shortest style.tie m q).1 (f.shortest style.tie m q).2

theorem Format.text_eq (f : Format) (style : DecimalStyle) (nan infinity negInfinity : String) (bits : ℕ) :
    f.text style nan infinity negInfinity bits =
      match f.read bits with
      | .nan _ _ => nan
      | .infinite negative => if negative then negInfinity else infinity
      | .finite negative m q => numberText f style negative m q := by
  unfold Format.text
  cases f.read bits <;> rfl

section

variable {f : Format} {style : DecimalStyle} {negative negative' : Bool} {m m' : ℕ} {q q' : ℤ}

theorem mem_numberText (hplus : style.plus = "") {c : Char} (hc : c ∈ (numberText f style negative m q).toList) :
    c.isDigit ∨ c ∈ ['.', 'e', '-'] := by
  rw [numberText, String.toList_append, List.mem_append] at hc
  rcases hc with hc | hc
  · cases negative with
    | true =>
    obtain rfl : c = '-' := List.mem_singleton.1 hc
    exact .inr (by decide)
    | false => cases hc
  · exact DecimalStyle.mem_write hplus hc

theorem head_numberText (hplus : style.plus = "") :
    ∃ c, (numberText f style negative m q).toList.head? = some c ∧ (c.isDigit ∨ c = '-') := by
  rw [numberText, String.toList_append]
  cases negative with
  | true => exact ⟨'-', rfl, .inr rfl⟩
  | false =>
    obtain ⟨c, hc, hdigit⟩ :=
      DecimalStyle.head_write hplus (f.shortest style.tie m q).1 (f.shortest style.tie m q).2
    exact ⟨c, hc, .inl hdigit⟩

theorem mark_mem_numberText (hplus : style.plus = "") (hplaces : 0 < style.places) :
    '.' ∈ (numberText f style negative m q).toList ∨ 'e' ∈ (numberText f style negative m q).toList := by
  rw [numberText, String.toList_append]
  exact (DecimalStyle.mark_mem_write hplus hplaces _ _).imp (List.mem_append_right _) (List.mem_append_right _)

/-- The sign is seen in front, and what is behind it is read as the decimal of the number. -/
theorem numberText_inj (hplus : style.plus = "") (hcanonical : f.Canonical m q) (hcanonical' : f.Canonical m' q')
    (h : numberText f style negative m q = numberText f style negative' m' q') :
    negative = negative' ∧ m = m' ∧ q = q' := by
  have hhead : ∀ d e, (style.write d e).toList.head? ≠ some '-' := fun d e hminus => by
    obtain ⟨c, hc, hdigit⟩ := DecimalStyle.head_write hplus d e
    rw [hminus] at hc
    cases hc
    cases hdigit
  have hlist := congrArg String.toList h
  simp only [numberText, String.toList_append] at hlist
  have hsign : negative = negative' ∧ style.write (f.shortest style.tie m q).1 (f.shortest style.tie m q).2 =
      style.write (f.shortest style.tie m' q').1 (f.shortest style.tie m' q').2 := by
    cases negative <;> cases negative'
    case false.false => exact ⟨rfl, String.toList_inj.1 hlist⟩
    case true.true => exact ⟨rfl, String.toList_inj.1 (List.append_cancel_left hlist)⟩
    case false.true => exact absurd (congrArg List.head? hlist) (hhead _ _)
    case true.false => exact absurd (congrArg List.head? hlist.symm) (hhead _ _)
  have hvalue := congrArg decimalValue hsign.2
  rw [decimalValue_write hplus, decimalValue_write hplus] at hvalue
  have hcontains := f.shortest_contains style.tie m q
  rw [hvalue] at hcontains
  exact ⟨hsign.1, hcanonical.eq_of_contains hcanonical' hcontains (f.shortest_contains style.tie m' q')⟩

end

end Reenact.Number
