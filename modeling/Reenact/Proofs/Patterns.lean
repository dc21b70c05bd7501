import Mathlib
import Reenact.Number.Binary

/-!
Bit patterns and what they are read as. Each pattern has a reading of its own, in which a finite number has as
many places as the format allows. Rounding finds the pattern of a number that the format has, so nothing is lost
on the way from one format to a wider one and back.
-/

namespace Reenact.Number

theorem scaleTwo_pos (num : ℕ) {den : ℕ} (hden : 0 < den) (e : ℤ) : 0 < (scaleTwo num den e).2 := by
  unfold scaleTwo
  split
  · exact hden
  · exact Nat.mul_pos hden (Nat.two_pow_pos _)

theorem scaleTwo_ratio (num den : ℕ) (e : ℤ) :
    ((scaleTwo num den e).1 : ℚ) / (scaleTwo num den e).2 = num / den * 2 ^ e := by
  have htwo : (2 : ℚ) ≠ 0 := by norm_num
  unfold scaleTwo
  split
  case isTrue he =>
    obtain ⟨k, rfl⟩ := Int.eq_ofNat_of_zero_le he
    simp only [Int.toNat_natCast, Nat.pow_eq, Nat.cast_mul, Nat.cast_pow, Nat.cast_ofNat, zpow_natCast]
    ring
  case isFalse he =>
    obtain ⟨k, hk⟩ := Int.eq_ofNat_of_zero_le (by omega : 0 ≤ -e)
    rw [hk, Int.eq_neg_comm.1 hk.symm, zpow_neg]
    simp only [Int.toNat_natCast, Nat.pow_eq, Nat.cast_mul, Nat.cast_pow, Nat.cast_ofNat, zpow_natCast]
    field_simp

namespace Format

variable {f : Format} {m m' : ℕ} {q q' : ℤ}

/-- The form in which a format has a finite number: with as many places as it allows. -/
structure Canonical (f : Format) (m : ℕ) (q : ℤ) : Prop where
  lt : m < 2 ^ (f.fractionBits + 1)
  lastPlace_le : f.lastPlace ≤ q
  le_of_lt : f.lastPlace < q → 2 ^ f.fractionBits ≤ m

/-- The pattern that is read in a certain way. -/
def pattern (f : Format) : Reading → ℕ
  | .nan negative payload => f.withSign negative (f.infinity + payload)
  | .infinite negative => f.withSign negative f.infinity
  | .finite negative m q => f.withSign negative ((q - f.lastPlace).toNat * 2 ^ f.fractionBits + m)

theorem signBit_eq (f : Format) : f.signBit = 2 ^ f.fractionBits * 2 ^ f.exponentBits := by
  rw [signBit, Nat.pow_eq, ← pow_add, add_comm]

/-- Sign, exponent and fraction make up a pattern. -/
theorem withSign_fields {bits : ℕ} (hbits : bits < 2 * f.signBit) :
    f.withSign (decide (bits / f.signBit % 2 = 1)) (bits / 2 ^ f.fractionBits % 2 ^ f.exponentBits *
      2 ^ f.fractionBits + bits % 2 ^ f.fractionBits) = bits := by
  have hsign : bits / f.signBit < 2 := Nat.div_lt_of_lt_mul (by rwa [mul_comm])
  have hfields : bits % f.signBit =
      bits / 2 ^ f.fractionBits % 2 ^ f.exponentBits * 2 ^ f.fractionBits + bits % 2 ^ f.fractionBits := by
    rw [signBit_eq, Nat.mod_mul, add_comm, mul_comm]
  have hsplit := Nat.div_add_mod bits f.signBit
  rw [← hfields, withSign]
  rcases Nat.le_one_iff_eq_zero_or_eq_one.1 (Nat.lt_succ_iff.1 hsign) with h | h
  · rw [h, mul_zero, zero_add] at hsplit
    rw [h]
    exact hsplit
  · rw [h, mul_one] at hsplit
    rw [h]
    exact hsplit

theorem fields_withSign {exponent fraction : ℕ} (hexponent : exponent < 2 ^ f.exponentBits)
    (hfraction : fraction < 2 ^ f.fractionBits) (negative : Bool) :
    let bits := f.withSign negative (exponent * 2 ^ f.fractionBits + fraction)
    decide (bits / f.signBit % 2 = 1) = negative ∧ bits / 2 ^ f.fractionBits % 2 ^ f.exponentBits = exponent ∧
      bits % 2 ^ f.fractionBits = fraction := by
  intro bits
  have hlt : exponent * 2 ^ f.fractionBits + fraction < f.signBit := by
    have hmul := Nat.mul_le_mul_right (2 ^ f.fractionBits) (Nat.succ_le_of_lt hexponent)
    rw [signBit_eq, mul_comm (2 ^ f.fractionBits)]
    rw [Nat.succ_mul] at hmul
    omega
  have hsign : bits / f.signBit = (if negative then 1 else 0) ∧
      bits % f.signBit = exponent * 2 ^ f.fractionBits + fraction := by
    have hpos : 0 < f.signBit := by omega
    cases negative with
    | true => exact ⟨by simp [bits, withSign, Nat.add_div_left _ hpos, Nat.div_eq_of_lt hlt],
        by simp [bits, withSign, Nat.mod_eq_of_lt hlt]⟩
    | false => exact ⟨Nat.div_eq_of_lt hlt, Nat.mod_eq_of_lt hlt⟩
  refine ⟨?_, ?_, ?_⟩
  · rw [hsign.1]
    cases negative <;> rfl
  · rw [← Nat.mod_mul_right_div_self, ← signBit_eq, hsign.2, mul_comm, Nat.mul_add_div (Nat.two_pow_pos _),
      Nat.div_eq_of_lt hfraction, add_zero]
  · rw [← Nat.mod_mul_right_mod bits _ (2 ^ f.exponentBits), ← signBit_eq, hsign.2, Nat.mul_add_mod',
      Nat.mod_eq_of_lt hfraction]

theorem pattern_read {bits : ℕ} (hbits : bits < 2 * f.signBit) : f.pattern (f.read bits) = bits := by
  have hfields := f.withSign_fields hbits
  unfold read
  extract_lets fraction exponent negative
  change f.withSign negative (exponent * 2 ^ f.fractionBits + fraction) = bits at hfields
  split
  case isTrue hinfinity =>
    change _ = 2 ^ f.exponentBits - 1 at hinfinity
    rw [hinfinity] at hfields
    split
    case isTrue hzero =>
      rw [hzero] at hfields
      exact hfields
    case isFalse => exact hfields
  split
  case isTrue hzero =>
    rw [hzero, zero_mul] at hfields
    rw [pattern, sub_self, Int.toNat_zero, zero_mul]
    exact hfields
  case isFalse hexponent =>
    have hplace : ((exponent : ℤ) - 1 + f.lastPlace - f.lastPlace).toNat = exponent - 1 := by omega
    have hmagnitude : (exponent - 1) * 2 ^ f.fractionBits + (fraction + 2 ^ f.fractionBits) =
        exponent * 2 ^ f.fractionBits + fraction := by
      rw [add_comm fraction, ← add_assoc, ← Nat.succ_mul, Nat.succ_eq_add_one, Nat.sub_add_cancel (by omega)]
    rw [pattern, hplace, Nat.pow_eq, hmagnitude, hfields]

/-- The readings that a pattern can have. -/
def Readable (f : Format) : Reading → Prop
  | .nan _ payload => payload ≠ 0 ∧ payload < 2 ^ f.fractionBits
  | .infinite _ => True
  | .finite _ m q => f.Canonical m q ∧ (q - f.lastPlace).toNat * 2 ^ f.fractionBits + m < f.infinity

theorem readable_read (f : Format) (bits : ℕ) : f.Readable (f.read bits) := by
  have hfraction : bits % 2 ^ f.fractionBits < 2 ^ f.fractionBits := Nat.mod_lt _ (Nat.two_pow_pos _)
  have hexponent : bits / 2 ^ f.fractionBits % 2 ^ f.exponentBits < 2 ^ f.exponentBits :=
    Nat.mod_lt _ (Nat.two_pow_pos _)
  have hdouble : 2 ^ (f.fractionBits + 1) = 2 ^ f.fractionBits + 2 ^ f.fractionBits := by rw [pow_succ, mul_two]
  unfold read
  extract_lets fraction exponent negative
  change fraction < _ at hfraction
  change exponent < _ at hexponent
  split
  case isTrue =>
    split
    case isTrue => trivial
    case isFalse hzero => exact ⟨hzero, hfraction⟩
  case isFalse hinfinity =>
    have hnext : (exponent + 1) * 2 ^ f.fractionBits ≤ f.infinity := by
      change exponent ≠ 2 ^ f.exponentBits - 1 at hinfinity
      rw [infinity, Nat.pow_eq, Nat.pow_eq]
      exact Nat.mul_le_mul_right _ (by omega)
    rw [Nat.succ_mul] at hnext
    split
    case isTrue hzero =>
      refine ⟨⟨by omega, le_rfl, fun hlt => absurd hlt (lt_irrefl _)⟩, ?_⟩
      rw [sub_self, Int.toNat_zero]
      omega
    case isFalse hone =>
      have hplace : ((exponent : ℤ) - 1 + f.lastPlace - f.lastPlace).toNat + 1 = exponent := by omega
      rw [Nat.pow_eq]
      refine ⟨⟨by omega, by omega, fun _ => Nat.le_add_left _ _⟩, ?_⟩
      rw [← hplace, Nat.succ_mul] at hnext
      omega

theorem read_withSign {exponent fraction : ℕ} (hexponent : exponent < 2 ^ f.exponentBits)
    (hfraction : fraction < 2 ^ f.fractionBits) (negative : Bool) :
    f.read (f.withSign negative (exponent * 2 ^ f.fractionBits + fraction)) =
      if exponent = 2 ^ f.exponentBits - 1 then if fraction = 0 then .infinite negative else .nan negative fraction
      else if exponent = 0 then .finite negative fraction f.lastPlace
      else .finite negative (fraction + 2 ^ f.fractionBits) (exponent - 1 + f.lastPlace) := by
  obtain ⟨hsign, hexponent, hfraction⟩ := fields_withSign hexponent hfraction negative
  simp only [read, Nat.pow_eq, hsign, hexponent, hfraction]

theorem read_pattern {r : Reading} (hr : f.Readable r) : f.read (f.pattern r) = r := by
  have hE : 2 ^ f.exponentBits - 1 < 2 ^ f.exponentBits := Nat.sub_lt (Nat.two_pow_pos _) Nat.one_pos
  cases r with
  | nan negative payload =>
    rw [pattern, infinity, Nat.pow_eq, Nat.pow_eq, read_withSign hE hr.2, if_pos rfl, if_neg hr.1]
  | infinite negative =>
    rw [pattern, infinity, Nat.pow_eq, Nat.pow_eq, ← add_zero (_ * _), read_withSign hE (Nat.two_pow_pos _),
      if_pos rfl, if_pos rfl]
  | finite negative m q =>
    obtain ⟨hcanonical, hlt⟩ := hr
    rw [infinity, Nat.pow_eq, Nat.pow_eq] at hlt
    rw [pattern]
    by_cases hm : m < 2 ^ f.fractionBits
    · have hplace : q = f.lastPlace :=
        le_antisymm (not_lt.1 fun h => not_le.2 hm (hcanonical.le_of_lt h)) hcanonical.lastPlace_le
      subst hplace
      rw [sub_self, Int.toNat_zero] at hlt ⊢
      have hone : 0 < 2 ^ f.exponentBits - 1 := Nat.pos_of_mul_pos_right ((Nat.zero_le _).trans_lt hlt)
      rw [read_withSign (Nat.two_pow_pos _) hm, if_neg hone.ne, if_pos rfl]
    · obtain ⟨fraction, rfl⟩ := Nat.exists_eq_add_of_le (not_lt.1 hm)
      have hfraction : fraction < 2 ^ f.fractionBits := by
        have := hcanonical.lt
        rw [pow_succ] at this
        omega
      have hsucc : (q - f.lastPlace).toNat * 2 ^ f.fractionBits + (2 ^ f.fractionBits + fraction) =
          ((q - f.lastPlace).toNat + 1) * 2 ^ f.fractionBits + fraction := by ring
      have hexponent : (q - f.lastPlace).toNat + 1 < 2 ^ f.exponentBits - 1 := by
        rw [hsucc] at hlt
        exact Nat.lt_of_mul_lt_mul_right ((Nat.le_add_right _ _).trans_lt hlt)
      rw [hsucc, read_withSign (by omega) hfraction, if_neg hexponent.ne, if_neg (Nat.succ_ne_zero _),
        add_comm fraction]
      have hq := hcanonical.lastPlace_le
      congr 1
      push_cast
      omega

/-- The exponent of the last place of a number that has all the places it may have. -/
def fullPlace (f : Format) (num den : ℕ) : ℤ :=
  let guess := (num.log2 : ℤ) - den.log2 - f.fractionBits - 1
  if (scaleTwo num den (-guess)).1 / (scaleTwo num den (-guess)).2 < 2 ^ (f.fractionBits + 1) then guess
  else guess + 1

theorem round_eq (f : Format) {num : ℕ} (hnum : num ≠ 0) (den : ℕ) :
    f.round num den =
      let place := max (f.fullPlace num den) f.lastPlace
      min f.infinity ((place - f.lastPlace).toNat * 2 ^ f.fractionBits +
        roundHalfEven (scaleTwo num den (-place)).1 (scaleTwo num den (-place)).2) := by
  rw [round, if_neg hnum]
  rfl

theorem ratio_log2 {num den : ℕ} (hnum : num ≠ 0) (hden : 0 < den) :
    (2 : ℚ) ^ ((num.log2 : ℤ) - den.log2 - 1) ≤ num / den ∧
      (num / den : ℚ) < 2 ^ ((num.log2 : ℤ) - den.log2 + 1) := by
  have htwo : (2 : ℚ) ≠ 0 := by norm_num
  have hden' : (0 : ℚ) < den := by exact_mod_cast hden
  have hnumLow : (2 : ℚ) ^ num.log2 ≤ num := by exact_mod_cast Nat.log2_self_le hnum
  have hnumHigh : (num : ℚ) < 2 ^ (num.log2 + 1) := by exact_mod_cast Nat.lt_log2_self
  have hdenLow : (2 : ℚ) ^ den.log2 ≤ den := by exact_mod_cast Nat.log2_self_le hden.ne'
  have hdenHigh : (den : ℚ) < 2 ^ (den.log2 + 1) := by exact_mod_cast Nat.lt_log2_self
  constructor
  · rw [sub_sub, zpow_sub₀ htwo, zpow_natCast]
    exact div_le_div₀ (by positivity) hnumLow hden' (by exact_mod_cast hdenHigh.le)
  · rw [sub_add_eq_add_sub, zpow_sub₀ htwo, zpow_natCast]
    exact div_lt_div₀ (by exact_mod_cast hnumHigh) hdenLow (by positivity) (by positivity)

theorem fullPlace_spec (f : Format) {num den : ℕ} (hnum : num ≠ 0) (hden : 0 < den) :
    (2 : ℚ) ^ f.fractionBits ≤ num / den * 2 ^ (-f.fullPlace num den) ∧
      (num / den * 2 ^ (-f.fullPlace num den) : ℚ) < 2 ^ (f.fractionBits + 1) := by
  have htwo : (2 : ℚ) ≠ 0 := by norm_num
  obtain ⟨hlow, hhigh⟩ := ratio_log2 hnum hden
  unfold fullPlace
  extract_lets guess
  have hguess : (2 : ℚ) ^ f.fractionBits ≤ num / den * 2 ^ (-guess) ∧
      (num / den * 2 ^ (-guess) : ℚ) < 2 ^ (f.fractionBits + 2) := by
    constructor
    · calc (2 : ℚ) ^ f.fractionBits = 2 ^ ((num.log2 : ℤ) - den.log2 - 1) * 2 ^ (-guess) := by
            rw [← zpow_add₀ htwo, ← zpow_natCast]
            congr 1
            omega
        _ ≤ num / den * 2 ^ (-guess) := by gcongr
    · calc (num / den * 2 ^ (-guess) : ℚ) < 2 ^ ((num.log2 : ℤ) - den.log2 + 1) * 2 ^ (-guess) := by gcongr
        _ = 2 ^ (f.fractionBits + 2) := by
            rw [← zpow_add₀ htwo, ← zpow_natCast]
            congr 1
            push_cast
            omega
  have hratio := scaleTwo_ratio num den (-guess)
  have hpos := scaleTwo_pos num hden (-guess)
  have hpos' : (0 : ℚ) < (scaleTwo num den (-guess)).2 := by exact_mod_cast hpos
  have hbelow : (scaleTwo num den (-guess)).1 / (scaleTwo num den (-guess)).2 < 2 ^ (f.fractionBits + 1) ↔
      (num / den * 2 ^ (-guess) : ℚ) < 2 ^ (f.fractionBits + 1) := by
    rw [Nat.div_lt_iff_lt_mul hpos, ← hratio, div_lt_iff₀ hpos']
    exact_mod_cast Iff.rfl
  split
  case isTrue h => exact ⟨hguess.1, hbelow.1 h⟩
  case isFalse h =>
    have hstep : (num / den * 2 ^ (-(guess + 1)) : ℚ) = num / den * 2 ^ (-guess) / 2 := by
      rw [neg_add, zpow_add₀ htwo, zpow_neg_one]
      ring
    rw [hstep, le_div_iff₀ (by norm_num), div_lt_iff₀ (by norm_num), ← pow_succ, ← pow_succ]
    exact ⟨not_lt.1 (mt hbelow.2 h), hguess.2⟩

theorem twice_le_of_place_lt {x : ℚ} (hx : 0 ≤ x) {p : ℤ} (h : p < q) : x * 2 ^ (-q) * 2 ≤ x * 2 ^ (-p) := by
  rw [mul_assoc, ← zpow_add_one₀ (by norm_num)]
  gcongr
  · norm_num
  · omega

/-- The last place that rounding chooses for a number in its form is that of the form. -/
theorem Canonical.place_eq (h : f.Canonical m q) {num den : ℕ} (hnum : num ≠ 0) (hden : 0 < den)
    (hscaled : (num / den * 2 ^ (-q) : ℚ) = m) : max (f.fullPlace num den) f.lastPlace = q := by
  have hx : (0 : ℚ) ≤ num / den := by positivity
  obtain ⟨hlow, hhigh⟩ := f.fullPlace_spec hnum hden
  have hle : f.fullPlace num den ≤ q := by
    by_contra hlt
    have htwice := twice_le_of_place_lt hx (not_le.1 hlt)
    have hm : (m : ℚ) < 2 ^ f.fractionBits * 2 := by
      rw [← pow_succ]
      exact_mod_cast h.lt
    rw [hscaled] at htwice
    linarith
  rcases eq_or_lt_of_le h.lastPlace_le with hq | hq
  · rw [hq]
    exact max_eq_right hle
  · have hge : q ≤ f.fullPlace num den := by
      by_contra hlt
      have htwice := twice_le_of_place_lt hx (not_le.1 hlt)
      have hm : (2 : ℚ) ^ f.fractionBits ≤ m := by exact_mod_cast h.le_of_lt hq
      rw [hscaled] at htwice
      rw [pow_succ] at hhigh
      linarith
    rw [le_antisymm hle hge]
    exact max_eq_left hq.le

theorem roundHalfEven_mul (m : ℕ) {den : ℕ} (hden : 0 < den) : roundHalfEven (m * den) den = m := by
  rw [roundHalfEven, Nat.mul_mod_left, Nat.mul_div_cancel _ hden]
  exact if_pos hden

/-- A number that the format has is rounded to its own pattern. -/
theorem Canonical.round_eq (h : f.Canonical m q) {num den : ℕ} (hden : 0 < den)
    (hvalue : (num : ℚ) / den = m * 2 ^ q) :
    f.round num den = min f.infinity ((q - f.lastPlace).toNat * 2 ^ f.fractionBits + m) := by
  have hden' : (den : ℚ) ≠ 0 := by exact_mod_cast hden.ne'
  have hunit : (2 : ℚ) ^ q ≠ 0 := by positivity
  by_cases hnum : num = 0
  · have hm : m = 0 := by simpa [hnum, hunit, eq_comm] using hvalue
    have hq : q = f.lastPlace := by
      refine le_antisymm (not_lt.1 fun hlt => ?_) h.lastPlace_le
      exact absurd (h.le_of_lt hlt) (not_le.2 (hm ▸ Nat.two_pow_pos _))
    simp [round, hnum, hm, hq]
  · have hscaled : (num / den * 2 ^ (-q) : ℚ) = m := by
      rw [hvalue, zpow_neg, mul_inv_cancel_right₀ hunit]
    have hpos := scaleTwo_pos num hden (-q)
    have hexact : (scaleTwo num den (-q)).1 = m * (scaleTwo num den (-q)).2 := by
      have hratio := (scaleTwo_ratio num den (-q)).trans hscaled
      rw [div_eq_iff (by exact_mod_cast hpos.ne')] at hratio
      exact_mod_cast hratio
    rw [f.round_eq hnum den, h.place_eq hnum hden hscaled]
    simp only [hexact, roundHalfEven_mul m hpos]

/-- Conversion gives the pattern of the same number, if the format has it. -/
theorem convert_finite {source target : Format} {bits : ℕ} {negative : Bool}
    (hread : source.read bits = .finite negative m q) (h : target.Readable (.finite negative m' q'))
    (hvalue : (m' : ℚ) * 2 ^ q' = m * 2 ^ q) :
    source.convert target bits = target.pattern (.finite negative m' q') := by
  have hratio : ((scaleTwo m 1 q).1 : ℚ) / (scaleTwo m 1 q).2 = m' * 2 ^ q' := by
    rw [scaleTwo_ratio, Nat.cast_one, div_one, hvalue]
  have hround := h.1.round_eq (scaleTwo_pos _ Nat.one_pos q) hratio
  rw [min_eq_right h.2.le] at hround
  rw [convert, hread, pattern, ← hround]

/-- The wider of the two formats has the numbers of the other. -/
theorem exists_double_of_single {negative : Bool} (h : single.Readable (.finite negative m q)) :
    ∃ m' q', double.Readable (.finite negative m' q') ∧ (m' : ℚ) * 2 ^ q' = m * 2 ^ q := by
  obtain ⟨hcanonical, hlt⟩ := h
  have hlastSingle : single.lastPlace = -149 := rfl
  have hlastDouble : double.lastPlace = -1074 := rfl
  have hinfinitySingle : single.infinity = 255 * 2 ^ 23 := rfl
  have hinfinityDouble : double.infinity = 2047 * 2 ^ 52 := rfl
  by_cases hm : m = 0
  · refine ⟨0, double.lastPlace, ⟨⟨Nat.two_pow_pos _, le_rfl, fun h => absurd h (lt_irrefl _)⟩, ?_⟩, by simp [hm]⟩
    rw [sub_self, hinfinityDouble]
    decide
  · have hlog : m.log2 ≤ 23 := Nat.lt_succ_iff.1 ((Nat.log2_lt hm).2 hcanonical.lt)
    have hlow : 2 ^ 52 ≤ m * 2 ^ (52 - m.log2) := by
      calc 2 ^ 52 = 2 ^ m.log2 * 2 ^ (52 - m.log2) := by rw [← pow_add, Nat.add_sub_cancel' (by omega)]
        _ ≤ m * 2 ^ (52 - m.log2) := Nat.mul_le_mul_right _ (Nat.log2_self_le hm)
    have hhigh : m * 2 ^ (52 - m.log2) < 2 ^ 53 := by
      calc m * 2 ^ (52 - m.log2) < 2 ^ (m.log2 + 1) * 2 ^ (52 - m.log2) :=
            Nat.mul_lt_mul_of_pos_right Nat.lt_log2_self (Nat.two_pow_pos _)
        _ = 2 ^ 53 := by
            rw [← pow_add]
            congr 1
            omega
    have hq : q ≤ 105 := by
      have hfraction : single.fractionBits = 23 := rfl
      rw [hinfinitySingle, hlastSingle, hfraction] at hlt
      omega
    have hplace := hcanonical.lastPlace_le
    refine ⟨m * 2 ^ (52 - m.log2), q - (52 - m.log2 : ℕ), ⟨⟨hhigh, ?_, fun _ => hlow⟩, ?_⟩, ?_⟩
    · omega
    · have hfraction : double.fractionBits = 52 := rfl
      rw [hinfinityDouble, hlastDouble, hfraction]
      omega
    · rw [zpow_sub₀ (by norm_num), zpow_natCast]
      push_cast
      field_simp

theorem widen_finite {bits : ℕ} {negative : Bool} (hread : single.read bits = .finite negative m q) :
    ∃ m' q', double.read (single.convert double bits) = .finite negative m' q' ∧
      double.convert single (single.convert double bits) = single.pattern (.finite negative m q) := by
  have hreadable := single.readable_read bits
  rw [hread] at hreadable
  obtain ⟨m', q', hdouble, hvalue⟩ := exists_double_of_single hreadable
  have hwide := convert_finite hread hdouble hvalue
  have hreadWide : double.read (single.convert double bits) = .finite negative m' q' := by
    rw [hwide, read_pattern hdouble]
  exact ⟨m', q', hreadWide, convert_finite hreadWide hreadable hvalue.symm⟩

theorem widen_nan {bits payload : ℕ} {negative : Bool} (hread : single.read bits = .nan negative payload) :
    ∃ payload', double.read (single.convert double bits) = .nan negative payload' := by
  have hreadable := single.readable_read bits
  rw [hread] at hreadable
  have hpayload : payload < 2 ^ 23 := hreadable.2
  have hshifted : payload * 2 ^ 29 < 2 ^ 52 := by omega
  refine ⟨payload * 2 ^ 29 ||| double.quietBit, ?_⟩
  have hdouble : double.Readable (.nan negative (payload * 2 ^ 29 ||| double.quietBit)) :=
    ⟨(Nat.right_le_or.trans_lt' (Nat.two_pow_pos _)).ne', Nat.or_lt_two_pow hshifted (by decide)⟩
  rw [convert, hread]
  exact read_pattern hdouble

theorem widen_infinite {bits : ℕ} {negative : Bool} (hread : single.read bits = .infinite negative) :
    double.read (single.convert double bits) = .infinite negative := by
  rw [convert, hread]
  exact read_pattern (r := .infinite negative) trivial

end Format

end Reenact.Number
