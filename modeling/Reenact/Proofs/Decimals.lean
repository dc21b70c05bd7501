import Mathlib
import Reenact.Number.Shortest

/-!
Reading decimal texts. A text is some digits, further ones behind a point, and an exponent; where point and
exponent stand does not matter for the number that the text is read as, which is the one that was written.
-/

namespace Reenact.Number

/-- The parts of a decimal text. -/
structure Layout where
  whole : List Char
  fraction : List Char
  exponent : Option ℤ

namespace Layout

def mantissa (l : Layout) : List Char := l.whole ++ if l.fraction.isEmpty then [] else '.' :: l.fraction

def suffix (l : Layout) : List Char :=
  match l.exponent with
  | none => []
  | some exponent => 'e' :: (toString exponent).toList

def text (l : Layout) : String := String.ofList (l.mantissa ++ l.suffix)

def value (l : Layout) : ℚ :=
  Nat.ofDigitChars 10 (l.whole ++ l.fraction) 0 * 10 ^ (l.exponent.getD 0 - l.fraction.length)

/-- There is a digit in front, and nothing but digits before and behind the point. -/
structure Proper (l : Layout) : Prop where
  whole_ne_nil : l.whole ≠ []
  digits : ∀ c ∈ l.whole ++ l.fraction, c.isDigit

end Layout

/-- The number that a text without an exponent is read as. -/
def mantissaValue (text : List Char) : ℚ :=
  let whole := text.takeWhile (· ≠ '.')
  let fraction := (text.drop whole.length).tail
  Nat.ofDigitChars 10 (whole ++ fraction) 0 * 10 ^ (-fraction.length : ℤ)

def exponentValue : List Char → ℤ
  | [] => 0
  | _ :: exponent => (String.ofList exponent).toInt?.getD 0

/-- The number that a decimal text is read as. -/
def decimalValue (text : String) : ℚ :=
  let mantissa := text.toList.takeWhile (· ≠ 'e')
  mantissaValue mantissa * 10 ^ exponentValue (text.toList.drop mantissa.length)

theorem takeWhile_ne_append {mark : Char} {front behind : List Char} (hfront : mark ∉ front)
    (hbehind : behind = [] ∨ ∃ rest, behind = mark :: rest) :
    (front ++ behind).takeWhile (· ≠ mark) = front := by
  rw [List.takeWhile_append_of_pos fun c hc => by simpa using ne_of_mem_of_not_mem hc hfront]
  obtain rfl | ⟨rest, rfl⟩ := hbehind <;> simp

namespace Layout

variable {l : Layout}

theorem Proper.mark_notMem (hl : l.Proper) (mark : Char) (hmark : mark.isDigit = false) :
    mark ∉ l.whole ∧ mark ∉ l.fraction := by
  constructor <;> intro hmem
  · simpa [hmark] using hl.digits mark (List.mem_append_left _ hmem)
  · simpa [hmark] using hl.digits mark (List.mem_append_right _ hmem)

theorem Proper.mantissaValue_eq (hl : l.Proper) : mantissaValue l.mantissa =
    Nat.ofDigitChars 10 (l.whole ++ l.fraction) 0 * 10 ^ (-l.fraction.length : ℤ) := by
  have hpoint := (hl.mark_notMem '.' (by decide)).1
  unfold mantissa
  split
  case isTrue h =>
    simp only [mantissaValue, takeWhile_ne_append hpoint (.inl rfl), List.drop_left, List.tail_nil,
      List.isEmpty_iff.1 h]
  case isFalse =>
    simp only [mantissaValue, takeWhile_ne_append hpoint (.inr ⟨_, rfl⟩), List.drop_left, List.tail_cons]

/-- The text is read as the number it was made for. -/
theorem Proper.decimalValue_text (hl : l.Proper) : decimalValue l.text = l.value := by
  have hmark : 'e' ∉ l.mantissa := by
    obtain ⟨hwhole, hfraction⟩ := hl.mark_notMem 'e' (by decide)
    unfold mantissa
    split <;> simp [hwhole, hfraction]
  have hsplit : (l.mantissa ++ l.suffix).takeWhile (· ≠ 'e') = l.mantissa ∧
      exponentValue l.suffix = l.exponent.getD 0 := by
    unfold suffix
    cases l.exponent with
    | none => exact ⟨takeWhile_ne_append hmark (.inl rfl), rfl⟩
    | some exponent =>
      refine ⟨takeWhile_ne_append hmark (.inr ⟨_, rfl⟩), ?_⟩
      simp [exponentValue, Int.toString_eq_repr, Int.toInt?_repr]
  rw [decimalValue, text, String.toList_ofList, hsplit.1, List.drop_left, hsplit.2, hl.mantissaValue_eq, value,
    mul_assoc, ← zpow_add₀ (by norm_num : (10 : ℚ) ≠ 0), neg_add_eq_sub]

end Layout

theorem isDigit_of_mem_digitsOf {d : ℕ} {c : Char} (hc : c ∈ digitsOf d) : c.isDigit :=
  Nat.isDigit_of_mem_toDigits (by decide) (by decide) hc

/-- The digits of `d · 10 ^ e` with at least one digit before the point. -/
def wholeDigits (d : ℕ) (e : ℤ) : List Char :=
  let whole := digitsOf d ++ List.replicate e.toNat '0'
  List.replicate ((-e).toNat + 1 - whole.length) '0' ++ whole

def positionalLayout (places d : ℕ) (e : ℤ) : Layout where
  whole := (wholeDigits d e).take ((wholeDigits d e).length - (-e).toNat)
  fraction :=
    let fraction := (wholeDigits d e).drop ((wholeDigits d e).length - (-e).toNat)
    fraction ++ List.replicate (places - fraction.length) '0'
  exponent := none

def scientificLayout (d : ℕ) (e : ℤ) : Layout where
  whole := (digitsOf d).take 1
  fraction := (digitsOf d).drop 1
  exponent := some (e + ((digitsOf d).drop 1).length)

theorem positionalText_eq (places d : ℕ) (e : ℤ) :
    positionalText places d e = (positionalLayout places d e).text := by
  simp only [Layout.text, Layout.mantissa, Layout.suffix, List.append_nil, positionalLayout]
  rfl

theorem scientificText_eq (d : ℕ) (e : ℤ) : scientificText "" d e = (scientificLayout d e).text := by
  simp only [Layout.text, Layout.mantissa, Layout.suffix, scientificLayout, scientificText, ite_self]
  rw [← String.toList_inj]
  simp

theorem lt_length_wholeDigits (d : ℕ) (e : ℤ) : (-e).toNat < (wholeDigits d e).length := by
  simp only [wholeDigits, List.length_append, List.length_replicate]
  omega

theorem isDigit_of_mem_wholeDigits {d : ℕ} {e : ℤ} {c : Char} (hc : c ∈ wholeDigits d e) : c.isDigit := by
  simp only [wholeDigits, List.mem_append, List.mem_replicate] at hc
  rcases hc with ⟨-, rfl⟩ | hc | ⟨-, rfl⟩
  · rfl
  · exact isDigit_of_mem_digitsOf hc
  · rfl

theorem ofDigitChars_wholeDigits (d : ℕ) (e : ℤ) :
    Nat.ofDigitChars 10 (wholeDigits d e) 0 = d * 10 ^ e.toNat := by
  simp only [wholeDigits, Nat.ofDigitChars_append, Nat.ofDigitChars_replicate_zero, mul_zero, digitsOf,
    Nat.ofDigitChars_ten_toDigits]
  exact mul_comm _ _

theorem positionalLayout_proper (places d : ℕ) (e : ℤ) : (positionalLayout places d e).Proper where
  whole_ne_nil := by
    have := lt_length_wholeDigits d e
    rw [← List.length_pos_iff_ne_nil, positionalLayout, List.length_take]
    omega
  digits c hc := by
    simp only [positionalLayout, ← List.append_assoc, List.take_append_drop, List.mem_append,
      List.mem_replicate] at hc
    rcases hc with hc | ⟨-, rfl⟩
    · exact isDigit_of_mem_wholeDigits hc
    · rfl

theorem positionalLayout_value (places d : ℕ) (e : ℤ) : (positionalLayout places d e).value = d * 10 ^ e := by
  have hlength : ((wholeDigits d e).drop ((wholeDigits d e).length - (-e).toNat)).length = (-e).toNat := by
    have := lt_length_wholeDigits d e
    rw [List.length_drop]
    omega
  simp only [positionalLayout, Layout.value, ← List.append_assoc, List.take_append_drop, Nat.ofDigitChars_append,
    Nat.ofDigitChars_replicate_zero, ofDigitChars_wholeDigits, List.length_append, List.length_replicate, hlength,
    Option.getD_none, Nat.cast_mul, Nat.cast_pow, Nat.cast_add, Nat.cast_ofNat]
  have hten : (10 : ℚ) ≠ 0 := by norm_num
  have hscale : (10 : ℚ) ^ e = 10 ^ e.toNat / 10 ^ (-e).toNat := by
    rw [← zpow_natCast, ← zpow_natCast, ← zpow_sub₀ hten, Int.toNat_sub_toNat_neg]
  rw [hscale, zero_sub, zpow_neg, zpow_add₀ hten, zpow_natCast, zpow_natCast]
  field_simp

theorem scientificLayout_proper (d : ℕ) (e : ℤ) : (scientificLayout d e).Proper where
  whole_ne_nil := by
    have : 0 < (digitsOf d).length := Nat.length_toDigits_pos
    rw [← List.length_pos_iff_ne_nil, scientificLayout, List.length_take]
    omega
  digits c hc := by
    rw [scientificLayout, List.take_append_drop] at hc
    exact isDigit_of_mem_digitsOf hc

theorem scientificLayout_value (d : ℕ) (e : ℤ) : (scientificLayout d e).value = d * 10 ^ e := by
  simp only [scientificLayout, Layout.value, List.take_append_drop, digitsOf, Nat.ofDigitChars_ten_toDigits,
    Option.getD_some, add_sub_cancel_right]

theorem DecimalStyle.write_eq (style : DecimalStyle) (d : ℕ) (e : ℤ) :
    style.write d e = positionalText style.places d e ∨ style.write d e = scientificText style.plus d e := by
  unfold write
  extract_lets
  split
  · exact .inl rfl
  · split
    · exact .inl rfl
    · exact .inr rfl

/-- A number is written in a layout that stands for it. -/
theorem DecimalStyle.write_layout {style : DecimalStyle} (hplus : style.plus = "") (d : ℕ) (e : ℤ) :
    ∃ l : Layout, l.Proper ∧ style.write d e = l.text ∧ l.value = d * 10 ^ e ∧
      (style.places ≤ l.fraction.length ∨ l.exponent.isSome) := by
  rcases style.write_eq d e with h | h
  · refine ⟨_, positionalLayout_proper _ _ _, h.trans (positionalText_eq _ _ _), positionalLayout_value _ _ _,
      .inl ?_⟩
    simp only [positionalLayout, List.length_append, List.length_replicate]
    omega
  · rw [hplus] at h
    exact ⟨_, scientificLayout_proper d e, h.trans (scientificText_eq d e), scientificLayout_value d e, .inr rfl⟩

/-- What is written is read as the same number. -/
theorem decimalValue_write {style : DecimalStyle} (hplus : style.plus = "") (d : ℕ) (e : ℤ) :
    decimalValue (style.write d e) = d * 10 ^ e := by
  obtain ⟨l, hl, htext, hvalue, -⟩ := DecimalStyle.write_layout hplus d e
  rw [htext, hl.decimalValue_text, hvalue]

theorem toList_toString_int (n : ℤ) :
    (toString n).toList = (if n < 0 then ['-'] else []) ++ digitsOf n.natAbs := by
  rw [Int.toString_eq_repr, Int.repr_eq_if, digitsOf]
  by_cases hn : n < 0
  · have habs : (-n).toNat = n.natAbs := by omega
    rw [if_pos hn, if_neg (not_le.2 hn), habs, String.toList_append, Nat.repr_eq_ofList_toDigits]
    simp
  · have habs : n.toNat = n.natAbs := by omega
    rw [if_neg hn, if_pos (not_lt.1 hn), habs, Nat.repr_eq_ofList_toDigits, String.toList_ofList]
    rfl

theorem mem_toString_int {n : ℤ} {c : Char} (hc : c ∈ (toString n).toList) : c.isDigit ∨ c = '-' := by
  rw [toList_toString_int, List.mem_append] at hc
  rcases hc with hc | hc
  · split at hc
    · exact .inr (List.mem_singleton.1 hc)
    · cases hc
  · exact .inl (isDigit_of_mem_digitsOf hc)

theorem Layout.mem_mantissa {l : Layout} {c : Char} (hc : c ∈ l.mantissa) :
    c ∈ l.whole ++ l.fraction ∨ c = '.' := by
  unfold mantissa at hc
  split at hc
  · rw [List.append_nil] at hc
    exact .inl (List.mem_append_left _ hc)
  · rw [List.mem_append, List.mem_cons] at hc
    rw [List.mem_append]
    tauto

/-- Besides digits, a text has the mark of the point, that of the exponent and its sign. -/
theorem Layout.Proper.mem_text {l : Layout} (hl : l.Proper) {c : Char} (hc : c ∈ l.text.toList) :
    c.isDigit ∨ c ∈ ['.', 'e', '-'] := by
  rw [text, String.toList_ofList, List.mem_append] at hc
  rcases hc with hc | hc
  · exact (mem_mantissa hc).imp (hl.digits c) (by simp +contextual)
  · unfold suffix at hc
    split at hc
    · cases hc
    · rcases List.mem_cons.1 hc with rfl | hc
      · simp
      · exact (mem_toString_int hc).imp_right (by simp +contextual)

theorem Layout.Proper.head_text {l : Layout} (hl : l.Proper) : ∃ c, l.text.toList.head? = some c ∧ c.isDigit := by
  obtain ⟨c, rest, hwhole⟩ := List.exists_cons_of_ne_nil hl.whole_ne_nil
  exact ⟨c, by simp [text, mantissa, hwhole], hl.digits c (by simp [hwhole])⟩

namespace DecimalStyle

variable {style : DecimalStyle} (hplus : style.plus = "")

include hplus

theorem mem_write {d : ℕ} {e : ℤ} {c : Char} (hc : c ∈ (style.write d e).toList) :
    c.isDigit ∨ c ∈ ['.', 'e', '-'] := by
  obtain ⟨l, hl, htext, -⟩ := write_layout hplus d e
  rw [htext] at hc
  exact hl.mem_text hc

theorem head_write (d : ℕ) (e : ℤ) : ∃ c, (style.write d e).toList.head? = some c ∧ c.isDigit := by
  obtain ⟨l, hl, htext, -⟩ := write_layout hplus d e
  rw [htext]
  exact hl.head_text

/-- Where a place is asked for, a text has a point or an exponent. -/
theorem mark_mem_write (hplaces : 0 < style.places) (d : ℕ) (e : ℤ) :
    '.' ∈ (style.write d e).toList ∨ 'e' ∈ (style.write d e).toList := by
  obtain ⟨l, -, htext, -, hmark⟩ := write_layout hplus d e
  rw [htext, Layout.text, String.toList_ofList]
  rcases hmark with hmark | hmark
  · left
    have hfraction : l.fraction.isEmpty = false :=
      List.isEmpty_eq_false_iff.2 (List.length_pos_iff.1 (hplaces.trans_le hmark))
    simp [Layout.mantissa, hfraction]
  · right
    obtain ⟨exponent, hexponent⟩ := Option.isSome_iff_exists.1 hmark
    simp [Layout.suffix, hexponent]

end DecimalStyle

end Reenact.Number
