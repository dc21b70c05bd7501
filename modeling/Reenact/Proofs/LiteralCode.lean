import Mathlib
import Reenact.Code.Dialect
import Reenact.Proofs.Quoting
import Reenact.Proofs.Shortest

/-!
Literals by their code. The first characters or the suffix show the kind, within a kind the text is that of one
value, and a number of the narrow format is written as if it had never been widened. So one text stands for
several literals only where it says that they are no numbers.
-/

namespace Reenact

open Number

def nanWord (type : String) : String := type ++ "::NAN"

def infinityWord (type : String) (negative : Bool) : String :=
  type ++ "::" ++ (if negative then "NEG_" else "") ++ "INFINITY"

/-- Code of a double, or of a single that was widened to one, the type being known by its name. -/
def floatCode (type : String) (bits : ℕ) : String :=
  match Format.double.read bits with
  | .nan _ _ => nanWord type
  | .infinite negative => infinityWord type negative
  | .finite _ _ _ =>
    if type = "f32" then
      Format.single.text codeStyle "" "" "" (Format.double.convert .single bits) ++ "_f32"
    else Format.double.text codeStyle "" "" "" bits

def Number.Reading.isNaN : Reading → Bool
  | .nan _ _ => true
  | _ => false

/-- Code of a number of a format that has the name `type`, finite numbers being marked by the suffix. -/
def numberCode (f : Format) (type suffix : String) : Reading → String
  | .nan _ _ => nanWord type
  | .infinite negative => infinityWord type negative
  | .finite negative m q => numberText f codeStyle negative m q ++ suffix

namespace Literal

/-- Code that is written through a double, whatever the width. -/
def widenedCode : Literal → String
  | .float bits => floatCode "f32" (Format.single.convert .double bits.toNat)
  | .double bits => floatCode "f64" bits.toNat
  | l => l.code

def isNaN : Literal → Bool
  | .float bits => (Format.single.read bits.toNat).isNaN
  | .double bits => (Format.double.read bits.toNat).isNaN
  | _ => false

theorem code_float (bits : UInt32) :
    (float bits).code = numberCode .single "f32" "_f32" (Format.single.read bits.toNat) := by
  show code.singleCode bits.toNat = _
  unfold code.singleCode
  simp only [Format.text_eq]
  cases Format.single.read bits.toNat with
  | nan => rfl
  | infinite negative => cases negative <;> rfl
  | finite negative m q => rfl

theorem code_double (bits : UInt64) :
    (double bits).code = numberCode .double "f64" "" (Format.double.read bits.toNat) := by
  show Format.double.text codeStyle "f64::NAN" "f64::INFINITY" "f64::NEG_INFINITY" bits.toNat = _
  rw [Format.text_eq]
  cases Format.double.read bits.toNat with
  | nan => rfl
  | infinite negative => cases negative <;> rfl
  | finite negative m q => exact String.append_empty.symm

/-- Widening and narrowing again leave no trace in the code. -/
theorem code_eq_widenedCode (l : Literal) : l.code = l.widenedCode := by
  cases l with
  | float bits =>
    rw [code_float]
    show _ = floatCode "f32" (Format.single.convert .double bits.toNat)
    unfold floatCode
    cases hread : Format.single.read bits.toNat with
    | nan negative payload =>
      obtain ⟨payload', hwide⟩ := Format.widen_nan hread
      rw [hwide]
      rfl
    | infinite negative =>
      rw [Format.widen_infinite hread]
      rfl
    | finite negative m q =>
      obtain ⟨m', q', hwide, hnarrow⟩ := Format.widen_finite hread
      have hbits : Format.double.convert .single (Format.single.convert .double bits.toNat) = bits.toNat := by
        rw [hnarrow, ← hread, Format.pattern_read bits.toNat_lt]
      simp only [hwide, if_pos, hbits, Format.text_eq, hread, numberCode]
  | double bits =>
    rw [code_double]
    show _ = floatCode "f64" bits.toNat
    unfold floatCode
    cases hread : Format.double.read bits.toNat with
    | nan => rfl
    | infinite => rfl
    | finite negative m q => simp [Format.text_eq, hread, numberCode]
  | _ => rfl

/-- The kind of a number by its suffix, or where there is none by its digits. -/
def kindOfNumber (suffix text : List Char) : Primitive :=
  if suffix = "_i8".toList then .byte
  else if suffix = "_i16".toList then .short
  else if suffix = "_i64".toList then .long
  else if suffix = "_f32".toList then .float
  else if '.' ∈ text ∨ 'e' ∈ text then .double
  else .int

/-- The kind of a literal by its code. -/
def kindOfCode : List Char → Option Primitive
  | '"' :: _ => none
  | '\'' :: _ => some .char
  | 't' :: _ => some .bool
  | 'f' :: 'a' :: _ => some .bool
  | 'f' :: '3' :: _ => some .float
  | 'f' :: '6' :: _ => some .double
  | text => some (kindOfNumber (text.dropWhile (· ≠ '_')) text)

/-- Text that has the look of a number. -/
structure Numeral (text : List Char) : Prop where
  head : ∃ c, text.head? = some c ∧ (c.isDigit ∨ c = '-')
  chars : ∀ c ∈ text, c.isDigit ∨ c ∈ ['.', 'e', '-']

theorem Numeral.kindOfCode_append {text : List Char} (h : Numeral text) (suffix : List Char) :
    kindOfCode (text ++ suffix) = some (kindOfNumber (suffix.dropWhile (· ≠ '_')) (text ++ suffix)) := by
  have hsuffix : (text ++ suffix).dropWhile (· ≠ '_') = suffix.dropWhile (· ≠ '_') := by
    refine List.dropWhile_append_of_pos fun c hc => ?_
    have hmark : c ≠ '_' := by
      rintro rfl
      exact absurd (h.chars '_' hc) (by decide)
    simpa using hmark
  rw [← hsuffix]
  obtain ⟨c, hc, hhead⟩ := h.head
  obtain ⟨rest, rfl⟩ := List.head?_eq_some_iff.1 hc
  have hne : c ≠ '"' ∧ c ≠ '\'' ∧ c ≠ 't' ∧ c ≠ 'f' := by
    refine ⟨?_, ?_, ?_, ?_⟩ <;> rintro rfl <;> revert hhead <;> decide
  rw [List.cons_append, kindOfCode] <;> simp [hne]

theorem Numeral.kindOfCode_eq {text : List Char} (h : Numeral text) :
    kindOfCode text = some (if '.' ∈ text ∨ 'e' ∈ text then .double else .int) := by
  have hkind := h.kindOfCode_append []
  rwa [List.append_nil] at hkind

theorem numeral_int (n : ℤ) : Numeral (toString n).toList where
  head := by
    rw [toList_toString_int]
    by_cases hn : n < 0
    · rw [if_pos hn]
      exact ⟨'-', rfl, .inr rfl⟩
    · rw [if_neg hn, List.nil_append]
      obtain ⟨c, rest, hdigits⟩ := List.exists_cons_of_ne_nil (Nat.toDigits_ne_nil (n := n.natAbs) (b := 10))
      rw [digitsOf, hdigits]
      exact ⟨c, rfl, .inl (isDigit_of_mem_digitsOf (d := n.natAbs) (by simp [digitsOf, hdigits]))⟩
  chars c hc := (mem_toString_int hc).imp_right (by simp +contextual)

theorem kindOfCode_marked (n : ℤ) (suffix : String) : kindOfCode (toString n ++ suffix).toList =
    some (kindOfNumber (suffix.toList.dropWhile (· ≠ '_')) ((toString n).toList ++ suffix.toList)) := by
  rw [String.toList_append, (numeral_int n).kindOfCode_append]

theorem numeral_number (f : Format) (negative : Bool) (m : ℕ) (q : ℤ) :
    Numeral (numberText f codeStyle negative m q).toList where
  head := head_numberText rfl
  chars _ hc := mem_numberText rfl hc

/-- The code tells the kind. -/
theorem kindOfCode_code (l : Literal) : kindOfCode l.code.toList = l.kind? := by
  cases l with
  | bool value => cases value <;> decide
  | char value =>
    show kindOfCode (Text.quotedChar value).toList = _
    rw [Text.toList_quotedChar]
    rfl
  | str value =>
    show kindOfCode (Text.quotedString value).toList = _
    rw [Text.toList_quotedString]
    rfl
  | byte value => exact kindOfCode_marked value.toInt "_i8"
  | short value => exact kindOfCode_marked value.toInt "_i16"
  | long value => exact kindOfCode_marked value.toInt "_i64"
  | int value =>
    show kindOfCode (toString value.toInt).toList = _
    have hpoint : '.' ∉ (toString value.toInt).toList := fun h => absurd (mem_toString_int h) (by decide)
    have hexponent : 'e' ∉ (toString value.toInt).toList := fun h => absurd (mem_toString_int h) (by decide)
    rw [(numeral_int _).kindOfCode_eq, if_neg (not_or.2 ⟨hpoint, hexponent⟩)]
    rfl
  | float bits =>
    rw [code_float]
    cases Format.single.read bits.toNat with
    | nan =>
      show kindOfCode (nanWord "f32").toList = some .float
      decide
    | infinite negative => cases negative <;> rfl
    | finite negative m q =>
      show kindOfCode (numberText _ _ _ _ _ ++ "_f32").toList = _
      rw [String.toList_append, (numeral_number _ _ _ _).kindOfCode_append]
      rfl
  | double bits =>
    rw [code_double]
    cases Format.double.read bits.toNat with
    | nan =>
      show kindOfCode (nanWord "f64").toList = some .double
      decide
    | infinite negative => cases negative <;> rfl
    | finite negative m q =>
      show kindOfCode (numberText _ _ _ _ _ ++ "").toList = _
      rw [String.append_empty, (numeral_number _ _ _ _).kindOfCode_eq,
        if_pos (mark_mem_numberText rfl Nat.one_pos)]
      rfl

/-- A word starts as no number does. -/
theorem numberText_ne_word {f : Format} {negative : Bool} {m : ℕ} {q : ℤ} (suffix : String) {word : String}
    (hword : word.toList.head? = some 'f') : numberText f codeStyle negative m q ++ suffix ≠ word := by
  intro h
  obtain ⟨c, hc, hnumeral⟩ := (numeral_number f negative m q).head
  rw [← h, String.toList_append, List.head?_append, hc] at hword
  cases hword
  revert hnumeral
  decide

section

variable {type : String} (htype : type = "f32" ∨ type = "f64")

include htype

theorem head_nanWord : (nanWord type).toList.head? = some 'f' := by
  rcases htype with rfl | rfl <;> decide

theorem head_infinityWord (negative : Bool) : (infinityWord type negative).toList.head? = some 'f' := by
  rcases htype with rfl | rfl <;> cases negative <;> decide

theorem nanWord_ne_infinityWord (negative : Bool) : nanWord type ≠ infinityWord type negative := by
  rcases htype with rfl | rfl <;> cases negative <;> decide

theorem infinityWord_inj {negative negative' : Bool}
    (h : infinityWord type negative = infinityWord type negative') : negative = negative' := by
  revert h
  rcases htype with rfl | rfl <;> cases negative <;> cases negative' <;> decide

/-- The code of a number of a format is not that of another one. -/
theorem numberCode_inj {f : Format} {suffix : String} {r r' : Reading} (hr : f.Readable r) (hr' : f.Readable r')
    (h : numberCode f type suffix r = numberCode f type suffix r') : r = r' ∨ r.isNaN ∧ r'.isNaN := by
  cases r with
  | nan negative payload =>
    cases r' with
    | nan => exact .inr ⟨rfl, rfl⟩
    | infinite negative' => exact absurd h (nanWord_ne_infinityWord htype negative')
    | finite => exact absurd h.symm (numberText_ne_word suffix (head_nanWord htype))
  | infinite negative =>
    cases r' with
    | nan => exact absurd h.symm (nanWord_ne_infinityWord htype negative)
    | infinite negative' => exact .inl (congrArg Reading.infinite (infinityWord_inj htype h))
    | finite => exact absurd h.symm (numberText_ne_word suffix (head_infinityWord htype negative))
  | finite negative m q =>
    cases r' with
    | nan => exact absurd h (numberText_ne_word suffix (head_nanWord htype))
    | infinite negative' => exact absurd h (numberText_ne_word suffix (head_infinityWord htype negative'))
    | finite negative' m' q' =>
      have htext := congrArg String.toList h
      simp only [numberCode, String.toList_append] at htext
      have hnumber := String.toList_inj.1 (List.append_cancel_right htext)
      obtain ⟨rfl, rfl, rfl⟩ := numberText_inj rfl hr.1 hr'.1 hnumber
      exact .inl rfl

end

theorem toString_int_append_inj {n n' : ℤ} {suffix : String} (h : toString n ++ suffix = toString n' ++ suffix) :
    n = n' := by
  have htext := congrArg String.toList h
  rw [String.toList_append, String.toList_append] at htext
  exact Int.repr_inj.1 (String.toList_inj.1 (List.append_cancel_right htext))

theorem eq_or_isNaN_of_code_eq {a b : Literal} (h : a.code = b.code) :
    a = b ∨ a.isNaN ∧ b.isNaN ∧ a.kind? = b.kind? := by
  have hkind : a.kind? = b.kind? := by rw [← kindOfCode_code, h, kindOfCode_code]
  cases a <;> cases b <;> cases hkind
  case bool.bool value value' =>
    cases value <;> cases value' <;> first | exact .inl rfl | exact absurd h (by decide)
  case char.char => exact .inl (congrArg char (Text.quotedChar_injective h))
  case byte.byte => exact .inl (congrArg byte (Int8.toInt_inj.1 (toString_int_append_inj h)))
  case short.short => exact .inl (congrArg short (Int16.toInt_inj.1 (toString_int_append_inj h)))
  case int.int => exact .inl (congrArg int (Int32.toInt_inj.1 (Int.repr_inj.1 h)))
  case long.long => exact .inl (congrArg long (Int64.toInt_inj.1 (toString_int_append_inj h)))
  case float.float bits bits' =>
    rw [code_float, code_float] at h
    rcases numberCode_inj (.inl rfl) (Format.readable_read _ _) (Format.readable_read _ _) h with hread | hnan
    · have hbits := congrArg Format.single.pattern hread
      rw [Format.pattern_read bits.toNat_lt, Format.pattern_read bits'.toNat_lt] at hbits
      exact .inl (congrArg float (UInt32.toNat_inj.1 hbits))
    · exact .inr ⟨hnan.1, hnan.2, rfl⟩
  case double.double bits bits' =>
    rw [code_double, code_double] at h
    rcases numberCode_inj (.inr rfl) (Format.readable_read _ _) (Format.readable_read _ _) h with hread | hnan
    · have hbits := congrArg Format.double.pattern hread
      rw [Format.pattern_read bits.toNat_lt, Format.pattern_read bits'.toNat_lt] at hbits
      exact .inl (congrArg double (UInt64.toNat_inj.1 hbits))
    · exact .inr ⟨hnan.1, hnan.2, rfl⟩
  case str.str => exact .inl (congrArg str (Text.quotedString_injective h))

theorem numberCode_of_isNaN {f : Format} {type suffix : String} {r : Reading} (h : r.isNaN) :
    numberCode f type suffix r = nanWord type := by
  cases r with
  | nan => rfl
  | _ => cases h

theorem code_eq_of_isNaN {a b : Literal} (ha : a.isNaN) (hb : b.isNaN) (hkind : a.kind? = b.kind?) :
    a.code = b.code := by
  cases a with
  | float bits =>
    cases b with
    | float bits' => rw [code_float, code_float, numberCode_of_isNaN ha, numberCode_of_isNaN hb]
    | double => cases hkind
    | _ => cases hb
  | double bits =>
    cases b with
    | double bits' => rw [code_double, code_double, numberCode_of_isNaN ha, numberCode_of_isNaN hb]
    | float => cases hkind
    | _ => cases hb
  | _ => cases ha

/-- Whatever is imported, two literals are written with one code iff they are the same, or are of one kind and both
no numbers; and the code is what it would be if all numbers were widened before. -/
theorem rendered_apart (a b : Literal) (i j : Imports) :
    ((Render.expr (.literal a) i).1 = (Render.expr (.literal b) j).1 ↔
      a = b ∨ a.isNaN ∧ b.isNaN ∧ a.kind? = b.kind?) ∧
    (Render.expr (.literal a) i).1 = a.widenedCode := by
  refine ⟨⟨eq_or_isNaN_of_code_eq, ?_⟩, a.code_eq_widenedCode⟩
  rintro (rfl | ⟨ha, hb, hkind⟩)
  · rfl
  · exact code_eq_of_isNaN ha hb hkind

-- Zeros, the negative one of the wider format among them.
example : [int 0, byte 0, float 0, double 0, double 0x8000000000000000].map code =
    ["0", "0_i8", "0.0_f32", "0.0", "-0.0"] := by decide +kernel

end Literal

end Reenact
