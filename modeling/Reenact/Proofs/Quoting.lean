import Mathlib
import Reenact.Text.Quoted

/-!
Reading quoted texts. The first characters between two quotes tell which character they stand for and where the
next one begins, so a text in quotes stands for one character or string only.
-/

namespace Reenact.Text

def hexDigit (c : Char) : ℕ := if c.isDigit then c.toNat - '0'.toNat else c.toNat - 'a'.toNat + 10

def readHex (digits : List Char) : ℕ := digits.foldl (fun n c => 16 * n + hexDigit c) 0

/-- The character in front of a text between quotes, with the text behind it. -/
def readChar : List Char → Option (Char × List Char)
  | '\\' :: '0' :: rest => some ('\x00', rest)
  | '\\' :: 't' :: rest => some ('\t', rest)
  | '\\' :: 'r' :: rest => some ('\r', rest)
  | '\\' :: 'n' :: rest => some ('\n', rest)
  | '\\' :: 'u' :: rest =>
    let digits := (rest.drop 1).takeWhile (· ≠ '\x7d')
    some (Char.ofNat (readHex digits), rest.drop (digits.length + 2))
  | '\\' :: c :: rest => some (c, rest)
  | c :: rest => some (c, rest)
  | [] => none

theorem hexDigit_digitChar {n : ℕ} (hn : n < 16) : hexDigit n.digitChar = n := by
  interval_cases n <;> decide

theorem readHex_toDigits (n : ℕ) : readHex (Nat.toDigits 16 n) = n := by
  induction n using Nat.strong_induction_on with
  | _ n ih =>
    by_cases hn : n < 16
    · rw [Nat.toDigits_of_lt_base hn]
      show 16 * 0 + hexDigit n.digitChar = n
      rw [hexDigit_digitChar hn]
      omega
    · have hlower := ih (n / 16) (by omega)
      have hlast := hexDigit_digitChar (Nat.mod_lt n (by decide : 0 < 16))
      rw [Nat.toDigits_of_base_le (by decide) (by omega), readHex, List.foldl_append, ← readHex, hlower]
      show 16 * (n / 16) + hexDigit (n % 16).digitChar = n
      omega

theorem ne_brace_of_mem_toDigits {n : ℕ} {c : Char} (hc : c ∈ Nat.toDigits 16 n) : c ≠ '\x7d' := by
  induction n using Nat.strong_induction_on with
  | _ n ih =>
    have hdigit : ∀ m, m < 16 → m.digitChar ≠ '\x7d' := by decide
    by_cases hn : n < 16
    · rw [Nat.toDigits_of_lt_base hn, List.mem_singleton] at hc
      rw [hc]
      exact hdigit n hn
    · rw [Nat.toDigits_of_base_le (by decide) (by omega), List.mem_append, List.mem_singleton] at hc
      rcases hc with hc | rfl
      · exact ih (n / 16) (by omega) hc
      · exact hdigit _ (Nat.mod_lt n (by decide))

theorem readChar_backslash {c : Char} (hc : c ∉ ['0', 't', 'r', 'n', 'u']) (rest : List Char) :
    readChar ('\\' :: c :: rest) = some (c, rest) := by
  simp only [List.mem_cons, List.not_mem_nil, or_false, not_or] at hc
  obtain ⟨h0, ht, hr, hn, hu⟩ := hc
  rw [readChar] <;> assumption

theorem readChar_plain {c : Char} (hc : c ≠ '\\') (rest : List Char) :
    readChar (c :: rest) = some (c, rest) := by
  simp [readChar, hc]

theorem readChar_codePoint (n : ℕ) (rest : List Char) :
    readChar ('\\' :: 'u' :: '\x7b' :: (Nat.toDigits 16 n ++ '\x7d' :: rest)) = some (Char.ofNat n, rest) := by
  have hdigits : (Nat.toDigits 16 n ++ '\x7d' :: rest).takeWhile (· ≠ '\x7d') = Nat.toDigits 16 n := by
    rw [List.takeWhile_append_of_pos fun c hc => by simpa using ne_brace_of_mem_toDigits hc]
    simp
  have hrest : (Nat.toDigits 16 n ++ '\x7d' :: rest).drop ((Nat.toDigits 16 n).length + 1) = rest := by
    rw [← List.drop_drop, List.drop_left, List.drop_one, List.tail_cons]
  simp only [readChar, List.drop_succ_cons, List.drop_zero, hdigits, hrest, readHex_toDigits]

section

-- A backslash before the quote in use must not read as another escape.
variable {quote : Char} (hquote : quote ∉ ['0', 't', 'r', 'n', 'u'])

include hquote

/-- A character is read back in front of any text. -/
theorem readChar_escape (c : Char) (rest : List Char) :
    readChar ((escape quote c).toList ++ rest) = some (c, rest) := by
  unfold escape
  split
  case h_6 _ _ _ _ _ hbackslash =>
    split
    case isTrue h =>
      rw [String.toList_ofList, h]
      exact readChar_backslash hquote rest
    split
    case isTrue =>
      simp only [String.toList_append, hex, String.toList_ofList]
      have hcode := readChar_codePoint c.toNat rest
      rw [Char.ofNat_toNat] at hcode
      rw [← hcode]
      simp
    case isFalse =>
      rw [String.toList_singleton]
      exact readChar_plain hbackslash rest
  all_goals rfl

theorem escape_append_inj {c c' : Char} {rest rest' : List Char}
    (h : (escape quote c).toList ++ rest = (escape quote c').toList ++ rest') : c = c' ∧ rest = rest' := by
  have hread := congrArg readChar h
  rw [readChar_escape hquote, readChar_escape hquote] at hread
  exact Prod.mk.inj (Option.some.inj hread)

theorem escape_ne_empty (c : Char) : escape quote c ≠ "" := by
  intro h
  have hread := readChar_escape hquote c []
  rw [h] at hread
  cases hread

theorem flatMap_escape_inj {cs cs' : List Char}
    (h : cs.flatMap (fun c => (escape quote c).toList) = cs'.flatMap fun c => (escape quote c).toList) :
    cs = cs' := by
  induction cs generalizing cs' with
  | nil =>
    cases cs' with
    | nil => rfl
    | cons c' cs' => simp [escape_ne_empty hquote] at h
  | cons c cs ih =>
    cases cs' with
    | nil => simp [escape_ne_empty hquote] at h
    | cons c' cs' =>
      rw [List.flatMap_cons, List.flatMap_cons] at h
      obtain ⟨rfl, hrest⟩ := escape_append_inj hquote h
      rw [ih hrest]

end

theorem toList_quotedString (s : String) :
    (quotedString s).toList = '"' :: (s.toList.flatMap (fun c => (escape '"' c).toList) ++ ['"']) := by
  simp [quotedString, String.toList_join, List.flatMap_map]

theorem toList_quotedChar (c : Char) : (quotedChar c).toList = '\'' :: ((escape '\'' c).toList ++ ['\'']) := by
  simp [quotedChar]

theorem quotedString_injective : Function.Injective quotedString := by
  intro s s' h
  have hlist := congrArg String.toList h
  rw [toList_quotedString, toList_quotedString] at hlist
  have hparts := List.append_cancel_right (List.cons.inj hlist).2
  exact String.toList_inj.1 (flatMap_escape_inj (by decide) hparts)

theorem quotedChar_injective : Function.Injective quotedChar := by
  intro c c' h
  have hlist := congrArg String.toList h
  rw [toList_quotedChar, toList_quotedChar] at hlist
  exact (escape_append_inj (by decide) (List.cons.inj hlist).2).1

end Reenact.Text
