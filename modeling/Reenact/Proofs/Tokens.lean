import Mathlib
import Reenact.Ty.Parser

/-!
Texts as tokens with blanks around them. What a text is cut into spells it, and nothing else does, as long
as no two names stand side by side and every mark is one that types are written with.
-/

namespace Reenact.TyText

/-- A sequence of letters, digits, `_`, `$` and pairs of colons. -/
def isWord : List Char → Bool
  | [] => true
  | ':' :: ':' :: rest => isWord rest
  | c :: rest => isNameChar c && isWord rest

def IsName (s : String) : Prop := s ≠ "" ∧ isWord s.toList

instance (s : String) : Decidable (IsName s) := inferInstanceAs (Decidable (_ ∧ _))

def Blank (ws : List Char) : Prop := ∀ c ∈ ws, isBlank c = true

/-- The text consists of the tokens in turn, with any blanks before, between and behind them. -/
inductive Spelled : List Token → List Char → Prop where
  | blank {ws} : Blank ws → Spelled [] ws
  | name {ws s tokens cs} : Blank ws → IsName s → Spelled tokens cs →
      Spelled (.name s :: tokens) (ws ++ s.toList ++ cs)
  | mark {ws c tokens cs} : Blank ws → Spelled tokens cs → Spelled (.mark c :: tokens) (ws ++ c :: cs)

section

variable {tokens tokens' : List Token} {cs ds ws : List Char}

theorem Blank.append (h : Blank ws) (h' : Blank cs) : Blank (ws ++ cs) :=
  fun c hc => (List.mem_append.1 hc).elim (h c) (h' c)

theorem blank_nil : Blank [] := fun _ hc => (List.not_mem_nil hc).elim

theorem blank_space : Blank [' '] := fun c hc => by rw [List.mem_singleton.1 hc]; rfl

theorem Spelled.behind_blank (hws : Blank ws) (h : Spelled tokens cs) : Spelled tokens (ws ++ cs) := by
  cases h with
  | blank hcs => exact .blank (hws.append hcs)
  | name hblank hs hrest =>
    rw [List.append_assoc, ← List.append_assoc ws, ← List.append_assoc]
    exact .name (hws.append hblank) hs hrest
  | mark hblank hrest =>
    rw [← List.append_assoc]
    exact .mark (hws.append hblank) hrest

theorem Spelled.append (h : Spelled tokens cs) (h' : Spelled tokens' ds) :
    Spelled (tokens ++ tokens') (cs ++ ds) := by
  induction h with
  | blank hws => exact h'.behind_blank hws
  | name hws hs _ ih =>
    rw [List.append_assoc, List.cons_append]
    exact .name hws hs ih
  | mark hws _ ih =>
    rw [List.append_assoc, List.cons_append, List.cons_append]
    exact .mark hws ih

theorem Spelled.isName (h : Spelled tokens cs) {s : String} (hs : .name s ∈ tokens) : IsName s := by
  induction h with
  | blank => cases hs
  | name _ hname _ ih =>
    rcases List.mem_cons.1 hs with heq | hs
    · exact (Token.name.inj heq) ▸ hname
    · exact ih hs
  | mark _ _ ih => exact ih ((List.mem_cons.1 hs).resolve_left Token.noConfusion)

end

/-! ### Cutting -/

theorem isWord_append {w w' : List Char} (h : isWord w) (h' : isWord w') : isWord (w ++ w') := by
  fun_induction isWord w with
  | case1 => exact h'
  | case2 rest ih => exact ih h
  | case3 c rest hno ih =>
    rw [Bool.and_eq_true] at h
    have hc : c ≠ ':' := by rintro rfl; exact absurd h.1 (by decide)
    rw [List.cons_append, isWord]
    · rw [Bool.and_eq_true]
      exact ⟨h.1, ih h.2⟩
    · exact fun _ heq => (hc heq).elim

theorem spelled_collected {word : List Char} (hword : isWord word) {tokens : List Token} {cs : List Char}
    (offset : Nat) (h : Spelled tokens cs) :
    Spelled ((collected offset word).map Prod.snd ++ tokens) (word ++ cs) := by
  cases word with
  | nil => exact h
  | cons c rest =>
    have hname : IsName (String.ofList (c :: rest)) :=
      ⟨fun hempty => by simpa using congrArg String.toList hempty, by rwa [String.toList_ofList]⟩
    simpa [collected] using Spelled.name blank_nil hname h

/-- The tokens of a text spell it, together with the name that was begun before it. -/
theorem spelled_scan (offset : Nat) {word : List Char} (hword : isWord word) (cs : List Char) :
    Spelled ((scan offset word cs).map Prod.snd) (word ++ cs) := by
  fun_induction scan offset word cs with
  | case1 offset word =>
    simpa using spelled_collected hword offset (.blank blank_nil)
  | case2 offset word rest ih => simpa using ih (isWord_append hword rfl)
  | case3 offset word c rest hno hc ih =>
    have hone : isWord [c] := by
      rw [isWord]
      · rw [hc]; rfl
      · exact fun _ _ heq => by cases heq
    simpa using ih (isWord_append hword hone)
  | case4 offset word c rest hno hc ih =>
    have hrest : Spelled ((scan (offset + c.utf8Size) [] rest).map Prod.snd) rest := ih rfl
    rw [List.map_append, List.map_append, List.append_assoc]
    refine spelled_collected hword offset ?_
    split
    · next hblank =>
      have hc : Blank [c] := fun b hb => by rwa [List.mem_singleton.1 hb]
      exact hrest.behind_blank hc
    · exact .mark blank_nil hrest

/-! ### Which tokens spell a text -/

/-- The marks that types are written with. -/
def marks : List Char := ['<', '>', ',', '[', ']']

/-- Every mark is one of types, and none but these stands behind a name. -/
def Separated : List Token → Prop
  | [] => True
  | .mark c :: rest => c ∈ marks ∧ Separated rest
  | .name _ :: rest => (∀ s, rest.head? ≠ some (.name s)) ∧ Separated rest

theorem Separated.append_mark {tokens tokens' : List Token} {c : Char} (h : Separated tokens)
    (hc : c ∈ marks) (h' : Separated tokens') : Separated (tokens ++ .mark c :: tokens') := by
  induction tokens with
  | nil => exact ⟨hc, h'⟩
  | cons token rest ih =>
    cases token with
    | mark b => exact ⟨h.1, ih h.2⟩
    | name s =>
      refine ⟨fun s' => ?_, ih h.2⟩
      cases rest with
      | nil => simp
      | cons next rest => exact h.1 s'

/-- Here a name that has been begun ends. -/
def Stops : List Char → Prop
  | [] => True
  | c :: _ => isNameChar c = false ∧ c ≠ ':'

theorem stops_of_blank {c : Char} (hc : isBlank c) (cs : List Char) : Stops (c :: cs) := by
  simp only [isBlank, Bool.or_eq_true, beq_iff_eq] at hc
  rcases hc with (((rfl | rfl) | rfl) | rfl) | rfl <;> exact ⟨by decide, by decide⟩

theorem stops_of_mark {c : Char} (hc : c ∈ marks) (cs : List Char) : Stops (c :: cs) := by
  simp only [marks, List.mem_cons, List.not_mem_nil, or_false] at hc
  rcases hc with rfl | rfl | rfl | rfl | rfl <;> exact ⟨by decide, by decide⟩

theorem Spelled.stops {tokens : List Token} {cs : List Char} (h : Spelled tokens cs) (hsep : Separated tokens)
    (hhead : ∀ s, tokens.head? ≠ some (.name s)) : Stops cs := by
  cases h with
  | blank hws =>
    cases cs with
    | nil => trivial
    | cons c ws => exact stops_of_blank (hws c List.mem_cons_self) _
  | name => exact (hhead _ rfl).elim
  | @mark ws c _ _ hws _ =>
    cases ws with
    | nil => exact stops_of_mark hsep.1 _
    | cons b ws => exact stops_of_blank (hws b List.mem_cons_self) _

theorem scan_stops (offset : Nat) (word : List Char) {c : Char} {cs : List Char} (h : Stops (c :: cs)) :
    scan offset word (c :: cs) =
      collected offset word ++ (if isBlank c then [] else [(offset, .mark c)])
        ++ scan (offset + c.utf8Size) [] cs := by
  rw [scan, h.1]
  · rfl
  · exact fun _ hc _ => h.2 hc

theorem scan_ends (offset : Nat) (word : List Char) {cs : List Char} (h : Stops cs) :
    scan offset word cs = collected offset word ++ scan offset [] cs := by
  cases cs with
  | nil => simp [scan, collected]
  | cons c cs => simp [scan_stops _ _ h, collected]

theorem scan_blank {ws : List Char} (hws : Blank ws) (cs : List Char) (offset : Nat) :
    ∃ offset', scan offset [] (ws ++ cs) = scan offset' [] cs := by
  induction ws generalizing offset with
  | nil => exact ⟨offset, rfl⟩
  | cons c ws ih =>
    have hc : isBlank c := hws c List.mem_cons_self
    obtain ⟨offset', heq⟩ := ih (fun b hb => hws b (List.mem_cons_of_mem _ hb)) (offset + c.utf8Size)
    refine ⟨offset', ?_⟩
    rw [List.cons_append, scan_stops _ _ (stops_of_blank hc _), if_pos hc]
    exact heq

theorem scan_word {w : List Char} (hw : isWord w) (cs : List Char) (offset : Nat) (word : List Char) :
    ∃ offset', scan offset word (w ++ cs) = scan offset' (word ++ w) cs := by
  fun_induction isWord w generalizing offset word with
  | case1 => exact ⟨offset, by simp⟩
  | case2 rest ih =>
    obtain ⟨offset', heq⟩ := ih hw (offset + 2) (word ++ [':', ':'])
    exact ⟨offset', by simpa [scan] using heq⟩
  | case3 c rest hno ih =>
    rw [Bool.and_eq_true] at hw
    have hc : c ≠ ':' := by rintro rfl; exact absurd hw.1 (by decide)
    obtain ⟨offset', heq⟩ := ih hw.2 (offset + 1) (word ++ [c])
    refine ⟨offset', ?_⟩
    rw [List.cons_append, scan, if_pos hw.1, heq, List.append_assoc, List.singleton_append]
    exact fun _ hcolon _ => hc hcolon

theorem collected_toList {s : String} (hs : s ≠ "") (offset : Nat) :
    (collected offset s.toList).map Prod.snd = [.name s] := by
  have hne : s.toList ≠ [] := fun hnil => hs (String.toList_injective hnil)
  obtain ⟨c, rest, heq⟩ := List.exists_cons_of_ne_nil hne
  rw [heq, collected, List.map_singleton, ← heq, String.ofList_toList]
  simp

theorem scan_of_spelled {tokens : List Token} {cs : List Char} (h : Spelled tokens cs) (hsep : Separated tokens)
    (offset : Nat) : (scan offset [] cs).map Prod.snd = tokens := by
  induction h generalizing offset with
  | @blank ws hws =>
    obtain ⟨offset', heq⟩ := scan_blank hws [] offset
    rw [List.append_nil] at heq
    rw [heq]
    rfl
  | @name ws s tokens cs hws hs hrest ih =>
    obtain ⟨offset', hblank⟩ := scan_blank hws (s.toList ++ cs) offset
    obtain ⟨offset'', hword⟩ := scan_word hs.2 cs offset' []
    rw [List.append_assoc, hblank, hword, List.nil_append, scan_ends _ _ (hrest.stops hsep.2 hsep.1),
      List.map_append, collected_toList hs.1, ih hsep.2]
    rfl
  | @mark ws c tokens cs hws hrest ih =>
    obtain ⟨offset', hblank⟩ := scan_blank hws (c :: cs) offset
    have hno : ¬ isBlank c := by
      have hc := hsep.1
      simp only [marks, List.mem_cons, List.not_mem_nil, or_false] at hc
      rcases hc with rfl | rfl | rfl | rfl | rfl <;> decide
    rw [hblank, scan_stops _ _ (stops_of_mark hsep.1 _), if_neg hno, List.map_append, ih hsep.2]
    rfl

end Reenact.TyText
