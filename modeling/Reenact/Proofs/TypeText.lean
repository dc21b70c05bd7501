import Mathlib
import Reenact.Proofs.Tokens
import Reenact.Ty.Printer

/-!
Types are read from the sentences of a grammar and from nothing else, and the text of a type is read back
as that type. The assembly keeps the classes whose argument list is open on a stack; what has been read
down to each of them is known to be the beginning of a sentence.
-/

namespace Reenact

theorem Primitive.mem_all (kind : Primitive) : kind ∈ Primitive.all := by cases kind <;> decide

/-- The name of no primitive, and not `void`. -/
def Unreserved (s : String) : Prop := s ≠ "void" ∧ ∀ kind : Primitive, s ≠ kind.name

instance (s : String) : Decidable (Unreserved s) :=
  decidable_of_iff (s ≠ "void" ∧ ∀ kind ∈ Primitive.all, s ≠ kind.name)
    (and_congr_right' ⟨fun h kind => h kind kind.mem_all, fun h kind _ => h kind⟩)

theorem Primitive.ofName?_eq_none {s : String} :
    Primitive.ofName? s = none ↔ ∀ kind : Primitive, s ≠ kind.name := by
  simp only [Primitive.ofName?, List.find?_eq_none, beq_iff_eq]
  exact ⟨fun h kind => Ne.symm (h kind kind.mem_all), fun h kind _ => Ne.symm (h kind)⟩

theorem Primitive.name_of_ofName? {s : String} {kind : Primitive} (h : Primitive.ofName? s = some kind) :
    kind.name = s := by
  simpa using List.find?_some h

/-- Every class in the type has a name, and one that is not reserved. -/
inductive Ty.WellFormed : Ty → Prop where
  | void : WellFormed .void
  | primitive (kind : Primitive) : WellFormed (.primitive kind)
  | named {name args} : TyText.IsName name → Unreserved name → (∀ a ∈ args, a.WellFormed) →
      WellFormed (.named name args)
  | array {t} : t.WellFormed → WellFormed (.array t)

namespace TyText

/-! ### Grammar -/

/-- The phrases of the grammar with what they stand for: types before and with their brackets, and
lists of arguments. -/
inductive Phrase where
  | base (t : Ty)
  | type (t : Ty)
  | args (ts : List Ty)

/-- A name may have arguments unless it is reserved; any type may have pairs of brackets behind it. -/
inductive Derives : Phrase → List Token → Prop where
  | void : Derives (.base .void) [.name "void"]
  | primitive (kind : Primitive) : Derives (.base (.primitive kind)) [.name kind.name]
  | plain {s} : Unreserved s → Derives (.base (.ofClass s)) [.name s]
  | generic {s ts tokens} : Unreserved s → Derives (.args ts) tokens →
      Derives (.base (.named s ts)) (.name s :: .mark '<' :: (tokens ++ [.mark '>']))
  | type {t tokens} : Derives (.base t) tokens → Derives (.type t) tokens
  | array {t tokens} : Derives (.type t) tokens →
      Derives (.type (.array t)) (tokens ++ [.mark '[', .mark ']'])
  | one {t tokens} : Derives (.type t) tokens → Derives (.args [t]) tokens
  | more {ts t tokens tokens'} : Derives (.args ts) tokens → Derives (.type t) tokens' →
      Derives (.args (ts ++ [t])) (tokens ++ .mark ',' :: tokens')

/-- The text is a sentence for the type, with blanks between its tokens and at both ends. -/
def Denotes (cs : List Char) (t : Ty) : Prop := ∃ tokens, Derives (.type t) tokens ∧ Spelled tokens cs

theorem Derives.separated {phrase : Phrase} {tokens : List Token} (h : Derives phrase tokens) :
    Separated tokens := by
  induction h with
  | void | primitive | plain => simp [Separated]
  | generic _ _ ih => exact ⟨by simp, by decide, ih.append_mark (by decide) trivial⟩
  | type _ ih => exact ih
  | array _ ih => exact ih.append_mark (by decide) ⟨by decide, trivial⟩
  | one _ ih => exact ih
  | more _ _ ih ih' => exact ih.append_mark (by decide) ih'

def Phrase.types : Phrase → List Ty
  | .base t | .type t => [t]
  | .args ts => ts

theorem Derives.wellFormed {phrase : Phrase} {tokens : List Token} (h : Derives phrase tokens)
    (hnames : ∀ s, .name s ∈ tokens → IsName s) : ∀ t ∈ phrase.types, t.WellFormed := by
  induction h with
  | void => exact List.forall_mem_singleton.2 .void
  | primitive kind => exact List.forall_mem_singleton.2 (.primitive kind)
  | plain hs =>
    exact List.forall_mem_singleton.2 (.named (hnames _ (by simp)) hs fun a ha => (List.not_mem_nil ha).elim)
  | generic hs _ ih =>
    refine List.forall_mem_singleton.2 (.named (hnames _ (by simp)) hs (ih fun s hmem => hnames s ?_))
    simp [hmem]
  | type _ ih => exact ih hnames
  | array _ ih =>
    have ht := ih fun s hmem => hnames s (List.mem_append_left _ hmem)
    exact List.forall_mem_singleton.2 (.array (List.forall_mem_singleton.1 ht))
  | one _ ih => exact ih hnames
  | more _ _ ih ih' =>
    refine List.forall_mem_append.2 ⟨ih fun s hmem => hnames s ?_, ih' fun s hmem => hnames s ?_⟩
    · exact List.mem_append_left _ hmem
    · exact List.mem_append_right _ (List.mem_cons_of_mem _ hmem)

/-! ### Sentences are read -/

section

variable {stop : Nat} {stack : List OpenClass}

theorem afterName_unreserved {s : String} (hs : Unreserved s) : afterName s = .more (.ofClass s) true := by
  rw [afterName, if_neg hs.1, Primitive.ofName?_eq_none.2 hs.2]

theorem afterName_primitive (kind : Primitive) : afterName kind.name = .more (.primitive kind) false := by
  cases kind <;> rfl

def NotOpening (rest : List (Nat × Token)) : Prop := ∀ e ∈ rest.head?, e.2 ≠ .mark '<'

/-- What may open an argument list need not do so. -/
theorem assemble_more {rest : List (Nat × Token)} (h : NotOpening rest) (t : Ty) (mayOpen : Bool) :
    assemble stop stack (.more t mayOpen) rest = assemble stop stack (.more t false) rest := by
  have hnone : ∀ offset tail, rest ≠ (offset, .mark '<') :: tail := by
    rintro offset tail rfl
    exact h _ rfl rfl
  generalize hmore : Expecting.more t mayOpen = e
  fun_cases assemble stop stack e rest <;> cases hmore <;> simp_all [assemble]

theorem notOpening_mark {offset : Nat} {c : Char} (hc : c ≠ '<') (rest : List (Nat × Token)) :
    NotOpening ((offset, .mark c) :: rest) := by
  rintro e he hopen
  cases he
  exact hc (Token.mark.inj hopen)

/-- What the assembly makes of the tokens of a phrase, whatever is open before them and comes behind. -/
def Assembled : Phrase → List Token → Prop
  | .base t, tokens | .type t, tokens => ∀ stop stack front rest, front.map Prod.snd = tokens →
      NotOpening rest → assemble stop stack .type (front ++ rest) = assemble stop stack (.more t false) rest
  | .args ts, tokens => ∀ stop stack s before front rest, front.map Prod.snd = tokens →
      (∀ offset, assemble stop (⟨s, before⟩ :: stack) .type (front ++ (offset, .mark ',') :: rest) =
        assemble stop (⟨s, before ++ ts⟩ :: stack) .type rest) ∧
      ∀ offset, assemble stop (⟨s, before⟩ :: stack) .type (front ++ (offset, .mark '>') :: rest) =
        assemble stop stack (.more (.named s (before ++ ts)) false) rest

theorem exists_head {front : List (Nat × Token)} {token : Token} {tokens : List Token}
    (h : front.map Prod.snd = token :: tokens) :
    ∃ offset behind, front = (offset, token) :: behind ∧ behind.map Prod.snd = tokens := by
  obtain ⟨⟨offset, _⟩, behind, rfl, rfl, hbehind⟩ := List.map_eq_cons_iff.1 h
  exact ⟨offset, behind, rfl, hbehind⟩

theorem exists_split {front : List (Nat × Token)} {token : Token} {tokens tokens' : List Token}
    (h : front.map Prod.snd = tokens ++ token :: tokens') : ∃ inner offset behind,
      front = inner ++ (offset, token) :: behind ∧ inner.map Prod.snd = tokens ∧ behind.map Prod.snd = tokens' := by
  obtain ⟨inner, tail, rfl, hinner, htail⟩ := List.map_eq_append_iff.1 h
  obtain ⟨offset, behind, rfl, hbehind⟩ := exists_head htail
  exact ⟨inner, offset, behind, rfl, hinner, hbehind⟩

theorem assembled_name {s : String} {t : Ty} {mayOpen : Bool} (hs : afterName s = .more t mayOpen) :
    Assembled (.base t) [.name s] := by
  intro stop stack front rest hfront hrest
  obtain ⟨offset, front, rfl, hnil⟩ := exists_head hfront
  rw [List.map_eq_nil_iff.1 hnil, List.singleton_append, assemble, hs, assemble_more hrest]

theorem Derives.assembled {phrase : Phrase} {tokens : List Token} (h : Derives phrase tokens) :
    Assembled phrase tokens := by
  induction h with
  | void => exact assembled_name rfl
  | primitive kind => exact assembled_name (afterName_primitive kind)
  | plain hs => exact assembled_name (afterName_unreserved hs)
  | @generic s ts tokens hs _ ih =>
    intro stop stack front rest hfront hrest
    obtain ⟨o, tail, rfl, htail⟩ := exists_head hfront
    obtain ⟨o', tail, rfl, hclosed⟩ := exists_head htail
    obtain ⟨inner, o'', behind, rfl, hinner, hbehind⟩ := exists_split hclosed
    obtain rfl := List.map_eq_nil_iff.1 hbehind
    have hargs := (ih stop stack s [] inner rest hinner).2 o''
    simp only [List.nil_append, List.cons_append, List.append_assoc] at hargs ⊢
    rw [assemble, afterName_unreserved hs, Ty.ofClass, assemble, hargs]
  | type _ ih => exact ih
  | array _ ih =>
    intro stop stack front rest hfront hrest
    obtain ⟨inner, o, tail, rfl, hinner, htail⟩ := exists_split hfront
    obtain ⟨o', behind, rfl, hbehind⟩ := exists_head htail
    obtain rfl := List.map_eq_nil_iff.1 hbehind
    rw [List.append_assoc, List.cons_append, ih stop stack inner _ hinner (notOpening_mark (by decide) _)]
    simp [assemble]
  | one _ ih =>
    intro stop stack s before front rest hfront
    refine ⟨fun offset => ?_, fun offset => ?_⟩
    · rw [ih _ _ _ _ hfront (notOpening_mark (by decide) _)]
      simp [assemble]
    · rw [ih _ _ _ _ hfront (notOpening_mark (by decide) _)]
      simp [assemble]
  | more _ _ ih ih' =>
    intro stop stack s before front rest hfront
    obtain ⟨inner, o, last, rfl, hinner, hlast⟩ := exists_split hfront
    refine ⟨fun offset => ?_, fun offset => ?_⟩
    · rw [List.append_assoc, List.cons_append, (ih stop stack s before inner _ hinner).1,
        ih' _ _ _ _ hlast (notOpening_mark (by decide) _)]
      simp [assemble]
    · rw [List.append_assoc, List.cons_append, (ih stop stack s before inner _ hinner).1,
        ih' _ _ _ _ hlast (notOpening_mark (by decide) _)]
      simp [assemble]

end

/-! ### What is read is a sentence -/

/-- The arguments of an open class, as far as they have been read. -/
def Listed (ts : List Ty) (tokens : List Token) : Prop :=
  (ts = [] ∧ tokens = []) ∨ ∃ inner, Derives (.args ts) inner ∧ tokens = inner ++ [.mark ',']

/-- What has been read before a type: each open class with its arguments so far. -/
def Opened : List OpenClass → List Token → Prop
  | [], front => front = []
  | c :: stack, front => ∃ outer inner, front = outer ++ .name c.name :: .mark '<' :: inner ∧
      Opened stack outer ∧ Unreserved c.name ∧ Listed c.args inner

/-- What has been read. A class that may still open a list has only been named. -/
def Seen (stack : List OpenClass) : Expecting → List Token → Prop
  | .type, front => Opened stack front
  | .more t mayOpen, front => ∃ outer inner, front = outer ++ inner ∧ Opened stack outer ∧
      Derives (.type t) inner ∧ (mayOpen → ∃ s, t = .ofClass s ∧ inner = [.name s] ∧ Unreserved s)
  | .bracket t, front => ∃ outer inner, front = outer ++ inner ++ [.mark '['] ∧ Opened stack outer ∧
      Derives (.type t) inner

section

variable {stack : List OpenClass} {front : List Token}

theorem Listed.append {ts : List Ty} {t : Ty} {tokens inner : List Token} (h : Listed ts tokens)
    (ht : Derives (.type t) inner) : Derives (.args (ts ++ [t])) (tokens ++ inner) := by
  rcases h with ⟨rfl, rfl⟩ | ⟨before, hbefore, rfl⟩
  · exact .one ht
  · rw [List.append_assoc, List.singleton_append]
    exact .more hbefore ht

theorem Seen.name (h : Seen stack .type front) (s : String) :
    Seen stack (afterName s) (front ++ [.name s]) := by
  by_cases hvoid : s = "void"
  · subst hvoid
    exact ⟨front, _, rfl, h, .type .void, fun hopen => by cases hopen⟩
  cases hkind : Primitive.ofName? s with
  | some kind =>
    obtain rfl := Primitive.name_of_ofName? hkind
    rw [afterName_primitive]
    exact ⟨front, _, rfl, h, .type (.primitive kind), fun hopen => by cases hopen⟩
  | none =>
    have hs : Unreserved s := ⟨hvoid, Primitive.ofName?_eq_none.1 hkind⟩
    rw [afterName_unreserved hs]
    exact ⟨front, _, rfl, h, .type (.plain hs), fun _ => ⟨s, rfl, rfl, hs⟩⟩

theorem Seen.open {s : String} {ts : List Ty} (h : Seen stack (.more (.named s ts) true) front) :
    Seen (⟨s, []⟩ :: stack) .type (front ++ [.mark '<']) := by
  obtain ⟨outer, inner, rfl, houter, -, hnamed⟩ := h
  obtain ⟨s', heq, rfl, hs⟩ := hnamed rfl
  cases heq
  exact ⟨outer, [], by simp, houter, hs, .inl ⟨rfl, rfl⟩⟩

theorem Seen.bracket {t : Ty} {mayOpen : Bool} (h : Seen stack (.more t mayOpen) front) :
    Seen stack (.bracket t) (front ++ [.mark '[']) := by
  obtain ⟨outer, inner, rfl, houter, ht, -⟩ := h
  exact ⟨outer, inner, rfl, houter, ht⟩

theorem Seen.array {t : Ty} (h : Seen stack (.bracket t) front) :
    Seen stack (.more (.array t) false) (front ++ [.mark ']']) := by
  obtain ⟨outer, inner, rfl, houter, ht⟩ := h
  exact ⟨outer, inner ++ [.mark '[', .mark ']'], by simp, houter, .array ht, fun hopen => by cases hopen⟩

theorem Seen.comma {c : OpenClass} {t : Ty} {mayOpen : Bool} (h : Seen (c :: stack) (.more t mayOpen) front) :
    Seen (⟨c.name, c.args ++ [t]⟩ :: stack) .type (front ++ [.mark ',']) := by
  obtain ⟨_, last, rfl, ⟨outer, inner, rfl, houter, hs, hargs⟩, ht, -⟩ := h
  exact ⟨outer, inner ++ last ++ [.mark ','], by simp, houter, hs, .inr ⟨_, hargs.append ht, rfl⟩⟩

theorem Seen.close {c : OpenClass} {t : Ty} {mayOpen : Bool} (h : Seen (c :: stack) (.more t mayOpen) front) :
    Seen stack (.more (.named c.name (c.args ++ [t])) false) (front ++ [.mark '>']) := by
  obtain ⟨_, last, rfl, ⟨outer, inner, rfl, houter, hs, hargs⟩, ht, -⟩ := h
  exact ⟨outer, _, by simp, houter, .type (.generic hs (hargs.append ht)), fun hopen => by cases hopen⟩

end

theorem Seen.derives {stop : Nat} {stack : List OpenClass} {e : Expecting} {tokens : List (Nat × Token)}
    {t : Ty} (hread : assemble stop stack e tokens = .ok t) {front : List Token} (h : Seen stack e front) :
    Derives (.type t) (front ++ tokens.map Prod.snd) := by
  fun_induction assemble stop stack e tokens generalizing front with
  | case1 stack offset s rest ih =>
    simpa using ih hread (h.name s)
  | case2 stack tokens hno => cases hread
  | case3 stack t offset rest ih => simpa using ih hread h.array
  | case4 => cases hread
  | case5 stack s ts offset rest ih => simpa using ih hread h.open
  | case6 stack t mayOpen offset rest ih => simpa using ih hread h.bracket
  | case7 c stack t mayOpen offset rest ih => simpa using ih hread h.comma
  | case8 c stack t mayOpen offset rest ih => simpa using ih hread h.close
  | case9 t mayOpen =>
    cases hread
    obtain ⟨outer, inner, rfl, rfl, ht, -⟩ := h
    simpa using ht
  | case10 => cases hread
  | case11 => cases hread

theorem assemble_eq_ok_iff {stop : Nat} {tokens : List (Nat × Token)} {t : Ty} :
    assemble stop [] .type tokens = .ok t ↔ Derives (.type t) (tokens.map Prod.snd) := by
  constructor
  · intro hread
    have hstart : Seen [] .type [] := rfl
    exact Seen.derives hread hstart
  · intro h
    have hread := h.assembled stop [] tokens [] rfl fun _ he => by cases he
    rw [List.append_nil] at hread
    rw [hread, assemble]

/-! ### Texts of types are sentences -/

section

variable {cs : List Char} {t : Ty}

theorem isName_reserved : IsName "void" ∧ ∀ kind : Primitive, IsName kind.name :=
  ⟨by decide, fun kind => by cases kind <;> decide⟩

theorem denotes_name {s : String} (hs : IsName s) (h : Derives (.base t) [.name s]) : Denotes s.toList t :=
  ⟨[.name s], .type h, by simpa using Spelled.name blank_nil hs (.blank blank_nil)⟩

theorem Denotes.array (h : Denotes cs t) : Denotes (cs ++ "[]".toList) (.array t) := by
  obtain ⟨tokens, ht, hspelled⟩ := h
  have hbrackets : Spelled [.mark '[', .mark ']'] "[]".toList :=
    .mark blank_nil (.mark blank_nil (.blank blank_nil))
  exact ⟨_, .array ht, hspelled.append hbrackets⟩

/-- Further arguments are written each behind a comma and a space. -/
theorem exists_args {ts : List Ty} (hts : ∀ t ∈ ts, Denotes (t.render id).toList t) {before : List Ty}
    {tokens : List Token} (hargs : Derives (.args before) tokens) (hspelled : Spelled tokens cs) :
    ∃ tokens', Derives (.args (before ++ ts)) tokens' ∧
      Spelled tokens' (cs ++ (Ty.renderRest id ts).toList) := by
  induction ts generalizing before tokens cs with
  | nil => exact ⟨tokens, by simpa using hargs, by simpa [Ty.renderRest] using hspelled⟩
  | cons t ts ih =>
    obtain ⟨inner, ht, hinner⟩ := hts t List.mem_cons_self
    have hcomma : Spelled (.mark ',' :: inner) (", ".toList ++ (t.render id).toList) :=
      .mark blank_nil (hinner.behind_blank blank_space)
    obtain ⟨tokens', hargs', hspelled'⟩ :=
      ih (fun t ht => hts t (List.mem_cons_of_mem _ ht)) (.more hargs ht) (hspelled.append hcomma)
    exact ⟨tokens', by simpa using hargs', by simpa [Ty.renderRest] using hspelled'⟩

theorem denotes_text (ht : t.WellFormed) : Denotes t.text.toList t := by
  induction ht with
  | void => exact denotes_name isName_reserved.1 .void
  | primitive kind => exact denotes_name (isName_reserved.2 kind) (.primitive kind)
  | @named s args hs hfree _ ih =>
    cases args with
    | nil => exact denotes_name hs (.plain hfree)
    | cons a rest =>
      obtain ⟨inner, ha, hinner⟩ := ih a List.mem_cons_self
      obtain ⟨tokens, hargs, hspelled⟩ :=
        exists_args (fun t ht => ih t (List.mem_cons_of_mem _ ht)) (.one ha) hinner
      have hclosed : Spelled (tokens ++ [.mark '>']) _ :=
        hspelled.append (.mark blank_nil (.blank blank_nil))
      exact ⟨_, .type (.generic hfree hargs),
        by simpa [Ty.text, Ty.render] using Spelled.name blank_nil hs (.mark blank_nil hclosed)⟩
  | array _ ih => simpa [Ty.text, Ty.render] using ih.array

end

end TyText

theorem Ty.parse_eq_ok_iff {s : String} {t : Ty} : Ty.parse s = .ok t ↔ TyText.Denotes s.toList t := by
  have hparse : Ty.parse s = .ok t ↔
      TyText.assemble s.utf8ByteSize [] .type (TyText.scan 0 [] s.toList) = .ok t := by
    unfold Ty.parse
    split
    · next heq => rw [heq, Except.ok.injEq, Except.ok.injEq]
    · next heq => simp [heq]
  rw [hparse, TyText.assemble_eq_ok_iff]
  constructor
  · exact fun h => ⟨_, h, TyText.spelled_scan 0 rfl s.toList⟩
  · rintro ⟨tokens, ht, hspelled⟩
    rwa [TyText.scan_of_spelled hspelled ht.separated]

theorem Ty.wellFormed_of_denotes {cs : List Char} {t : Ty} (h : TyText.Denotes cs t) : t.WellFormed := by
  obtain ⟨tokens, ht, hspelled⟩ := h
  exact ht.wellFormed (fun s hs => hspelled.isName hs) t List.mem_cons_self

/-- Reading and writing types are inverse: the text of a well-formed type is read as that type, what is
read is well-formed, and a text is read as a type exactly if it is a sentence of the grammar for it. -/
theorem Ty.parse_inverse_text :
    (∀ t : Ty, t.WellFormed → Ty.parse t.text = .ok t) ∧
    (∀ s t, Ty.parse s = .ok t → t.WellFormed ∧ Ty.parse t.text = .ok t) ∧
    ∀ s t, Ty.parse s = .ok t ↔ TyText.Denotes s.toList t := by
  have hback : ∀ t : Ty, t.WellFormed → Ty.parse t.text = .ok t :=
    fun t ht => Ty.parse_eq_ok_iff.2 (TyText.denotes_text ht)
  refine ⟨hback, fun s t h => ?_, fun s t => Ty.parse_eq_ok_iff⟩
  have ht : t.WellFormed := Ty.wellFormed_of_denotes (Ty.parse_eq_ok_iff.1 h)
  exact ⟨ht, hback t ht⟩

/-- The type `Map<demo::Bean<void>[], int[][]>`. -/
def Ty.beanMap : Ty :=
  .named "Map" [.array (.named "demo::Bean" [.void]), .array (.array (.primitive .int))]

theorem Ty.bean_map_read_back :
    (Ty.beanMap.WellFormed ∧ Ty.parse Ty.beanMap.text = .ok Ty.beanMap) ∧
    Ty.parse "\tMap < demo::Bean<void>[ ],int [][\n]> " = .ok Ty.beanMap ∧
    Ty.beanMap.WellFormed ∧ Ty.parse Ty.beanMap.text = .ok Ty.beanMap := by
  have hbean : Ty.WellFormed (.named "demo::Bean" [.void]) :=
    .named (by decide) (by decide) (List.forall_mem_singleton.2 .void)
  have hwell : Ty.beanMap.WellFormed :=
    .named (by decide) (by decide) (List.forall_mem_cons.2
      ⟨.array hbean, List.forall_mem_singleton.2 (.array (.array (.primitive .int)))⟩)
  have hread : Ty.parse "\tMap < demo::Bean<void>[ ],int [][\n]> " = .ok Ty.beanMap := by
    rfl
  exact ⟨⟨hwell, Ty.parse_inverse_text.1 _ hwell⟩, hread, Ty.parse_inverse_text.2.1 _ _ hread⟩

end Reenact
