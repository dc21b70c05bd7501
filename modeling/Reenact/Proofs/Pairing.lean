import Mathlib
import Reenact.Match.Pairing
import Reenact.Proofs.Slots

/-!
A row is refused a column only if some rows together accept fewer columns than they are, so a table
that holds a perfect matching is found to hold one. Every row that is given a column takes one more, so
a table that is found to hold a perfect matching does.
-/

namespace Reenact.Pairing

variable {accepted : Nat → List Nat} {size row column c : Nat} {s s' t : State}

theorem owner?_setOwner (owners : List (Nat × Nat)) (column row c : Nat) :
    owner? (setOwner owners column row) c = if c = column then some row else owner? owners c := by
  unfold owner? setOwner
  by_cases hc : c = column
  · simp [hc]
  · rw [if_neg hc, List.find?_cons_of_neg (by simpa using Ne.symm hc), List.find?_filter]
    congr 2
    funext e
    by_cases he : e.1 = c <;> simp [he, hc]

/-- No row owns two columns. -/
def Apart (owners : List (Nat × Nat)) : Prop :=
  ∀ c c' r, owner? owners c = some r → owner? owners c' = some r → c = c'

/-- The columns tried exist and were tried once. -/
def Sound (size : Nat) (s : State) : Prop := s.tried.Nodup ∧ ∀ c ∈ s.tried, c < size

/-- Whatever the row owns was tried, so the search does not touch it. -/
def Ousted (s : State) (row : Nat) : Prop := ∀ c, owner? s.owners c = some row → c ∈ s.tried

/-- The row was given a column that was not tried before, other rows having made room. -/
structure Placed (row : Nat) (s s' : State) : Prop where
  kept : ∀ c ∈ s.tried, owner? s'.owners c = owner? s.owners c
  rows : ∀ c r, owner? s'.owners c = some r → r = row ∨ ∃ c', owner? s.owners c' = some r
  apart : ∀ c c' r, c ∉ s.tried → c' ∉ s.tried → owner? s'.owners c = some r →
    owner? s'.owners c' = some r → c = c'
  cross : ∀ c c' r, c ∈ s.tried → c' ∉ s.tried → owner? s'.owners c = some r →
    owner? s'.owners c' = some r → r = row

/-- All the columns were tried, and so were all that their owners accept. -/
structure Blocked (accepted : Nat → List Nat) (size : Nat) (columns : List Nat) (s s' : State) :
    Prop where
  owners : s'.owners = s.owners
  tried : ∀ c ∈ s.tried, c ∈ s'.tried
  columns : ∀ c ∈ columns, c ∈ s'.tried
  full : ∀ c ∈ s'.tried, c ∉ s.tried →
    ∃ r, owner? s.owners c = some r ∧ ∀ c' ∈ accepted r, c' ∈ s'.tried
  sound : Sound size s'

/-- What an attempt comes to. -/
def Outcome (accepted : Nat → List Nat) (size row : Nat) (columns : List Nat) (s : State)
    (result : Bool × State) : Prop :=
  (∀ s', result = (true, s') → Placed row s s') ∧
    ∀ s', result = (false, s') → Blocked accepted size columns s s'

theorem Sound.length_le (h : Sound size s) : s.tried.length ≤ size := by
  have hsub : s.tried.toFinset ⊆ Finset.range size := fun c hc =>
    Finset.mem_range.2 (h.2 c (List.mem_toFinset.1 hc))
  have hcard := Finset.card_le_card hsub
  rwa [List.toFinset_card_of_nodup h.1, Finset.card_range] at hcard

/-- The state in which one more column has been tried. -/
def State.trying (s : State) (column : Nat) : State := { s with tried := column :: s.tried }

theorem Sound.trying (h : Sound size s) (hnew : column ∉ s.tried) (hlt : column < size) :
    Sound size (s.trying column) :=
  ⟨List.nodup_cons.2 ⟨hnew, h.1⟩, fun c hc => (List.mem_cons.1 hc).elim (fun heq => heq ▸ hlt) (h.2 c)⟩

/-- Once its only column is being tried, a row owns no other. -/
theorem Apart.ousted_trying {other : Nat} (hapart : Apart s.owners)
    (howner : owner? s.owners column = some other) : Ousted (s.trying column) other := fun c hc =>
  hapart c column other hc howner ▸ List.mem_cons_self

/-! ### What an attempt does -/

/-- The runs of the search through the columns of a row, with what each of them ends in. -/
inductive Attempt (moves : Nat → State → Bool × State) (row : Nat) :
    List Nat → State → Bool × State → Prop where
  | exhausted (s : State) : Attempt moves row [] s (false, s)
  | skip {column : Nat} {rest : List Nat} {s : State} {result : Bool × State} (hold : column ∈ s.tried)
    (hrest : Attempt moves row rest s result) : Attempt moves row (column :: rest) s result
  | free {column : Nat} {rest : List Nat} {s : State} (hnew : column ∉ s.tried)
    (howner : owner? s.owners column = none) :
    Attempt moves row (column :: rest) s
      (true, { s.trying column with owners := setOwner s.owners column row })
  | moved {column other : Nat} {rest : List Nat} {s t : State} (hnew : column ∉ s.tried)
    (howner : owner? s.owners column = some other) (hmoved : moves other (s.trying column) = (true, t)) :
    Attempt moves row (column :: rest) s (true, { t with owners := setOwner t.owners column row })
  | stuck {column other : Nat} {rest : List Nat} {s t : State} {result : Bool × State}
    (hnew : column ∉ s.tried) (howner : owner? s.owners column = some other)
    (hstuck : moves other (s.trying column) = (false, t)) (hrest : Attempt moves row rest t result) :
    Attempt moves row (column :: rest) s result

theorem tryColumns_attempt (moves : Nat → State → Bool × State) (row : Nat) (columns : List Nat)
    (s : State) : Attempt moves row columns s (tryColumns moves row columns s) := by
  induction columns generalizing s with
  | nil => exact .exhausted s
  | cons column rest ih =>
    unfold tryColumns
    by_cases hnew : column ∈ s.tried
    · rw [if_pos hnew]
      exact .skip hnew (ih s)
    · rw [if_neg hnew]
      have htrying : ({ s with tried := column :: s.tried } : State) = s.trying column := rfl
      cases howner : owner? s.owners column with
      | none =>
        simp only [howner]
        exact .free hnew howner
      | some other =>
        simp only [howner]
        cases hmoved : moves other (s.trying column) with
        | mk free t =>
          rw [htrying, hmoved]
          cases free with
          | true => exact .moved hnew howner hmoved
          | false => exact .stuck hnew howner hmoved (ih t)

/-! ### Placing a row -/

/-- Room was made in a column for a row: whatever other columns hold was held before or moved apart. -/
private structure Vacated (row column : Nat) (s t : State) : Prop where
  kept : ∀ c ∈ s.tried, owner? t.owners c = owner? s.owners c
  rows : ∀ c r, owner? t.owners c = some r → ∃ c', owner? s.owners c' = some r
  ousted : ∀ c, c ∉ s.tried → c ≠ column → owner? t.owners c ≠ some row
  apart : ∀ c c' r, c ∉ s.tried → c' ∉ s.tried → c ≠ column → c' ≠ column →
    owner? t.owners c = some r → owner? t.owners c' = some r → c = c'
  cross : ∀ c c' r, c ∈ s.tried → c' ∉ s.tried → c' ≠ column → owner? t.owners c = some r →
    owner? t.owners c' ≠ some r

/-- A row takes the column that was vacated for it. -/
private theorem Vacated.placed (h : Vacated row column s t) (hnew : column ∉ s.tried) :
    Placed row s { t with owners := setOwner t.owners column row } where
  kept c hc := by
    have hne : c ≠ column := fun heq => hnew (heq ▸ hc)
    rw [owner?_setOwner, if_neg hne, h.kept c hc]
  rows c r hr := by
    rw [owner?_setOwner] at hr
    split at hr
    · exact .inl (Option.some.inj hr).symm
    · exact .inr (h.rows c r hr)
  apart c c' r hc hc' hr hr' := by
    rw [owner?_setOwner] at hr hr'
    split at hr <;> split at hr'
    · next heq heq' => exact heq.trans heq'.symm
    · next hne =>
      cases hr
      exact absurd hr' (h.ousted c' hc' hne)
    · next hne _ =>
      cases hr'
      exact absurd hr (h.ousted c hc hne)
    · next hne hne' => exact h.apart c c' r hc hc' hne hne' hr hr'
  cross c c' r hc hc' hr hr' := by
    have hne : c ≠ column := fun heq => hnew (heq ▸ hc)
    rw [owner?_setOwner, if_neg hne] at hr
    rw [owner?_setOwner] at hr'
    split at hr'
    · exact (Option.some.inj hr').symm
    · next hne' => exact absurd hr' (h.cross c c' r hc hc' hne' hr)

/-- A column without an owner needs no room to be made. -/
private theorem vacated_of_free (hapart : Apart s.owners) (hrow : Ousted s row) :
    Vacated row column s (s.trying column) where
  kept _ _ := rfl
  rows c _ hr := ⟨c, hr⟩
  ousted c hc _ hr := hc (hrow c hr)
  apart c c' r _ _ _ _ := hapart c c' r
  cross c c' r hc hc' _ hr hr' := hc' (hapart c c' r hr hr' ▸ hc)

/-- The owner of a column makes room in it by finding another one. -/
private theorem vacated_of_moved {other : Nat} (hapart : Apart s.owners) (hrow : Ousted s row)
    (hnew : column ∉ s.tried) (howner : owner? s.owners column = some other)
    (hmoved : Placed other (s.trying column) t) : Vacated row column s t := by
  have hother : other ≠ row := fun heq => hnew (hrow column (heq ▸ howner))
  have hstays : ∀ c ∈ s.tried, owner? t.owners c = owner? s.owners c := fun c hc =>
    hmoved.kept c (List.mem_cons_of_mem _ hc)
  have huntried : ∀ c, c ∉ s.tried → c ≠ column → c ∉ (s.trying column).tried := fun c hc hne =>
    List.not_mem_cons_of_ne_of_not_mem hne hc
  constructor
  case kept => exact hstays
  case rows =>
    intro c r hr
    rcases hmoved.rows c r hr with rfl | hold
    · exact ⟨column, howner⟩
    · exact hold
  case ousted =>
    intro c hc hne hr
    rcases hmoved.rows c row hr with heq | ⟨c₀, hc₀⟩
    · exact hother heq.symm
    · have htried := hrow c₀ hc₀
      have heq := hmoved.cross c₀ c row (List.mem_cons_of_mem _ htried) (huntried c hc hne)
        ((hstays c₀ htried).trans hc₀) hr
      exact hother heq.symm
  case apart =>
    intro c c' r hc hc' hne hne'
    exact hmoved.apart c c' r (huntried c hc hne) (huntried c' hc' hne')
  case cross =>
    -- only the owner that moved can hold both, and it held the column, which was not tried
    intro c c' r hc hc' hne' hr hr'
    have heq := hmoved.cross c c' r (List.mem_cons_of_mem _ hc) (huntried c' hc' hne') hr hr'
    subst heq
    exact hnew (hapart c column r ((hstays c hc).symm.trans hr) howner ▸ hc)

/-- Columns tried in vain before the row was placed change nothing. -/
private theorem Placed.of_tried (h : Placed row t s') (hapart : Apart s.owners) (hrow : Ousted s row)
    (howners : t.owners = s.owners) (htried : ∀ c ∈ s.tried, c ∈ t.tried) : Placed row s s' := by
  have hkept : ∀ c ∈ t.tried, owner? s'.owners c = owner? s.owners c := fun c hc =>
    howners ▸ h.kept c hc
  constructor
  case kept => exact fun c hc => hkept c (htried c hc)
  case rows => exact fun c r hr => howners ▸ h.rows c r hr
  case apart =>
    intro c c' r hc hc' hr hr'
    by_cases ht : c ∈ t.tried <;> by_cases ht' : c' ∈ t.tried
    · exact hapart c c' r (hkept c ht ▸ hr) (hkept c' ht' ▸ hr')
    · cases h.cross c c' r ht ht' hr hr'
      exact absurd (hrow c (hkept c ht ▸ hr)) hc
    · cases h.cross c' c r ht' ht hr' hr
      exact absurd (hrow c' (hkept c' ht' ▸ hr')) hc'
    · exact h.apart c c' r ht ht' hr hr'
  case cross =>
    intro c c' r hc hc' hr hr'
    by_cases ht' : c' ∈ t.tried
    · exact absurd (hapart c c' r (hkept c (htried c hc) ▸ hr) (hkept c' ht' ▸ hr') ▸ hc) hc'
    · exact h.cross c c' r (htried c hc) ht' hr hr'

/-- Columns that were tried in vain stay tried in vain. -/
private theorem Blocked.of_blocked {columns columns' : List Nat} {other : Nat}
    (h : Blocked accepted size columns' t s')
    (howner : owner? s.owners column = some other)
    (hother : Blocked accepted size (accepted other) (s.trying column) t)
    (hcolumns : columns = column :: columns') : Blocked accepted size columns s s' := by
  have hcolumn : column ∈ s'.tried := h.tried column (hother.tried column List.mem_cons_self)
  constructor
  case owners => exact h.owners.trans hother.owners
  case tried => exact fun c hc => h.tried c (hother.tried c (List.mem_cons_of_mem _ hc))
  case columns =>
    intro c hc
    rw [hcolumns] at hc
    exact (List.mem_cons.1 hc).elim (fun heq => heq ▸ hcolumn) (h.columns c)
  case sound => exact h.sound
  case full =>
    intro c hc hold
    by_cases ht : c ∈ t.tried
    · by_cases heq : c = column
      · exact ⟨other, heq ▸ howner, fun c' hc' => h.tried c' (hother.columns c' hc')⟩
      · obtain ⟨r, hr, hall⟩ := hother.full c ht (List.not_mem_cons_of_ne_of_not_mem heq hold)
        exact ⟨r, hr, fun c' hc' => h.tried c' (hall c' hc')⟩
    · obtain ⟨r, hr, hall⟩ := h.full c hc ht
      exact ⟨r, hother.owners ▸ hr, hall⟩

theorem Outcome.of_placed {columns : List Nat} (h : Placed row s s') :
    Outcome accepted size row columns s (true, s') :=
  ⟨fun _ heq => (Prod.mk.inj heq).2 ▸ h, fun _ heq => (by cases heq)⟩

theorem Outcome.of_blocked {columns : List Nat} (h : Blocked accepted size columns s s') :
    Outcome accepted size row columns s (false, s') :=
  ⟨fun _ heq => (by cases heq), fun _ heq => (Prod.mk.inj heq).2 ▸ h⟩

/-- A column that was tried before adds nothing to an attempt. -/
theorem Outcome.skip {columns : List Nat} {result : Bool × State}
    (h : Outcome accepted size row columns s result) (hold : column ∈ s.tried) :
    Outcome accepted size row (column :: columns) s result := by
  refine ⟨h.1, fun s' heq => ?_⟩
  have hblocked := h.2 s' heq
  refine { hblocked with columns := fun c hc => ?_ }
  rcases List.mem_cons.1 hc with rfl | hc
  · exact hblocked.tried c hold
  · exact hblocked.columns c hc

/-- Trying columns in turn, if moving other rows does what it should. -/
theorem Attempt.outcome {moves : Nat → State → Bool × State} {columns : List Nat}
    {result : Bool × State} (h : Attempt moves row columns s result) (hlt : ∀ c ∈ columns, c < size)
    (hsound : Sound size s) (hapart : Apart s.owners) (hrow : Ousted s row)
    (hmoves : ∀ other t, Sound size t → s.tried.length < t.tried.length → Apart t.owners →
      Ousted t other → Outcome accepted size other (accepted other) t (moves other t)) :
    Outcome accepted size row columns s result := by
  induction h with
  | exhausted s =>
    refine .of_blocked ⟨rfl, fun c hc => hc, fun c hc => ?_, fun c hc hnot => absurd hc hnot, hsound⟩
    cases hc
  | skip hold _ ih =>
    exact (ih (fun c hc => hlt c (List.mem_cons_of_mem _ hc)) hsound hapart hrow hmoves).skip hold
  | free hnew _ => exact .of_placed ((vacated_of_free hapart hrow).placed hnew)
  | @moved column other _ s t hnew howner hmoved =>
    have htrying := hsound.trying hnew (hlt column List.mem_cons_self)
    have hother := hapart.ousted_trying howner
    have hplaced := (hmoves other _ htrying (Nat.lt_succ_self _) hapart hother).1 t hmoved
    exact .of_placed ((vacated_of_moved hapart hrow hnew howner hplaced).placed hnew)
  | @stuck column other _ s t _ hnew howner hstuck _ ih =>
    have htrying := hsound.trying hnew (hlt column List.mem_cons_self)
    have hother := hapart.ousted_trying howner
    have hblocked := (hmoves other _ htrying (Nat.lt_succ_self _) hapart hother).2 t hstuck
    have htried : ∀ c ∈ s.tried, c ∈ t.tried := fun c hc =>
      hblocked.tried c (List.mem_cons_of_mem _ hc)
    have howners : t.owners = s.owners := hblocked.owners
    have hlength : s.tried.length < t.tried.length :=
      (htrying.1.subperm hblocked.tried).length_le
    -- the search goes on with more columns tried, so other rows may be moved as before
    obtain ⟨hplaced, hfailed⟩ := ih (fun c hc => hlt c (List.mem_cons_of_mem _ hc)) hblocked.sound
      (howners ▸ hapart) (fun c hc => htried c (hrow c (howners ▸ hc)))
      fun other t' hsound' hlen => hmoves other t' hsound' (hlength.trans hlen)
    constructor
    · exact fun s' heq => (hplaced s' heq).of_tried hapart hrow howners htried
    · exact fun s' heq => (hfailed s' heq).of_blocked howner hblocked rfl

theorem place_outcome (haccepted : ∀ r, ∀ c ∈ accepted r, c < size) (depth row : Nat) (s : State)
    (hsound : Sound size s) (hapart : Apart s.owners) (hrow : Ousted s row)
    (hdepth : size < depth + s.tried.length) :
    Outcome accepted size row (accepted row) s (place accepted depth row s) := by
  induction depth generalizing row s with
  | zero =>
    have hle := hsound.length_le
    omega
  | succ depth ih =>
    refine (tryColumns_attempt _ row _ s).outcome (haccepted row) hsound hapart hrow ?_
    intro other t hsound' hlen hapart' hother
    exact ih other t hsound' hapart' hother (by omega)

/-- The row and the owners of the columns tried are one more than these columns, but accept no
others. -/
private theorem not_blocked {σ : Nat → Nat} (hσ : ∀ r < size, σ r ∈ accepted r)
    (hinj : ∀ r < size, ∀ r' < size, σ r = σ r' → r = r') {owners : List (Nat × Nat)}
    (hrow : row < size) (hapart : Apart owners) (hfree : ∀ c, owner? owners c ≠ some row)
    (howners : ∀ c r, owner? owners c = some r → r < size) :
    ¬ Blocked accepted size (accepted row) ⟨owners, []⟩ s := by
  intro h
  let owner (c : Nat) : Nat := (owner? owners c).getD row
  have howner : ∀ c ∈ s.tried, owner? owners c = some (owner c) ∧ ∀ c' ∈ accepted (owner c), c' ∈ s.tried := by
    intro c hc
    obtain ⟨r, hr, hall⟩ := h.full c hc List.not_mem_nil
    have hr' : owner? owners c = some r := hr
    have heq : owner c = r := by simp [owner, hr']
    exact ⟨heq ▸ hr', heq ▸ hall⟩
  let rows : Finset Nat := insert row (s.tried.toFinset.image owner)
  have hmaps : ∀ r ∈ rows, r < size ∧ σ r ∈ s.tried.toFinset := by
    intro r hr
    rcases Finset.mem_insert.1 hr with rfl | hr
    · exact ⟨hrow, List.mem_toFinset.2 (h.columns _ (hσ r hrow))⟩
    · obtain ⟨c, hc, rfl⟩ := Finset.mem_image.1 hr
      obtain ⟨hc', hall⟩ := howner c (List.mem_toFinset.1 hc)
      have hlt := howners c _ hc'
      exact ⟨hlt, List.mem_toFinset.2 (hall _ (hσ _ hlt))⟩
  have hle : rows.card ≤ s.tried.toFinset.card :=
    Finset.card_le_card_of_injOn σ (fun r hr => (hmaps r hr).2) fun r hr r' hr' heq =>
      hinj r (hmaps r hr).1 r' (hmaps r' hr').1 heq
  have hnew : row ∉ s.tried.toFinset.image owner := by
    intro hmem
    obtain ⟨c, hc, heq⟩ := Finset.mem_image.1 hmem
    exact hfree c (heq ▸ (howner c (List.mem_toFinset.1 hc)).1)
  have himage : (s.tried.toFinset.image owner).card = s.tried.toFinset.card := by
    refine Finset.card_image_of_injOn fun c hc c' hc' heq => ?_
    have hleft := (howner c (List.mem_toFinset.1 hc)).1
    have hright := (howner c' (List.mem_toFinset.1 hc')).1
    exact hapart c c' _ (hleft.trans (congrArg some heq)) hright
  rw [Finset.card_insert_of_notMem hnew, himage] at hle
  exact absurd hle (Nat.not_succ_le_self _)

/-- Rows that can all be given columns of their own are given some, one after another. -/
theorem placeAll_of_matching (haccepted : ∀ r, ∀ c ∈ accepted r, c < size) {σ : Nat → Nat}
    (hσ : ∀ r < size, σ r ∈ accepted r) (hinj : ∀ r < size, ∀ r' < size, σ r = σ r' → r = r')
    (rows : List Nat) (hrows : rows.Nodup) (hlt : ∀ r ∈ rows, r < size) (owners : List (Nat × Nat))
    (hapart : Apart owners) (howners : ∀ c r, owner? owners c = some r → r < size ∧ r ∉ rows) :
    placeAll accepted size rows owners = true := by
  induction rows generalizing owners with
  | nil => rfl
  | cons row rest ih =>
    rw [List.nodup_cons] at hrows
    have hrow : ∀ c, owner? owners c ≠ some row := fun c hc =>
      (howners c row hc).2 List.mem_cons_self
    have hempty : Sound size ⟨owners, []⟩ := ⟨.nil, fun c hc => (by cases hc)⟩
    obtain ⟨hplaced, hblocked⟩ := place_outcome haccepted (size + 1) row ⟨owners, []⟩ hempty hapart
      (fun c hc => absurd hc (hrow c)) (Nat.lt_succ_self size)
    unfold placeAll
    cases hresult : place accepted (size + 1) row ⟨owners, []⟩ with
    | mk free s =>
      cases free with
      | true =>
        have h := hplaced s hresult
        refine ih hrows.2 (fun r hr => hlt r (List.mem_cons_of_mem _ hr)) s.owners ?_ ?_
        · exact fun c c' r hr hr' => h.apart c c' r List.not_mem_nil List.not_mem_nil hr hr'
        · intro c r hr
          rcases h.rows c r hr with rfl | ⟨c', hc'⟩
          · exact ⟨hlt r List.mem_cons_self, hrows.1⟩
          · obtain ⟨hr', hnot⟩ := howners c' r hc'
            exact ⟨hr', fun hmem => hnot (List.mem_cons_of_mem _ hmem)⟩
      | false =>
        exact absurd (hblocked s hresult) (not_blocked hσ hinj (hlt row List.mem_cons_self) hapart hrow
          fun c r hr => (howners c r hr).1)

/-! ### What is found -/

/-- Every column is owned by a row that accepts it, if any. -/
def Welcome (accepted : Nat → List Nat) (owners : List (Nat × Nat)) : Prop :=
  ∀ c r, owner? owners c = some r → c ∈ accepted r

/-- Besides the columns owned before one more is owned, all of them by rows that accept them. -/
structure Gained (accepted : Nat → List Nat) (s s' : State) : Prop where
  welcome : Welcome accepted s'.owners
  owned : ∃ c, owner? s.owners c = none ∧
    ∀ c', (owner? s'.owners c').isSome ↔ c' = c ∨ (owner? s.owners c').isSome

/-- What an attempt to place a row changes: one more column is owned, or nothing. -/
def Gains (accepted : Nat → List Nat) (s : State) (result : Bool × State) : Prop :=
  (∀ s', result = (true, s') → Gained accepted s s') ∧ ∀ s', result = (false, s') → s'.owners = s.owners

theorem Welcome.setOwner {owners : List (Nat × Nat)} (h : Welcome accepted owners) (hc : column ∈ accepted row) :
    Welcome accepted (setOwner owners column row) := by
  intro c r hr
  rw [owner?_setOwner] at hr
  split at hr
  · next heq =>
    cases hr
    exact heq ▸ hc
  · exact h c r hr

theorem Gains.of_gained (h : Gained accepted s s') : Gains accepted s (true, s') :=
  ⟨fun _ heq => (Prod.mk.inj heq).2 ▸ h, fun _ heq => (by cases heq)⟩

theorem Gains.of_owners (h : s'.owners = s.owners) : Gains accepted s (false, s') :=
  ⟨fun _ heq => (by cases heq), fun _ heq => (Prod.mk.inj heq).2 ▸ h⟩

theorem Attempt.gains {moves : Nat → State → Bool × State} {columns : List Nat}
    {result : Bool × State} (h : Attempt moves row columns s result)
    (hcolumns : ∀ c ∈ columns, c ∈ accepted row) (hwelcome : Welcome accepted s.owners)
    (hmoves : ∀ other t, Welcome accepted t.owners → Gains accepted t (moves other t)) :
    Gains accepted s result := by
  induction h with
  | exhausted s => exact .of_owners rfl
  | skip _ _ ih => exact ih (fun c hc => hcolumns c (List.mem_cons_of_mem _ hc)) hwelcome
  | @free column _ s _ howner =>
    refine .of_gained ⟨hwelcome.setOwner (hcolumns column List.mem_cons_self), column, howner, fun c => ?_⟩
    rw [owner?_setOwner]
    split
    · next heq => simp [heq]
    · next hne => simp [hne]
  | @moved column other _ s t _ howner hmoved =>
    obtain ⟨hwelcome', c₀, hfree, howned⟩ := (hmoves other (s.trying column) hwelcome).1 t hmoved
    refine .of_gained ⟨hwelcome'.setOwner (hcolumns column List.mem_cons_self), c₀, hfree, fun c => ?_⟩
    rw [owner?_setOwner]
    split
    · next heq => simp [heq, howner]
    · exact howned c
  | @stuck column other _ s t _ _ _ hstuck _ ih =>
    have howners : t.owners = s.owners := (hmoves other (s.trying column) hwelcome).2 t hstuck
    obtain ⟨hgained, hkept⟩ :=
      ih (fun c hc => hcolumns c (List.mem_cons_of_mem _ hc)) (howners ▸ hwelcome)
    constructor
    · intro s' heq
      obtain ⟨hwelcome', howned⟩ := hgained s' heq
      exact ⟨hwelcome', howners ▸ howned⟩
    · exact fun s' heq => (hkept s' heq).trans howners

theorem place_gains (depth row : Nat) (s : State) (hwelcome : Welcome accepted s.owners) :
    Gains accepted s (place accepted depth row s) := by
  induction depth generalizing row s with
  | zero =>
    refine ⟨fun s' heq => (by cases heq), fun s' heq => ?_⟩
    cases heq
    rfl
  | succ depth ih => exact (tryColumns_attempt _ row _ s).gains (fun _ hc => hc) hwelcome ih

/-- The columns that have an owner. -/
def taken (size : Nat) (owners : List (Nat × Nat)) : Finset Nat :=
  (Finset.range size).filter fun c => (owner? owners c).isSome

theorem Gained.card_taken (h : Gained accepted s s') (haccepted : ∀ r, ∀ c ∈ accepted r, c < size) :
    (taken size s'.owners).card = (taken size s.owners).card + 1 := by
  obtain ⟨hwelcome, c, hfree, howned⟩ := h
  have hlt : c < size := by
    obtain ⟨r, hr⟩ := Option.isSome_iff_exists.1 ((howned c).2 (.inl rfl))
    exact haccepted r c (hwelcome c r hr)
  have htaken : taken size s'.owners = insert c (taken size s.owners) := by
    ext c'
    simp only [taken, Finset.mem_filter, Finset.mem_insert, Finset.mem_range, howned]
    constructor
    · rintro ⟨hlt', rfl | hold⟩
      · exact .inl rfl
      · exact .inr ⟨hlt', hold⟩
    · rintro (rfl | ⟨hlt', hold⟩)
      · exact ⟨hlt, .inl rfl⟩
      · exact ⟨hlt', .inr hold⟩
  rw [htaken, Finset.card_insert_of_notMem (by simp [taken, hfree])]

/-- Rows that are all placed own columns that they accept, each another one. -/
theorem matching_of_placeAll (haccepted : ∀ r, ∀ c ∈ accepted r, c < size) {rows : List Nat}
    (hrows : rows.Nodup) {owners : List (Nat × Nat)} (hapart : Apart owners)
    (hwelcome : Welcome accepted owners) (howners : ∀ c r, owner? owners c = some r → r ∉ rows)
    (hplaced : placeAll accepted size rows owners = true) :
    ∃ final, Apart final ∧ Welcome accepted final ∧
      (taken size final).card = (taken size owners).card + rows.length ∧
      ∀ c r, owner? final c = some r → r ∈ rows ∨ ∃ c', owner? owners c' = some r := by
  induction rows generalizing owners with
  | nil => exact ⟨owners, hapart, hwelcome, rfl, fun c r hr => .inr ⟨c, hr⟩⟩
  | cons row rest ih =>
    rw [List.nodup_cons] at hrows
    have hrow : Ousted ⟨owners, []⟩ row := fun c hc => absurd List.mem_cons_self (howners c row hc)
    obtain ⟨houtcome, -⟩ := place_outcome haccepted (size + 1) row ⟨owners, []⟩
      ⟨.nil, fun c hc => (by cases hc)⟩ hapart hrow (Nat.lt_succ_self size)
    obtain ⟨hgains, -⟩ := place_gains (size + 1) row ⟨owners, []⟩ hwelcome
    unfold placeAll at hplaced
    cases hresult : place accepted (size + 1) row ⟨owners, []⟩ with
    | mk free s =>
      rw [hresult] at hplaced
      cases free with
      | false => cases hplaced
      | true =>
        have h := houtcome s hresult
        have hgained := hgains s hresult
        obtain ⟨final, hapart', hwelcome', hcard, hfinal⟩ := ih hrows.2
          (fun c c' r hr hr' => h.apart c c' r List.not_mem_nil List.not_mem_nil hr hr') hgained.welcome
          (fun c r hr => by
            rcases h.rows c r hr with rfl | ⟨c', hc'⟩
            · exact hrows.1
            · exact fun hmem => howners c' r hc' (List.mem_cons_of_mem _ hmem)) hplaced
        refine ⟨final, hapart', hwelcome', ?_, fun c r hr => ?_⟩
        · have hmore : (taken size s.owners).card = (taken size owners).card + 1 := hgained.card_taken haccepted
          rw [hcard, hmore, List.length_cons]
          omega
        · rcases hfinal c r hr with hmem | ⟨c', hc'⟩
          · exact .inl (List.mem_cons_of_mem _ hmem)
          · rcases h.rows c' r hc' with rfl | hold
            · exact .inl List.mem_cons_self
            · exact .inr hold

/-! ### Tables -/

/-- Whether a row of a table accepts a column. -/
def Accepts (table : List (List Bool)) (row column : Nat) : Prop :=
  (table[row]?).bind (·[column]?) = some true

/-- The columns that a row of a table accepts. -/
def columnsOf (table : List (List Bool)) (row : Nat) : List Nat :=
  (List.range ((table[row]?).getD []).length).filter fun column => ((table[row]?).getD [])[column]? == some true

theorem perfect_eq (table : List (List Bool)) :
    perfect table = placeAll (columnsOf table) table.length (List.range table.length) [] := rfl

theorem mem_columnsOf {table : List (List Bool)} : column ∈ columnsOf table row ↔ Accepts table row column := by
  rw [columnsOf, List.mem_filter, List.mem_range, Accepts]
  cases table[row]? with
  | none => simp
  | some answers =>
    simp only [Option.getD_some, beq_iff_eq, Option.bind_some, and_iff_right_iff_imp]
    exact fun h => (List.getElem?_eq_some_iff.1 h).1

section

variable {table : List (List Bool)} (hsquare : ∀ row ∈ table, row.length = table.length)
include hsquare

theorem lt_of_mem_columnsOf (hcolumn : column ∈ columnsOf table row) : column < table.length := by
  obtain ⟨answers, hanswers, hlt⟩ := Option.bind_eq_some_iff.1 (mem_columnsOf.1 hcolumn)
  exact hsquare answers (List.mem_of_getElem? hanswers) ▸ (List.getElem?_eq_some_iff.1 hlt).1

/-- A square table in which every row can be given a column of its own holds a perfect matching. -/
theorem perfect_of_matching {σ : Nat → Nat} (hσ : ∀ r < table.length, Accepts table r (σ r))
    (hinj : ∀ r < table.length, ∀ r' < table.length, σ r = σ r' → r = r') : perfect table = true := by
  rw [perfect_eq]
  exact placeAll_of_matching (fun _ _ hc => lt_of_mem_columnsOf hsquare hc)
    (fun r hr => mem_columnsOf.2 (hσ r hr)) hinj _ List.nodup_range (fun r hr => List.mem_range.1 hr)
    [] (fun c c' r hr => by cases hr) fun c r hr => by cases hr

/-- In a square table that holds a perfect matching every row can be given a column of its own. -/
theorem matching_of_perfect {n : Nat} (hn : table.length = n) (hperfect : perfect table = true) :
    ∃ σ : Equiv.Perm (Fin n), ∀ r : Fin n, Accepts table r (σ r) := by
  subst hn
  rw [perfect_eq] at hperfect
  obtain ⟨owners, hapart, hwelcome, hcard, hrows⟩ := matching_of_placeAll
    (fun _ _ hc => lt_of_mem_columnsOf hsquare hc) List.nodup_range (fun c c' r hr => by cases hr)
    (fun c r hr => by cases hr) (fun c r hr => by cases hr) hperfect
  -- as many columns are taken as there are, so each has an owner
  have hall : taken table.length owners = Finset.range table.length := by
    refine Finset.eq_of_subset_of_card_le (Finset.filter_subset _ _) ?_
    rw [hcard, List.length_range, Finset.card_range]
    exact Nat.le_add_left _ _
  have howner : ∀ c : Fin table.length, ∃ r : Fin table.length, owner? owners c = some r.val := by
    intro c
    have htaken : c.val ∈ taken table.length owners := hall ▸ Finset.mem_range.2 c.isLt
    obtain ⟨r, hr⟩ := Option.isSome_iff_exists.1 (Finset.mem_filter.1 htaken).2
    rcases hrows c r hr with hlt | ⟨c', hc'⟩
    · exact ⟨⟨r, List.mem_range.1 hlt⟩, hr⟩
    · cases hc'
  choose owner howner using howner
  have hinj : Function.Injective owner := fun c c' heq =>
    Fin.ext (hapart c c' (owner c) (howner c) (heq ▸ howner c'))
  let σ := Equiv.ofBijective owner (Finite.injective_iff_bijective.1 hinj)
  refine ⟨σ.symm, fun r => mem_columnsOf.1 (hwelcome _ _ ?_)⟩
  rw [howner, show owner (σ.symm r) = r from σ.apply_symm_apply r]

/-- A square table holds a perfect matching if and only if its rows and columns can be matched one to one. -/
theorem perfect_iff_equiv {n : Nat} (hn : table.length = n) :
    perfect table = true ↔ ∃ σ : Equiv.Perm (Fin n), ∀ r : Fin n, Accepts table r (σ r) := by
  refine ⟨matching_of_perfect hsquare hn, ?_⟩
  rintro ⟨σ, hσ⟩
  subst hn
  refine perfect_of_matching hsquare (σ := fun r => if hr : r < table.length then σ ⟨r, hr⟩ else 0) ?_ ?_
  · intro r hr
    simpa [hr] using hσ ⟨r, hr⟩
  · intro r hr r' hr' heq
    simp only [dif_pos hr, dif_pos hr'] at heq
    exact congrArg Fin.val (σ.injective (Fin.ext heq))

end

theorem accepts_map_iff {α β : Type} {f : α → β → Bool} {as : List α} {bs : List β} :
    Accepts (as.map fun a => bs.map (f a)) row column ↔
      ∃ a b, as[row]? = some a ∧ bs[column]? = some b ∧ f a b = true := by
  unfold Accepts
  rw [List.getElem?_map]
  cases as[row]? with
  | none => simp
  | some a => simp

/-- The items of two lists as long can be matched up if and only if the table of what accepts what holds a
perfect matching. -/
theorem perfect_iff_matched {α β : Type} {f : α → β → Bool} {as : List α} {bs : List β}
    (hlen : as.length = bs.length) :
    perfect (as.map fun a => bs.map (f a)) = true ↔ Matched (fun a b => f a b = true) as bs := by
  have hsquare : ∀ row ∈ as.map fun a => bs.map (f a), row.length = (as.map fun a => bs.map (f a)).length := by
    intro row hrow
    obtain ⟨a, _, rfl⟩ := List.mem_map.1 hrow
    rw [List.length_map, List.length_map, hlen]
  have hcell : ∀ (i : Fin as.length) (j : Fin bs.length),
      Accepts (as.map fun a => bs.map (f a)) i j ↔ f as[i] bs[j] = true := by
    intro i j
    simp [accepts_map_iff]
  rw [perfect_iff_equiv hsquare (List.length_map _), matched_iff_equiv]
  constructor
  · rintro ⟨σ, hσ⟩
    exact ⟨σ.trans (finCongr hlen), fun i => (hcell i _).1 (hσ i)⟩
  · rintro ⟨σ, hσ⟩
    exact ⟨σ.trans (finCongr hlen.symm), fun i => (hcell i (σ i)).2 (hσ i)⟩

end Reenact.Pairing
