import Mathlib
import Reenact.Proofs.Acceptance

/-!
The search for a place without a bound on how deep rows are moved. Each move tries one more column, so the
search ends whatever the rows accept, and it ends as the bounded one does: with a perfect matching if there
is one. Matchers for parts in any order therefore accept what has as many parts, if these can be matched one
to one with the matchers.
-/

namespace Reenact

namespace Pairing

/-- How the search for a column for a row goes through columns, and in which state it ends. A row that
owns a column is moved by a search through all that it accepts. -/
inductive Searches (accepted : Nat → List Nat) : Nat → List Nat → State → Bool → State → Prop
  | exhausted {row : Nat} {s : State} : Searches accepted row [] s false s
  | skip {row column : Nat} {columns : List Nat} {s s' : State} {found : Bool} (htried : column ∈ s.tried)
      (hrest : Searches accepted row columns s found s') :
      Searches accepted row (column :: columns) s found s'
  | take {row column : Nat} {columns : List Nat} {s : State} (hnew : column ∉ s.tried)
      (hfree : owner? s.owners column = none) :
      Searches accepted row (column :: columns) s true
        { s.trying column with owners := setOwner s.owners column row }
  | move {row column other : Nat} {columns : List Nat} {s t : State} (hnew : column ∉ s.tried)
      (howner : owner? s.owners column = some other)
      (hmoved : Searches accepted other (accepted other) (s.trying column) true t) :
      Searches accepted row (column :: columns) s true { t with owners := setOwner t.owners column row }
  | pass {row column other : Nat} {columns : List Nat} {s s' t : State} {found : Bool}
      (hnew : column ∉ s.tried) (howner : owner? s.owners column = some other)
      (hstuck : Searches accepted other (accepted other) (s.trying column) false t)
      (hrest : Searches accepted row columns t found s') :
      Searches accepted row (column :: columns) s found s'

/-- How rows are given columns one after another, up to the first that gets none. -/
inductive Decides (accepted : Nat → List Nat) : List Nat → List (Nat × Nat) → Bool → Prop
  | done {owners : List (Nat × Nat)} : Decides accepted [] owners true
  | placed {row : Nat} {rows : List Nat} {owners : List (Nat × Nat)} {s : State} {verdict : Bool}
      (hfound : Searches accepted row (accepted row) ⟨owners, []⟩ true s)
      (hrest : Decides accepted rows s.owners verdict) : Decides accepted (row :: rows) owners verdict
  | refused {row : Nat} {rows : List Nat} {owners : List (Nat × Nat)} {s : State}
      (hfailed : Searches accepted row (accepted row) ⟨owners, []⟩ false s) :
      Decides accepted (row :: rows) owners false

variable {accepted : Nat → List Nat} {size row : Nat} {columns rows : List Nat} {s s' t' : State}
  {found found' verdict : Bool} {owners : List (Nat × Nat)}

theorem Searches.unique (h : Searches accepted row columns s found s')
    (h' : Searches accepted row columns s found' t') : found = found' ∧ s' = t' := by
  induction h generalizing found' t' with
  | exhausted =>
    cases h'
    exact ⟨rfl, rfl⟩
  | skip htried _ ih =>
    cases h' with
    | skip _ hrest => exact ih hrest
    | take hnew | move hnew | pass hnew => exact absurd htried hnew
  | take hnew hfree =>
    cases h' with
    | skip htried => exact absurd htried hnew
    | take => exact ⟨rfl, rfl⟩
    | move _ howner | pass _ howner => cases hfree.symm.trans howner
  | move hnew howner _ ih =>
    cases h' with
    | skip htried => exact absurd htried hnew
    | take _ hfree => cases hfree.symm.trans howner
    | move _ howner' hmoved =>
      cases howner.symm.trans howner'
      exact ⟨rfl, by rw [(ih hmoved).2]⟩
    | pass _ howner' hstuck =>
      cases howner.symm.trans howner'
      cases (ih hstuck).1
  | pass hnew howner _ _ ihstuck ihrest =>
    cases h' with
    | skip htried => exact absurd htried hnew
    | take _ hfree => cases hfree.symm.trans howner
    | move _ howner' hmoved =>
      cases howner.symm.trans howner'
      cases (ihstuck hmoved).1
    | pass _ howner' hstuck hrest =>
      cases howner.symm.trans howner'
      obtain ⟨-, rfl⟩ := ihstuck hstuck
      exact ihrest hrest

section

variable (haccepted : ∀ r, ∀ c ∈ accepted r, c < size)
include haccepted

/-- A search takes back no column that it tried. -/
theorem Searches.sound (h : Searches accepted row columns s found s') (hcolumns : ∀ c ∈ columns, c < size)
    (hsound : Sound size s) : Sound size s' ∧ s.tried.length ≤ s'.tried.length := by
  induction h with
  | exhausted => exact ⟨hsound, le_rfl⟩
  | skip _ _ ih => exact ih (fun c hc => hcolumns c (List.mem_cons_of_mem _ hc)) hsound
  | take hnew _ => exact ⟨hsound.trying hnew (hcolumns _ List.mem_cons_self), Nat.le_succ _⟩
  | move hnew _ _ ih =>
    obtain ⟨hsound', hlen⟩ := ih (haccepted _) (hsound.trying hnew (hcolumns _ List.mem_cons_self))
    exact ⟨hsound', (Nat.le_succ _).trans hlen⟩
  | pass hnew _ _ _ ihstuck ihrest =>
    obtain ⟨hsound', hlen⟩ := ihstuck (haccepted _) (hsound.trying hnew (hcolumns _ List.mem_cons_self))
    obtain ⟨hsound'', hlen'⟩ := ihrest (fun c hc => hcolumns c (List.mem_cons_of_mem _ hc)) hsound'
    exact ⟨hsound'', (Nat.le_succ _).trans (hlen.trans hlen')⟩

/-- Trying columns in turn is a search, if moving other rows is. -/
theorem tryColumns_searches (moves : Nat → State → Bool × State) (row : Nat) (columns : List Nat)
    (hcolumns : ∀ c ∈ columns, c < size) (s : State) (hsound : Sound size s)
    (hmoves : ∀ other t, Sound size t → s.tried.length < t.tried.length →
      Searches accepted other (accepted other) t (moves other t).1 (moves other t).2) :
    Searches accepted row columns s (tryColumns moves row columns s).1 (tryColumns moves row columns s).2 := by
  induction columns generalizing s with
  | nil => exact .exhausted
  | cons column rest ih =>
    have hrest : ∀ c ∈ rest, c < size := fun c hc => hcolumns c (List.mem_cons_of_mem _ hc)
    unfold tryColumns
    by_cases hnew : column ∈ s.tried
    · rw [if_pos hnew]
      exact .skip hnew (ih hrest s hsound hmoves)
    · rw [if_neg hnew]
      have htrying := hsound.trying hnew (hcolumns column List.mem_cons_self)
      cases howner : owner? s.owners column with
      | none =>
        simp only [howner]
        exact .take hnew howner
      | some other =>
        have hmove := hmoves other (s.trying column) htrying (Nat.lt_succ_self _)
        -- what a move leaves has tried one more column at least, so later moves have the depth they need
        obtain ⟨hsound', hlen⟩ := hmove.sound haccepted (haccepted other) htrying
        simp only [howner, show ({ s with tried := column :: s.tried } : State) = s.trying column from rfl]
        cases hmoved : moves other (s.trying column) with
        | mk free t =>
          rw [hmoved] at hmove hsound' hlen
          cases free with
          | true => exact .move hnew howner hmove
          | false =>
            refine .pass hnew howner hmove (ih hrest t hsound' fun other t' hsound'' hlen' => ?_)
            exact hmoves other t' hsound'' ((Nat.lt_of_succ_le hlen).trans hlen')

/-- The bound on the depth is never met: each level has tried one more column. -/
theorem place_searches (depth row : Nat) (s : State) (hsound : Sound size s)
    (hdepth : size < depth + s.tried.length) :
    Searches accepted row (accepted row) s (place accepted depth row s).1 (place accepted depth row s).2 := by
  induction depth generalizing row s with
  | zero =>
    have hle := hsound.length_le
    omega
  | succ depth ih =>
    refine tryColumns_searches haccepted _ row _ (haccepted row) s hsound fun other t hsound' hlen => ?_
    exact ih other t hsound' (by omega)

theorem decides_iff : Decides accepted rows owners verdict ↔ verdict = placeAll accepted size rows owners := by
  induction rows generalizing owners with
  | nil =>
    constructor
    · rintro ⟨⟩
      rfl
    · rintro rfl
      exact .done
  | cons row rows ih =>
    have hsearch := place_searches haccepted (size + 1) row ⟨owners, []⟩ ⟨.nil, fun c hc => (by cases hc)⟩
      (Nat.lt_succ_self size)
    unfold placeAll
    cases hresult : place accepted (size + 1) row ⟨owners, []⟩ with
    | mk free s =>
      rw [hresult] at hsearch
      cases free with
      | true =>
        constructor
        · intro h
          cases h with
          | placed hfound hrest =>
            obtain ⟨-, rfl⟩ := hsearch.unique hfound
            exact ih.1 hrest
          | refused hfailed => cases (hsearch.unique hfailed).1
        · exact fun heq => .placed hsearch (ih.2 heq)
      | false =>
        constructor
        · intro h
          cases h with
          | placed hfound => cases (hsearch.unique hfound).1
          | refused => rfl
        · rintro rfl
          exact .refused hsearch

end

/-! ### Acceptance relations -/

def tableOf {n : Nat} (accepts : Fin n → Fin n → Bool) : List (List Bool) :=
  List.ofFn fun row => List.ofFn (accepts row)

section

variable {n : Nat} (accepts : Fin n → Fin n → Bool)

theorem length_tableOf : (tableOf accepts).length = n := List.length_ofFn

theorem square_tableOf : ∀ row ∈ tableOf accepts, row.length = (tableOf accepts).length := by
  intro row hrow
  obtain ⟨i, rfl⟩ := List.mem_ofFn.1 hrow
  rw [List.length_ofFn, length_tableOf]

theorem accepts_tableOf (row column : Fin n) :
    Accepts (tableOf accepts) row column ↔ accepts row column = true := by
  simp [Accepts, tableOf]

theorem decides_tableOf : Decides (columnsOf (tableOf accepts)) (List.range n) [] verdict ↔
    verdict = perfect (tableOf accepts) := by
  rw [perfect_eq, decides_iff fun _ _ hc => lt_of_mem_columnsOf (square_tableOf accepts) hc, length_tableOf]

theorem perfect_tableOf : perfect (tableOf accepts) = true ↔
    ∃ σ : Equiv.Perm (Fin n), ∀ row, accepts row (σ row) = true := by
  rw [perfect_iff_equiv (square_tableOf accepts) (length_tableOf accepts)]
  simp only [accepts_tableOf]

end

end Pairing

namespace Matcher

/-- Matchers in any order accept the lists, sets and arrays that can be read and whose elements can be
matched with them one to one, and matchers for entries the maps. The search for such a matching has a
verdict for every relation, and it is whether there is one. -/
theorem unordered_iff_matching (h : Heap) (types : ClassTable) (v : Value) :
    (∀ elements : List Matcher, accepts h types (.anyOrder elements) v = true ↔
      ∃ id o items, v = .object id ∧ h.get? id = some o ∧ o.locked = false ∧
        (o.body = .list items ∨ o.body = .set items ∨ o.body = .array items) ∧
        items.length = elements.length ∧
        ∃ σ : Fin elements.length ≃ Fin items.length, ∀ i, accepts h types elements[i] items[σ i] = true) ∧
    (∀ entries : List (Matcher × Matcher), accepts h types (.mapOf entries) v = true ↔
      ∃ id o items, v = .object id ∧ h.get? id = some o ∧ o.locked = false ∧ o.body = .map items ∧
        items.length = entries.length ∧
        ∃ σ : Fin entries.length ≃ Fin items.length, ∀ i,
          accepts h types entries[i].1 items[σ i].1 = true ∧ accepts h types entries[i].2 items[σ i].2 = true) ∧
    ∀ (n : Nat) (accepted : Fin n → Fin n → Bool),
      (∀ verdict, Pairing.Decides (Pairing.columnsOf (Pairing.tableOf accepted)) (List.range n) [] verdict ↔
        verdict = Pairing.perfect (Pairing.tableOf accepted)) ∧
      (Pairing.perfect (Pairing.tableOf accepted) = true ↔
        ∃ σ : Equiv.Perm (Fin n), ∀ row, accepted row (σ row) = true) := by
  refine ⟨fun elements => ?_, fun entries => ?_, fun n accepted => ?_⟩
  · simp only [accepts_any_order_iff, parts?_eq_some (by decide : Shape.object ∉ [.list, .set, .array])]
    constructor
    · rintro ⟨items, ⟨id, o, hv, ho, hlocked, hshape, hvalues⟩, hmatched⟩
      have hbody : o.body = .list items ∨ o.body = .set items ∨ o.body = .array items := by
        cases hbody : o.body <;> simp_all [Body.shape, Body.values]
      exact ⟨id, o, items, hv, ho, hlocked, hbody, hmatched.length_eq.symm, matched_iff_equiv.1 hmatched⟩
    · rintro ⟨id, o, items, hv, ho, hlocked, hbody, -, hσ⟩
      refine ⟨items, ⟨id, o, hv, ho, hlocked, ?_⟩, matched_iff_equiv.2 hσ⟩
      rcases hbody with hbody | hbody | hbody <;> simp [hbody, Body.shape, Body.values]
  · simp only [accepts_map_of_iff, parts?_eq_some (by decide : Shape.object ∉ [.map])]
    constructor
    · rintro ⟨parts, ⟨id, o, hv, ho, hlocked, hshape, rfl⟩, hmatched⟩
      obtain ⟨items, hbody⟩ : ∃ items, o.body = .map items := by
        cases hbody : o.body <;> simp_all [Body.shape]
      rw [hbody, Body.values, DeepEquality.unzipEntries_flatMap] at hmatched
      exact ⟨id, o, items, hv, ho, hlocked, hbody, hmatched.length_eq.symm, matched_iff_equiv.1 hmatched⟩
    · rintro ⟨id, o, items, hv, ho, hlocked, hbody, -, hσ⟩
      refine ⟨o.body.values, ⟨id, o, hv, ho, hlocked, by simp [hbody, Body.shape], rfl⟩, ?_⟩
      rw [hbody, Body.values, DeepEquality.unzipEntries_flatMap]
      exact matched_iff_equiv.2 hσ
  · exact ⟨fun _ => Pairing.decides_tableOf accepted, Pairing.perfect_tableOf accepted⟩

end Matcher

end Reenact
