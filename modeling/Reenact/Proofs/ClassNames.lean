import Mathlib
import Reenact.Code.Dialect
import Reenact.Proofs.Assoc

/-!
Which classes are written alike. The first scoped class with a last segment is imported and written by
that segment, every later one in full. A class without scopes is written as it is, so it is taken for the
imported class if that has its name as last segment; apart from that different classes are written
differently.
-/

namespace Reenact

theorem afterScope?_of_cons_none {c : Char} {rest : List Char} (h : afterScope? (c :: rest) = none) :
    afterScope? rest = none := by
  cases hrest : afterScope? rest with
  | none => rfl
  | some segment => simp [afterScope?, hrest] at h

/-- Nothing after the last scope has a scope. -/
theorem afterScope?_of_some {cs segment : List Char} (h : afterScope? cs = some segment) :
    afterScope? segment = none := by
  induction cs with
  | nil => cases h
  | cons c rest ih =>
    unfold afterScope? at h
    split at h
    · next hrest =>
      cases h
      exact ih hrest
    · next hrest =>
      split at h
      · cases h
        exact afterScope?_of_cons_none hrest
      · cases h

namespace Imports

variable {names requested rest : List String} {name other segment : String} {i : Imports}

theorem isScoped_lastSegment (h : isScoped name = true) : isScoped (lastSegment name) = false := by
  obtain ⟨segment, hsegment⟩ := Option.isSome_iff_exists.1 h
  rw [lastSegment, hsegment, isScoped, String.toList_ofList, afterScope?_of_some hsegment]
  rfl

/-- The class that is imported for a segment: the first scoped one that ends in it. -/
def importedFor? (requested : List String) (segment : String) : Option String :=
  requested.find? fun name => isScoped name && lastSegment name == segment

theorem importedFor?_spec (h : importedFor? requested segment = some name) :
    isScoped name = true ∧ lastSegment name = segment := by
  simpa using List.find?_some h

theorem importedFor?_append : importedFor? (requested ++ rest) segment =
    (importedFor? requested segment).or (importedFor? rest segment) :=
  List.find?_append

theorem importedFor?_cons_self (h : isScoped name = true) :
    importedFor? (name :: rest) (lastSegment name) = some name := by
  simp [importedFor?, h]

/-- How a class is written in the end. -/
def written (requested : List String) (name : String) : String :=
  if importedFor? requested (lastSegment name) = some name then lastSegment name else name

theorem written_of_not_isScoped (h : isScoped name = false) : written requested name = name :=
  if_neg fun himported => by
    rw [(importedFor?_spec himported).1] at h
    cases h

/-! ### Requests -/

/-- The short names and the imported classes are those of the classes requested so far. -/
structure Tracks (requested : List String) (i : Imports) : Prop where
  short : ∀ segment, findValue? segment i.short = importedFor? requested segment
  classes : ∀ name, name ∈ i.classes ↔ importedFor? requested (lastSegment name) = some name

theorem tracks_empty : Tracks [] .empty where
  short _ := rfl
  classes _ := by simp [empty, importedFor?]

/-- A class that is not imported leaves the imports as they are: it has no scope, or its segment is taken. -/
theorem Tracks.keep (h : Tracks requested i)
    (hname : isScoped name = true → importedFor? requested (lastSegment name) ≠ none) :
    Tracks (requested ++ [name]) i := by
  have hsame : ∀ segment, importedFor? (requested ++ [name]) segment = importedFor? requested segment := by
    intro segment
    rw [importedFor?_append]
    by_cases hsegment : isScoped name = true ∧ lastSegment name = segment
    · obtain ⟨owner, howner⟩ := Option.ne_none_iff_exists'.1 (hname hsegment.1)
      rw [← hsegment.2, howner, Option.some_or]
    · have hnone : importedFor? [name] segment = none := by simpa [importedFor?] using hsegment
      rw [hnone, Option.or_none]
  exact ⟨fun segment => by rw [h.short, hsame], fun name => by rw [h.classes, hsame]⟩

theorem mem_addTo {paths : List String} {path : String} : other ∈ addTo paths path ↔ other ∈ paths ∨ other = path := by
  unfold addTo
  split
  · next hmem => exact ⟨.inl, fun h => h.elim id fun heq => heq ▸ hmem⟩
  · simp

/-- The imports with a class that is written by its last segment from here on. -/
def shorten (i : Imports) (name : String) : Imports :=
  { i.addClass name with short := i.short ++ [(lastSegment name, name)] }

theorem Tracks.shorten (h : Tracks requested i) (hscoped : isScoped name = true)
    (hfree : importedFor? requested (lastSegment name) = none) :
    Tracks (requested ++ [name]) (i.shorten name) := by
  have himported : ∀ segment, importedFor? (requested ++ [name]) segment =
      if segment = lastSegment name then some name else importedFor? requested segment := by
    intro segment
    rw [importedFor?_append]
    split
    · next heq => rw [heq, hfree, importedFor?_cons_self hscoped, Option.none_or]
    · next hne =>
      have hnone : importedFor? [name] segment = none := by simpa [importedFor?] using fun _ => Ne.symm hne
      rw [hnone, Option.or_none]
  constructor
  · intro segment
    have hnew : lastSegment name ∉ i.short.map (·.1) := findValue?_eq_none.1 ((h.short _).trans hfree)
    rw [himported, Imports.shorten, ← putEntry_of_notMem hnew, findValue?_putEntry, h.short]
  · intro other
    have hmem : other ∈ (i.shorten name).classes ↔ other ∈ i.classes ∨ other = name := mem_addTo
    rw [hmem, himported, h.classes]
    split
    · next heq =>
      rw [heq, hfree]
      simp [eq_comm]
    · next hne =>
      refine ⟨fun hother => hother.resolve_right ?_, .inl⟩
      rintro rfl
      exact hne rfl

theorem className_unscoped (h : isScoped name = false) : i.className name = (i, name) := by
  rw [className, if_neg (by simp [h])]

theorem className_taken {owner : String} (hscoped : isScoped name = true)
    (howner : findValue? (lastSegment name) i.short = some owner) :
    i.className name = (i, if owner = name then lastSegment name else name) := by
  simp only [className, hscoped, howner, if_true]

theorem className_free (hscoped : isScoped name = true) (hfree : findValue? (lastSegment name) i.short = none) :
    i.className name = (i.shorten name, lastSegment name) := by
  simp only [className, hscoped, hfree, if_true, Imports.shorten]

/-- What a request answers is how the class is written in the end, whatever is requested later. -/
theorem Tracks.className (h : Tracks requested i) (name : String) :
    Tracks (requested ++ [name]) (i.className name).1 ∧
      ∀ rest, (i.className name).2 = written (requested ++ name :: rest) name := by
  cases hscoped : isScoped name with
  | false =>
    rw [className_unscoped hscoped]
    exact ⟨h.keep (by simp [hscoped]), fun rest => (written_of_not_isScoped hscoped).symm⟩
  | true =>
    cases howner : importedFor? requested (lastSegment name) with
    | none =>
      rw [className_free hscoped ((h.short _).trans howner)]
      refine ⟨h.shorten hscoped howner, fun rest => ?_⟩
      rw [written, importedFor?_append, howner, Option.none_or, if_pos (importedFor?_cons_self hscoped)]
    | some owner =>
      rw [className_taken hscoped ((h.short _).trans howner)]
      refine ⟨h.keep fun _ => by simp [howner], fun rest => ?_⟩
      rw [written, importedFor?_append, howner, Option.some_or]
      simp only [Option.some.injEq]

theorem Tracks.mapM (h : Tracks requested i) (names : List String) :
    ((names.mapM Render.className).run i).1 = names.map (written (requested ++ names)) ∧
      Tracks (requested ++ names) ((names.mapM Render.className).run i).2 := by
  induction names generalizing requested i with
  | nil => exact ⟨rfl, by rwa [List.append_nil]⟩
  | cons name names ih =>
    obtain ⟨hnext, htext⟩ := h.className name
    obtain ⟨htexts, hrest⟩ := ih hnext
    rw [List.append_assoc, List.singleton_append] at htexts hrest
    have hrun : ((name :: names).mapM Render.className).run i =
        ((i.className name).2 :: ((names.mapM Render.className).run (i.className name).1).1,
          ((names.mapM Render.className).run (i.className name).1).2) := by
      rw [List.mapM_cons]
      rfl
    rw [hrun, htexts, List.map_cons, htext names]
    exact ⟨rfl, hrest⟩

/-! ### Ambiguity -/

theorem written_of_imported (h : importedFor? requested segment = some name) : written requested name = segment := by
  obtain ⟨-, rfl⟩ := importedFor?_spec h
  exact if_pos h

/-- Two classes are written alike only if one of them is imported under the name of the other. -/
theorem written_eq_iff : written requested name = written requested other ↔
    name = other ∨ importedFor? requested other = some name ∨ importedFor? requested name = some other := by
  have hunscoped : ∀ {a b}, importedFor? requested a = some b → written requested a = a := by
    intro a b h
    obtain ⟨hscoped, rfl⟩ := importedFor?_spec h
    exact written_of_not_isScoped (isScoped_lastSegment hscoped)
  constructor
  · intro heq
    by_cases hname : importedFor? requested (lastSegment name) = some name <;>
      by_cases hother : importedFor? requested (lastSegment other) = some other
    · rw [written_of_imported hname, written_of_imported hother] at heq
      rw [heq, hother] at hname
      exact .inl (Option.some.inj hname).symm
    · rw [written_of_imported hname, written, if_neg hother] at heq
      exact .inr (.inl (heq ▸ hname))
    · rw [written_of_imported hother, written, if_neg hname] at heq
      exact .inr (.inr (heq ▸ hother))
    · rw [written, written, if_neg hname, if_neg hother] at heq
      exact .inl heq
  · rintro (rfl | h | h)
    · rfl
    · rw [written_of_imported h, hunscoped h]
    · rw [written_of_imported h, hunscoped h]

theorem written_eq_lastSegment_iff (hscoped : isScoped name = true) :
    written requested name = lastSegment name ↔ importedFor? requested (lastSegment name) = some name := by
  unfold written
  split
  · next himported => simp [himported]
  · next hfull =>
    refine ⟨fun heq => ?_, fun h => absurd h hfull⟩
    have hunscoped := isScoped_lastSegment hscoped
    rw [← heq, hscoped] at hunscoped
    cases hunscoped

/-- Requests for two classes are answered alike exactly if the classes are the same or one is imported under
the name of the other, which then has no scope. A scoped class is written by its last segment exactly if it
is imported, and only the class that has this segment as its whole name is written like it. -/
theorem same_text_iff (names : List String) :
    let run := (names.mapM Render.className).run .empty
    let calls := names.zip run.1
    run.1.length = names.length ∧
    (∀ e ∈ calls, ∀ e' ∈ calls, e.2 = e'.2 ↔
      e.1 = e'.1 ∨ importedFor? names e'.1 = some e.1 ∨ importedFor? names e.1 = some e'.1) ∧
    ∀ e ∈ calls, isScoped e.1 = true → (e.2 = lastSegment e.1 ↔ e.1 ∈ run.2.classes) ∧
      (e.2 = lastSegment e.1 → ∀ e' ∈ calls, e'.2 = e.2 → e'.1 = e.1 ∨ e'.1 = lastSegment e.1) := by
  intro run calls
  obtain ⟨htexts, himports⟩ := tracks_empty.mapM names
  rw [List.nil_append] at htexts himports
  have hcalls : ∀ e ∈ calls, e.2 = written names e.1 := by
    intro e he
    have he : e ∈ names.map fun name => (name, written names name) := by
      rw [List.map_prod_left_eq_zip, ← htexts]
      exact he
    obtain ⟨name, -, rfl⟩ := List.mem_map.1 he
    rfl
  refine ⟨by rw [htexts, List.length_map], fun e he e' he' => ?_, fun e he hscoped => ⟨?_, fun _ e' he' heq => ?_⟩⟩
  · rw [hcalls e he, hcalls e' he', written_eq_iff]
  · rw [hcalls e he, written_eq_lastSegment_iff hscoped, himports.classes]
  · rw [hcalls e he, hcalls e' he', written_eq_iff] at heq
    rcases heq with heq | heq | heq
    · exact .inl heq
    · -- The imported class would have `e.1` as its last segment, which has no scope.
      obtain ⟨hscoped', hsegment⟩ := importedFor?_spec heq
      rw [← hsegment, isScoped_lastSegment hscoped'] at hscoped
      cases hscoped
    · exact .inr (importedFor?_spec heq).2.symm

/-- A class without scopes that is in use does not keep another one from being written like it. -/
theorem item_written_twice :
    let run := (["Item", "a::Item"].mapM Render.className).run .empty
    run.1 = ["Item", "Item"] ∧ run.2.classes = ["a::Item"] := by
  decide

end Imports

end Reenact
