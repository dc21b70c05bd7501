import Mathlib
import Reenact.Proofs.GeneratedTest
import Reenact.Proofs.Numbering

/-!
Names of generated tests. A generator numbers the tests of each method as the locals of a stem are numbered,
so two names coincide exactly where the tests of one method are many enough to reach the number that another
method ends in.
-/

namespace Reenact

def TestUnit.method (u : TestUnit) : String := u.signature.method

namespace TestGenerator

/-- What is asked of a generator: a test, a test that it is to keep, or all those that it keeps. -/
inductive Request where
  | generate (s : Snapshot)
  | collect (s : Snapshot)
  | take

/-- Serves a request and gives the tests that are handed out. -/
def serve (g : TestGenerator) : Request → TestGenerator × List TestUnit
  | .generate s => ((g.generate s).1, (g.generate s).2.toOption.toList)
  | .collect s => ((g.accept s).1, [])
  | .take => g.takeUnits

/-- Every test that comes about over some requests, whether it is handed out or kept to the end. -/
def produced (g : TestGenerator) : List Request → List TestUnit
  | [] => g.units
  | r :: rest => (g.serve r).2 ++ (g.serve r).1.produced rest

/-- How many tests each method has got, as numbers that are given to stems. -/
def numbers (g : TestGenerator) : LocalNames := ⟨g.counts⟩

/-- Tests that take the next numbers of their methods, one after the other. -/
inductive Numbered : LocalNames → List TestUnit → LocalNames → Prop where
  | nil {names} : Numbered names [] names
  | cons {names names' u us} : u.name = "test_" ++ (names.fresh u.method).2 →
      Numbered (names.fresh u.method).1 us names' → Numbered names (u :: us) names'

theorem Numbered.append {names names' names'' : LocalNames} {us us' : List TestUnit}
    (h : Numbered names us names') (h' : Numbered names' us' names'') : Numbered names (us ++ us') names'' := by
  induction h with
  | nil => exact h'
  | cons hname _ ih => exact .cons hname (ih h')

/-- The tests of some methods are named as their methods would be if they were stems of locals. -/
theorem Numbered.names {names names' : LocalNames} {us : List TestUnit} (h : Numbered names us names') :
    us.map TestUnit.name = (names.given (us.map fun u => .stem u.method)).map ("test_" ++ ·) := by
  induction h with
  | nil => rfl
  | cons hname _ ih =>
    rw [List.map_cons, List.map_cons, LocalNames.given, List.map_cons, hname, ih]
    rfl

/-- A test that comes about takes a number; where none comes about, no number is taken. -/
theorem generate_numbered (g : TestGenerator) (s : Snapshot) :
    (g.generate s).1.units = g.units ∧
      Numbered g.numbers (g.generate s).2.toOption.toList (g.generate s).1.numbers := by
  unfold generate
  cases hdraft : g.draft s with
  | error e => exact ⟨rfl, .nil⟩
  | ok make =>
    obtain ⟨_, _, built, acts, state, -, -, -, rfl⟩ := draft_ok hdraft
    refine ⟨rfl, .cons ?_ .nil⟩
    rw [LocalNames.fresh_eq, ← String.append_assoc]
    rfl

/-- What is to be kept is generated and put behind the tests that are kept already. -/
theorem accept_fst (g : TestGenerator) (s : Snapshot) :
    (g.accept s).1 =
      { (g.generate s).1 with units := (g.generate s).1.units ++ (g.generate s).2.toOption.toList } := by
  unfold accept
  obtain ⟨g', answer⟩ := g.generate s
  cases answer with
  | error e => simp [Except.toOption]
  | ok unit => rfl

theorem serve_produces (g : TestGenerator) (r : Request) : ∃ new,
    ((g.serve r).2 ++ (g.serve r).1.units).Perm (g.units ++ new) ∧
      Numbered g.numbers new (g.serve r).1.numbers := by
  cases r with
  | generate s =>
    obtain ⟨hunits, hnumbered⟩ := generate_numbered g s
    refine ⟨_, ?_, hnumbered⟩
    rw [serve, hunits]
    exact List.perm_append_comm
  | collect s =>
    obtain ⟨hunits, hnumbered⟩ := generate_numbered g s
    refine ⟨(g.generate s).2.toOption.toList, ?_, ?_⟩
    · rw [serve, accept_fst, hunits, List.nil_append]
    · rw [serve, accept_fst]
      exact hnumbered
  | take => exact ⟨[], by simp [serve, takeUnits], .nil⟩

/-- Over a run the tests that come about are those kept before and others that are numbered on. -/
theorem produced_numbered (g : TestGenerator) (requests : List Request) : ∃ new names,
    (g.produced requests).Perm (g.units ++ new) ∧ Numbered g.numbers new names := by
  induction requests generalizing g with
  | nil => exact ⟨[], _, by simp [produced], .nil⟩
  | cons r rest ih =>
    obtain ⟨now, hnow, hnumbered⟩ := serve_produces g r
    obtain ⟨later, names, hlater, hnumbered'⟩ := ih (g.serve r).1
    refine ⟨now ++ later, names, ?_, hnumbered.append hnumbered'⟩
    have hkept : ((g.serve r).2 ++ (g.serve r).1.produced rest).Perm
        (((g.serve r).2 ++ (g.serve r).1.units) ++ later) := by
      rw [List.append_assoc]
      exact hlater.append_left _
    rw [produced, ← List.append_assoc]
    exact hkept.trans (hnow.append_right later)

/-- The tests of one generator have distinct names exactly if, wherever a method that has tests is another
one's name with a number behind it, that other method has at most ten times that number of tests. -/
theorem names_nodup_iff (types : ClassTable) (setup : SetupRegistry) (matchers : MatcherRegistry)
    (requests : List Request) :
    let units := (new types setup matchers).produced requests
    (units.map TestUnit.name).Nodup ↔
      ∀ method d, 0 < d → method ++ toString d ∈ units.map TestUnit.method →
        (units.map TestUnit.method).count method ≤ 10 * d := by
  intro units
  obtain ⟨us, names, hperm, hnumbered⟩ : ∃ us names, units.Perm us ∧ Numbered .empty us names :=
    produced_numbered (new types setup matchers) requests
  have hgiven := LocalNames.given_eq_numbered (us.map fun u => .stem u.method)
  rw [List.map_map] at hgiven
  have hnames : us.map TestUnit.name = (numbered (us.map TestUnit.method)).map ("test_" ++ ·) := by
    rw [hnumbered.names, hgiven]
    rfl
  have hprefix : Function.Injective fun name => "test_" ++ name := fun _ _ heq => by simpa using heq
  have hmethods := hperm.map TestUnit.method
  rw [(hperm.map TestUnit.name).nodup_iff, hnames, List.nodup_map_iff hprefix, nodup_numbered_iff]
  simp only [hmethods.count_eq, hmethods.mem_iff]

/-- The snapshot of a call without receiver and arguments that returns nothing. -/
def calledOnce (method : String) : Snapshot :=
  { Snapshot.new ⟨.ofClass "List", method, [], .void⟩ .empty with outcome := .returned none }

/-- The eleventh test of adding and the first one of the method with a one behind its name. -/
theorem eleventh_test_named_twice :
    ¬ (((new .builtin Reconstruction.standard Verification.standard).produced
      (List.replicate 11 (.collect (calledOnce "add")) ++ [.collect (calledOnce "add1")])).map
        TestUnit.name).Nodup := by
  decide +kernel

end TestGenerator

end Reenact
