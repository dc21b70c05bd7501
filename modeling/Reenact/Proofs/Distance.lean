import Mathlib
import Reenact.Proofs.Search

/-!
How far one node is from another: the least number of steps along the successor function, which is infinite
if no steps lead there. The search visits the nearest nodes first.
-/

namespace Reenact

variable {α : Type}

/-- So many steps along the successor function lead from one node to another. -/
inductive LeadsIn (next : α → List α) (a : α) : ℕ → α → Prop where
  | refl : LeadsIn next a 0 a
  | tail {n b c} : LeadsIn next a n b → c ∈ next b → LeadsIn next a (n + 1) c

noncomputable def distance (next : α → List α) (a b : α) : ℕ∞ := ⨅ n : {n // LeadsIn next a n b}, (n : ℕ∞)

variable {next : α → List α} {a b : α} {n : ℕ}

theorem leads_iff_exists : Leads next a b ↔ ∃ n, LeadsIn next a n b := by
  constructor
  · intro h
    induction h with
    | refl => exact ⟨0, .refl⟩
    | tail _ hstep ih =>
      obtain ⟨n, hn⟩ := ih
      exact ⟨n + 1, hn.tail hstep⟩
  · rintro ⟨n, h⟩
    induction h with
    | refl => exact .refl
    | tail _ hstep ih => exact ih.tail hstep

theorem distance_le (h : LeadsIn next a n b) : distance next a b ≤ n :=
  iInf_le (fun n : {n // LeadsIn next a n b} => (n : ℕ∞)) ⟨n, h⟩

theorem le_distance {m : ℕ∞} (h : ∀ n, LeadsIn next a n b → m ≤ n) : m ≤ distance next a b :=
  le_iInf fun n => h n n.2

theorem distance_self : distance next a a = 0 := nonpos_iff_eq_zero.1 (distance_le .refl)

theorem distance_ne_top : distance next a b ≠ ⊤ ↔ Leads next a b := by
  rw [distance, ENat.iInf_natCast_ne_top, leads_iff_exists, nonempty_subtype]

theorem LeadsIn.mono {next' : α → List α} (hnext : ∀ a, next a ⊆ next' a) (h : LeadsIn next a n b) :
    LeadsIn next' a n b := by
  induction h with
  | refl => exact .refl
  | tail _ hstep ih => exact ih.tail (hnext _ hstep)

/-- The order in which successors are listed does not matter. -/
theorem distance_congr {next' : α → List α} (hnext : ∀ a b, b ∈ next a ↔ b ∈ next' a) :
    distance next a b = distance next' a b := by
  refine le_antisymm (le_distance fun n hn => ?_) (le_distance fun n hn => ?_)
  · exact distance_le (hn.mono fun a b hb => (hnext a b).2 hb)
  · exact distance_le (hn.mono fun a b hb => (hnext a b).1 hb)

theorem distance_le_iff : distance next a b ≤ n ↔ ∃ m ≤ n, LeadsIn next a m b := by
  constructor
  · intro hle
    have hfinite : distance next a b ≠ ⊤ := ne_top_of_le_ne_top (ENat.natCast_ne_top n) hle
    obtain ⟨m, hm⟩ := leads_iff_exists.1 (distance_ne_top.1 hfinite)
    have : Nonempty {n // LeadsIn next a n b} := ⟨⟨m, hm⟩⟩
    -- the least number of steps is a number of steps
    obtain ⟨⟨k, hk⟩, heq⟩ := ciInf_mem fun n : {n // LeadsIn next a n b} => (n : ℕ∞)
    have hkn : (k : ℕ∞) ≤ n := heq.trans_le hle
    exact ⟨k, by exact_mod_cast hkn, hk⟩
  · rintro ⟨m, hmn, hm⟩
    exact (distance_le hm).trans (by exact_mod_cast hmn)

theorem distance_le_zero : distance next a b ≤ (0 : ℕ) ↔ b = a := by
  rw [distance_le_iff]
  constructor
  · rintro ⟨m, hm, hlead⟩
    obtain rfl := Nat.le_zero.1 hm
    cases hlead
    rfl
  · rintro rfl
    exact ⟨0, le_rfl, .refl⟩

theorem distance_le_succ {c : α} : distance next a c ≤ (n + 1 : ℕ) ↔
    distance next a c ≤ n ∨ ∃ b, distance next a b ≤ n ∧ c ∈ next b := by
  simp only [distance_le_iff]
  constructor
  · rintro ⟨m, hm, hlead⟩
    cases hlead with
    | refl => exact .inl ⟨0, Nat.zero_le n, .refl⟩
    | tail hlead hstep => exact .inr ⟨_, ⟨_, Nat.le_of_succ_le_succ hm, hlead⟩, hstep⟩
  · rintro (⟨m, hm, hlead⟩ | ⟨b, ⟨m, hm, hlead⟩, hstep⟩)
    · exact ⟨m, Nat.le_succ_of_le hm, hlead⟩
    · exact ⟨m + 1, Nat.succ_le_succ hm, hlead.tail hstep⟩

theorem distance_le_one_iff : distance next a b ≤ 1 ↔ b = a ∨ b ∈ next a := by
  have hsucc := @distance_le_succ α next a 0 b
  simpa only [Nat.zero_add, Nat.cast_one, distance_le_zero, exists_eq_left] using hsucc

theorem distance_le_one (h : b ∈ next a) : distance next a b ≤ 1 := distance_le_one_iff.2 (.inr h)

theorem one_lt_distance (hne : a ≠ b) (h : b ∉ next a) : 1 < distance next a b :=
  not_le.1 fun hle => (distance_le_one_iff.1 hle).elim (fun heq => hne heq.symm) h

/-! ### The order of the search -/

section

variable {start : α} {visited frontier : List α}

/-- The search after so many rounds: it has visited what is no more steps away, the nearest first, and its
frontier is what is exactly so many steps away. -/
structure Levelled (next : α → List α) (start : α) (n : ℕ) (visited frontier : List α) : Prop where
  mem_visited : ∀ a, a ∈ visited ↔ distance next start a ≤ n
  mem_frontier : ∀ a, a ∈ frontier ↔ distance next start a = n
  sorted : visited.Pairwise fun a b => distance next start a ≤ distance next start b

theorem levelled_start (next : α → List α) (start : α) : Levelled next start 0 [start] [start] where
  mem_visited a := by rw [distance_le_zero, List.mem_singleton]
  mem_frontier a := by
    rw [Nat.cast_zero, ← nonpos_iff_eq_zero, List.mem_singleton]
    exact distance_le_zero.symm
  sorted := List.pairwise_singleton _ _

variable [DecidableEq α]

theorem Levelled.mem_nextFrontier (h : Levelled next start n visited frontier) :
    a ∈ nextFrontier next visited frontier ↔ distance next start a = (n + 1 : ℕ) := by
  rw [Reenact.mem_nextFrontier, h.mem_visited, not_le]
  constructor
  · rintro ⟨⟨b, hb, hstep⟩, hfar⟩
    have hnear : distance next start a ≤ (n + 1 : ℕ) :=
      distance_le_succ.2 (.inr ⟨b, ((h.mem_frontier b).1 hb).le, hstep⟩)
    exact le_antisymm hnear (by exact_mod_cast Order.add_one_le_of_lt hfar)
  · intro heq
    have hfar : (n : ℕ∞) < distance next start a := by
      rw [heq]
      exact_mod_cast Nat.lt_succ_self n
    obtain hnear | ⟨b, hb, hstep⟩ := distance_le_succ.1 heq.le
    · exact (hfar.not_ge hnear).elim
    refine ⟨⟨b, (h.mem_frontier b).2 (le_antisymm hb (not_lt.1 fun hlt => ?_)), hstep⟩, hfar⟩
    -- a nearer `b` would make `a` nearer than the next frontier
    cases n with
    | zero => simp at hlt
    | succ n =>
      have hless : distance next start b ≤ n := by
        rw [Nat.cast_succ] at hlt
        exact Order.le_of_lt_add_one hlt
      exact hfar.not_ge (distance_le_succ.2 (.inr ⟨b, hless, hstep⟩))

theorem Levelled.advance (h : Levelled next start n visited frontier) :
    Levelled next start (n + 1) (visited ++ nextFrontier next visited frontier)
      (nextFrontier next visited frontier) where
  mem_visited a := by
    rw [List.mem_append, h.mem_visited, h.mem_nextFrontier]
    constructor
    · rintro (hle | heq)
      · exact hle.trans (by exact_mod_cast Nat.le_succ n)
      · exact heq.le
    · intro hle
      refine or_iff_not_imp_left.2 fun hfar => le_antisymm hle ?_
      exact_mod_cast Order.add_one_le_of_lt (not_le.1 hfar)
  mem_frontier a := h.mem_nextFrontier
  sorted := by
    have hlevel : ∀ a ∈ nextFrontier next visited frontier, distance next start a = (n + 1 : ℕ) :=
      fun a ha => h.mem_nextFrontier.1 ha
    refine List.pairwise_append.2 ⟨h.sorted, ?_, fun a ha b hb => ?_⟩
    · exact List.pairwise_of_forall_mem_list fun a ha b hb => by rw [hlevel a ha, hlevel b hb]
    · calc distance next start a ≤ n := (h.mem_visited a).1 ha
        _ ≤ (n + 1 : ℕ) := by exact_mod_cast Nat.le_succ n
        _ = distance next start b := (hlevel b hb).symm

theorem Levelled.searchFrom (h : Levelled next start n visited frontier) (rounds : ℕ) :
    (searchFrom next rounds visited frontier).Pairwise fun a b =>
      distance next start a ≤ distance next start b := by
  induction rounds generalizing n visited frontier with
  | zero => exact h.sorted
  | succ rounds ih =>
    unfold Reenact.searchFrom
    split
    · exact h.sorted
    · exact ih h.advance

/-- No node is visited before a nearer one. -/
theorem pairwise_search (next : α → List α) (rounds : ℕ) (start : α) :
    (search next rounds start).Pairwise fun a b => distance next start a ≤ distance next start b :=
  (levelled_start next start).searchFrom (rounds + 1)

/-- The first node of some kind that the search visits is a nearest one. -/
theorem distance_le_of_find?_search {rounds : ℕ} {p : α → Bool}
    (hfound : (search next rounds start).find? p = some a) (hb : b ∈ search next rounds start) (hp : p b) :
    distance next start a ≤ distance next start b := by
  obtain ⟨-, before, after, heq, hbefore⟩ := List.find?_eq_some_iff_append.1 hfound
  have hsorted := pairwise_search next rounds start
  rw [heq] at hb hsorted
  rcases List.mem_append.1 hb with hb | hb
  · exact absurd hp (by simpa using hbefore b hb)
  · rcases List.mem_cons.1 hb with rfl | hb
    · exact le_rfl
    · exact (List.pairwise_cons.1 (List.pairwise_append.1 hsorted).2.1).1 b hb

end

end Reenact
