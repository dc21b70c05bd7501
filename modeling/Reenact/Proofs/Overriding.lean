import Mathlib
import Reenact.Class.Builtin
import Reenact.Eval.Host
import Reenact.Proofs.Distance
import Reenact.Proofs.Inheritance

/-!
Which host method a call runs. A class that has a method of the name itself overrides its ancestors. Among
ancestors alone it is not the nearest that is taken but the first one in the alphabet, so an override is
passed over where the name of a farther ancestor comes first.
-/

namespace Reenact

theorem head?_mergeSort_eq_some_iff {xs : List String} {x : String} :
    (xs.mergeSort fun a b => decide (a ≤ b)).head? = some x ↔ x ∈ xs ∧ ∀ y ∈ xs, x ≤ y := by
  have hsorted : (xs.mergeSort fun a b => decide (a ≤ b)).Pairwise fun a b => decide (a ≤ b) = true :=
    List.pairwise_mergeSort (fun a b c hab hbc => by simpa using (of_decide_eq_true hab).trans (of_decide_eq_true hbc))
      (fun a b => by simpa using le_total a b) xs
  have hmem : ∀ y, y ∈ xs ↔ y ∈ xs.mergeSort fun a b => decide (a ≤ b) := fun y => List.mem_mergeSort.symm
  simp only [hmem]
  generalize (xs.mergeSort fun a b => decide (a ≤ b)) = ys at hsorted
  cases ys with
  | nil => simp
  | cons y ys =>
    have hfirst : ∀ z ∈ y :: ys, y ≤ z :=
      List.forall_mem_cons.2 ⟨le_rfl, fun z hz => of_decide_eq_true ((List.pairwise_cons.1 hsorted).1 z hz)⟩
    rw [List.head?_cons, Option.some.injEq]
    constructor
    · rintro rfl
      exact ⟨List.mem_cons_self, hfirst⟩
    · exact fun ⟨hx, hle⟩ => le_antisymm (hfirst x hx) (hle y List.mem_cons_self)

namespace Host

variable (h : Host) (types : ClassTable) (className name : String)

/-- The class has a method of the name, its own or inherited, from this owner. -/
def Offers (owner : String) : Prop :=
  (∃ m ∈ h.methods, m.owner = owner ∧ m.name = name) ∧ types.isSubclass className owner

/-- No owner of such a method is nearer to the class. `Object` is infinitely far where no links lead to it. -/
def Nearest (owner : String) : Prop :=
  h.Offers types className name owner ∧ ∀ other, h.Offers types className name other →
    distance types.parents className owner ≤ distance types.parents className other

/-- No owner of such a method comes before it in the alphabet. -/
def First (owner : String) : Prop :=
  h.Offers types className name owner ∧ ∀ other, h.Offers types className name other → owner ≤ other

variable {h types className name}

theorem mem_owners {owner : String} :
    owner ∈ h.owners types className name ↔ h.Offers types className name owner := by
  simp only [owners, List.mem_map, List.mem_filter, Bool.and_eq_true, beq_iff_eq, Offers]
  constructor
  · rintro ⟨m, ⟨hm, hname, hsub⟩, rfl⟩
    exact ⟨⟨m, hm, rfl, hname⟩, hsub⟩
  · rintro ⟨⟨m, hm, rfl, hname⟩, hsub⟩
    exact ⟨m, ⟨hm, hname, hsub⟩, rfl⟩

/-- Only `Object` offers its methods without links that lead to it. -/
theorem Offers.distance_ne_top {owner : String} (ho : h.Offers types className name owner)
    (hobject : owner ≠ "Object") : distance types.parents className owner ≠ ⊤ := by
  rw [Reenact.distance_ne_top]
  rcases ClassTable.isSubclass_iff.1 ho.2 with rfl | rfl | hleads
  · exact .refl
  · exact (hobject rfl).elim
  · exact hleads

theorem nearest_self (hself : h.Offers types className name className) :
    h.Nearest types className name className :=
  ⟨hself, fun _ _ => distance_self.trans_le bot_le⟩

theorem resolve?_eq_some_iff {args : List Ty} {owner : String} :
    h.resolve? types (.named className args) name = some owner ↔
      (h.Offers types className name className ∧ owner = className) ∨
        (¬ h.Offers types className name className ∧ h.First types className name owner) := by
  unfold resolve? First
  simp only [Ty.className?, ← mem_owners]
  split
  · next hself => simp [hself, eq_comm]
  · next hself => simp [hself, head?_mergeSort_eq_some_iff]

theorem resolve?_eq_none_iff {args : List Ty} :
    h.resolve? types (.named className args) name = none ↔ ∀ owner, ¬ h.Offers types className name owner := by
  unfold resolve?
  simp only [Ty.className?, ← mem_owners]
  split
  · next hself => simpa using ⟨className, hself⟩
  · rw [List.head?_eq_none_iff, ← List.length_eq_zero_iff, List.length_mergeSort, List.length_eq_zero_iff,
      List.eq_nil_iff_forall_not_mem]

/-- A call runs a method iff the class has one of the name, and that of the class itself first. Failing that
it runs the method of the first owner, which need not be the nearest. -/
theorem resolves_nearest_iff (h : Host) (types : ClassTable) (className name : String) (args : List Ty) :
    (h.resolve? types (.named className args) name = none ↔
        ∀ owner, ¬ h.Offers types className name owner) ∧
      (∀ owner, h.resolve? types (.named className args) name = some owner ↔
        (h.Offers types className name className ∧ owner = className) ∨
          (¬ h.Offers types className name className ∧ h.First types className name owner)) ∧
      ((∀ owner, h.resolve? types (.named className args) name = some owner →
          h.Nearest types className name owner) ↔
        h.Offers types className name className ∨
          ∀ owner, h.First types className name owner → h.Nearest types className name owner) := by
  refine ⟨resolve?_eq_none_iff, fun _ => resolve?_eq_some_iff, ?_⟩
  simp only [resolve?_eq_some_iff]
  by_cases hself : h.Offers types className name className
  · refine iff_of_true (fun owner howner => ?_) (.inl hself)
    obtain ⟨-, rfl⟩ | ⟨hnot, -⟩ := howner
    · exact nearest_self hself
    · exact (hnot hself).elim
  · simp [hself]

/-- Crows are birds, birds are animals. -/
def birds : ClassTable :=
  ClassTable.empty.registerAll
    [.concrete "Animal", (ClassDef.concrete "Bird").withSuperclass "Animal",
      (ClassDef.concrete "Crow").withSuperclass "Bird"]

/-- Every animal can speak, a bird in its own way. -/
def speaking : Host := (empty.add ⟨"Animal", "speak", [.receiver]⟩).add ⟨"Bird", "speak", [.arg 0]⟩

theorem farther_method_resolved :
    speaking.resolve? birds (.ofClass "Crow") "speak" = some "Animal" ∧
      speaking.Offers birds "Crow" "speak" "Bird" ∧
      distance birds.parents "Crow" "Bird" < distance birds.parents "Crow" "Animal" := by
  have howners : speaking.owners birds "Crow" "speak" = ["Animal", "Bird"] := by decide +kernel
  refine ⟨resolve?_eq_some_iff.2 (.inr ?_), ?_, ?_⟩
  · simp only [First, ← mem_owners, howners]
    decide
  · rw [← mem_owners, howners]
    decide
  · exact (distance_le_one (by decide +kernel)).trans_lt (one_lt_distance (by decide) (by decide +kernel))

end Host

end Reenact
