import Mathlib
import Reenact.Class.Builtin
import Reenact.Proofs.Inheritance

/-!
What holds of the built-in classes in every table that has them, whatever other classes it has.
-/

namespace Reenact

namespace WrapperKind

theorem mem_all (kind : WrapperKind) : kind ∈ all := by cases kind <;> decide

end WrapperKind

namespace ClassTable

variable {t : ClassTable}

/-- The table has the built-in classes, each as it is. -/
def ExtendsBuiltin (t : ClassTable) : Prop := ∀ d ∈ builtin.classes, t.get? d.name = some d

instance (t : ClassTable) : Decidable t.ExtendsBuiltin :=
  inferInstanceAs (Decidable (∀ d ∈ builtin.classes, _))

theorem builtin_extendsBuiltin : builtin.ExtendsBuiltin := by decide +kernel

namespace ExtendsBuiltin

variable (ht : t.ExtendsBuiltin)
include ht

theorem get? {name : String} {d : ClassDef} (hd : builtin.get? name = some d) :
    t.get? name = some d := by
  rw [← name_of_get? hd]
  exact ht d (List.mem_of_find?_eq_some hd)

theorem parents {name : String} (hname : builtin.contains name) :
    t.parents name = builtin.parents name := by
  obtain ⟨d, hd⟩ := Option.isSome_iff_exists.1 hname
  simp [ClassTable.parents, hd, ht.get? hd]

omit ht in
private theorem contains_parent {name parent : String} (hname : builtin.contains name)
    (hparent : parent ∈ builtin.parents name) : builtin.contains parent := by
  obtain ⟨d, hd⟩ := Option.isSome_iff_exists.1 hname
  have hclosed : ∀ d ∈ builtin.classes, ∀ p ∈ d.parents, builtin.contains p := by decide +kernel
  refine hclosed d (List.mem_of_find?_eq_some hd) parent ?_
  simpa [ClassTable.parents, hd] using hparent

/-- Parent links never lead from a built-in class to any other. -/
theorem leads_iff {lower upper : String} (hlower : builtin.contains lower) :
    Leads t.parents lower upper ↔ Leads builtin.parents lower upper := by
  have hboth : ∀ {s u : ClassTable}, (∀ name, builtin.contains name → s.parents name = u.parents name) →
      (∀ name, builtin.contains name → s.parents name = builtin.parents name) →
      Leads s.parents lower upper → Leads u.parents lower upper ∧ builtin.contains upper := by
    intro s u hsu hs hlead
    induction hlead with
    | refl => exact ⟨.refl, hlower⟩
    | tail _ hstep ih =>
      obtain ⟨hlead', hmid⟩ := ih
      exact ⟨hlead'.tail (hsu _ hmid ▸ hstep), contains_parent hmid (hs _ hmid ▸ hstep)⟩
  constructor
  · exact fun h => (hboth (fun _ hn => ht.parents hn) (fun _ hn => ht.parents hn) h).1
  · exact fun h => (hboth (fun _ hn => (ht.parents hn).symm) (fun _ _ => rfl) h).1

theorem isSubclass {lower upper : String} (hlower : builtin.contains lower) :
    t.isSubclass lower upper = builtin.isSubclass lower upper := by
  rw [Bool.eq_iff_iff, isSubclass_iff, isSubclass_iff, ht.leads_iff hlower]

/-! ### Wrapper classes -/

section

variable (kind : WrapperKind)

omit ht in
private theorem wrapper_facts : ∀ kind ∈ WrapperKind.all, ∀ collection ∈ ["List", "Set"],
    builtin.contains (kind.className collection) ∧
      builtin.isHidden (kind.className collection) ∧
      builtin.standIns (kind.className collection) = [collection, "Object"] ∧
      builtin.isSubclass (kind.className collection) collection ∧
      (collection = "Set" → builtin.isSubclass (kind.className collection) "List" = false) := by
  decide +kernel

variable {collection : String} (hcollection : collection ∈ ["List", "Set"])
include hcollection

theorem isHidden_wrapper : t.isHidden (kind.className collection) = true := by
  obtain ⟨hcontains, hhidden, _⟩ := wrapper_facts kind kind.mem_all collection hcollection
  obtain ⟨d, hd⟩ := Option.isSome_iff_exists.1 hcontains
  simpa [isHidden, hd, ht.get? hd] using hhidden

theorem isSubclass_wrapper {upper : String} :
    t.isSubclass (kind.className collection) upper =
      builtin.isSubclass (kind.className collection) upper :=
  ht.isSubclass (wrapper_facts kind kind.mem_all collection hcollection).1

theorem isSubclass_wrapper_self : t.isSubclass (kind.className collection) collection = true := by
  rw [ht.isSubclass_wrapper kind hcollection]
  exact (wrapper_facts kind kind.mem_all collection hcollection).2.2.2.1

/-- Code can name the collection that a wrapper is one of, and nothing nearer. -/
theorem publicSupertype_wrapper (args : List Ty) :
    t.publicSupertype (.named (kind.className collection) args) = .named collection args := by
  obtain ⟨hcontains, _, hstandIns, _⟩ := wrapper_facts kind kind.mem_all collection hcollection
  obtain ⟨d, hd⟩ := Option.isSome_iff_exists.1 hcontains
  have hhidden := ht.isHidden_wrapper kind hcollection
  have hnext : t.standIns (kind.className collection) = [collection, "Object"] := by
    simpa [standIns, hd, ht.get? hd] using hstandIns
  have hpublic : ∀ c ∈ ["List", "Set"], builtin.isHidden c = false ∧ builtin.contains c := by
    decide +kernel
  obtain ⟨hvisible, hknown⟩ := hpublic collection hcollection
  obtain ⟨d', hd'⟩ := Option.isSome_iff_exists.1 hknown
  have hvisible' : t.isHidden collection = false := by
    simpa [isHidden, hd', ht.get? hd'] using hvisible
  have hknown' : t.contains collection = true := by simp [contains, ht.get? hd']
  have hfrontier : nextFrontier t.standIns [kind.className collection] [kind.className collection] =
      [collection, "Object"] := by
    unfold nextFrontier
    rw [List.flatMap_singleton, hnext]
    have hdistinct : ∀ c ∈ ["List", "Set"], ∀ k ∈ WrapperKind.all,
        ([c, "Object"].filter (· ∉ [k.className c])).eraseDups = [c, "Object"] := by
      decide +kernel
    exact hdistinct collection hcollection kind kind.mem_all
  obtain ⟨rest, hrest⟩ := @prefix_search _ _ t.standIns t.size (kind.className collection)
  rw [hfrontier] at hrest
  simp [publicSupertype, hhidden, ← hrest, hvisible', hknown']

end

omit ht in
theorem isInstantiable_of_isHidden {name : String} (h : t.isHidden name = true) :
    t.isInstantiable name = false := by
  unfold isHidden at h
  unfold isInstantiable
  split at h <;> simp_all

/-- The payload of a wrapper list is built as an `ArrayList`. -/
theorem defaultImplementation_wrapper_list (kind : WrapperKind) (args : List Ty) :
    t.defaultImplementation (.named (kind.className "List") args) = .named "ArrayList" args := by
  have hhidden := isInstantiable_of_isHidden (@isHidden_wrapper t ht kind "List" (by simp))
  have hlist := @isSubclass_wrapper_self t ht kind "List" (by simp)
  simp [defaultImplementation, hhidden, hlist]

/-- The payload of a wrapper set is built as a `LinkedHashSet`. -/
theorem defaultImplementation_wrapper_set (kind : WrapperKind) (args : List Ty) :
    t.defaultImplementation (.named (kind.className "Set") args) = .named "LinkedHashSet" args := by
  have hhidden := isInstantiable_of_isHidden (@isHidden_wrapper t ht kind "Set" (by simp))
  have hset := @isSubclass_wrapper_self t ht kind "Set" (by simp)
  have hlist : t.isSubclass (kind.className "Set") "List" = false := by
    rw [ht.isSubclass_wrapper kind (by simp)]
    exact (wrapper_facts kind kind.mem_all "Set" (by simp)).2.2.2.2 rfl
  simp [defaultImplementation, hhidden, hlist, hset]

theorem isList_arrayList (args : List Ty) : t.isList (.named "ArrayList" args) = true := by
  have h : builtin.isSubclass "ArrayList" "List" = true := by decide +kernel
  simpa [isList, isSubtypeOf, Ty.className?, @isSubclass t ht "ArrayList" "List" (by decide +kernel)]

theorem isSet_linkedHashSet (args : List Ty) :
    t.isList (.named "LinkedHashSet" args) = false ∧ t.isSet (.named "LinkedHashSet" args) = true := by
  have h : builtin.isSubclass "LinkedHashSet" "List" = false ∧
      builtin.isSubclass "LinkedHashSet" "Set" = true := by decide +kernel
  have hknown : builtin.contains "LinkedHashSet" = true := by decide +kernel
  simpa [isList, isSet, isSubtypeOf, Ty.className?, ht.isSubclass hknown]

end ExtendsBuiltin

end ClassTable

end Reenact
