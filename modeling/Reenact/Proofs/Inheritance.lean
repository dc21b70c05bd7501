import Mathlib
import Reenact.Class.Inheritance
import Reenact.Proofs.Search

/-!
Subclassing as steps along parent links, and the ancestor that code names in place of a hidden class.
-/

namespace Reenact.ClassTable

variable {t : ClassTable}

theorem name_of_get? {name : String} {d : ClassDef} (hd : t.get? name = some d) : d.name = name := by
  simpa using List.find?_some hd

def registeredNames (t : ClassTable) : Finset String := (t.classes.map ClassDef.name).toFinset

theorem mem_registeredNames {name : String} {d : ClassDef} (hd : t.get? name = some d) :
    name ∈ t.registeredNames := by
  rw [registeredNames, List.mem_toFinset]
  exact List.mem_map.2 ⟨d, List.mem_of_find?_eq_some hd, name_of_get? hd⟩

theorem card_registeredNames_le (t : ClassTable) : t.registeredNames.card ≤ t.size :=
  (List.toFinset_card_le _).trans_eq (List.length_map _)

/-- A search along links that only registered classes have visits all that the links lead to. -/
theorem mem_search_links {next : String → List String} (hnext : ∀ name, next name ≠ [] → t.contains name = true)
    {a b : String} : b ∈ search next t.size a ↔ Leads next a b := by
  refine mem_search t.registeredNames (fun name hne => ?_) t.card_registeredNames_le
  obtain ⟨d, hd⟩ := Option.isSome_iff_exists.1 (hnext name hne)
  exact mem_registeredNames hd

theorem parents_of_get?_none {name : String} (hnone : t.get? name = none) : t.parents name = [] := by
  simp [parents, hnone]

theorem contains_of_parents {name : String} (hne : t.parents name ≠ []) : t.contains name = true := by
  cases hd : t.get? name with
  | none => exact (hne (parents_of_get?_none hd)).elim
  | some d => simp [contains, hd]

theorem isSubclass_iff {lower upper : String} :
    t.isSubclass lower upper = true ↔
      lower = upper ∨ upper = "Object" ∨ Leads t.parents lower upper := by
  have hsearch := mem_search_links (t := t) (a := lower) (b := upper) fun name => contains_of_parents
  unfold isSubclass
  simp only [Bool.or_eq_true, beq_iff_eq, List.contains_iff_mem, hsearch, or_assoc]

theorem mem_standIns {name parent : String} : parent ∈ t.standIns name ↔ parent ∈ t.parents name := by
  unfold standIns parents
  cases t.get? name with
  | none => exact Iff.rfl
  | some d => simp [ClassDef.parents, or_comm]

theorem leads_standIns {a b : String} : Leads t.standIns a b ↔ Leads t.parents a b :=
  ⟨Relation.ReflTransGen.mono (fun _ _ => mem_standIns.1) _ _,
    Relation.ReflTransGen.mono (fun _ _ => mem_standIns.2) _ _⟩

theorem isAssignable_self (t : ClassTable) (a : Ty) : t.isAssignable a a = true := by
  unfold isAssignable
  simp

/-- Whatever code names in place of a type may hold its values. -/
theorem isAssignable_publicSupertype (t : ClassTable) (type : Ty) :
    t.isAssignable type (t.publicSupertype type) = true := by
  have hself := t.isAssignable_self type
  cases type with
  | void | primitive | array => exact hself
  | named name args =>
    unfold publicSupertype
    dsimp only
    split
    · split
      · next c found =>
        have hlead : Leads t.parents name c := leads_standIns.1 (search_sound (List.mem_of_find?_eq_some found))
        have hsub : t.isSubclass name c = true := isSubclass_iff.2 (.inr (.inr hlead))
        simp [isAssignable, classFits, hsub]
      · simp [isAssignable, classFits, Ty.object, Ty.ofClass]
    · exact hself

end Reenact.ClassTable
