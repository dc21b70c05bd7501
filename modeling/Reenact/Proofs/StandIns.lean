import Mathlib
import Reenact.Class.Builtin
import Reenact.Proofs.Distance
import Reenact.Proofs.Inheritance

/-!
The ancestor that stands in for a class that code cannot name. The search for it takes interfaces first and
subclassing takes the superclass first, but both follow the same links; so the ancestor that is found is a
nearest one, and it can hold whatever the hidden class can.
-/

namespace Reenact.ClassTable

variable {t : ClassTable} {name c : String} {args : List Ty}

theorem mem_search_standIns : c ∈ search t.standIns t.size name ↔ Leads t.parents name c := by
  rw [← leads_standIns]
  refine mem_search_links fun name hne => contains_of_parents fun hnone => ?_
  obtain ⟨parent, hparent⟩ := List.exists_mem_of_ne_nil _ hne
  rw [mem_standIns, hnone] at hparent
  exact List.not_mem_nil hparent

/-- An ancestor of the class that code can name: it is registered and not hidden. -/
structure Nameable (t : ClassTable) (name c : String) : Prop where
  ancestor : Leads t.parents name c
  registered : t.contains c = true
  visible : t.isHidden c = false

theorem publicSupertype_visible {type : Ty} (hvisible : type.className?.any t.isHidden = false) :
    t.publicSupertype type = type := by
  cases type with
  | named name args =>
    have hname : t.isHidden name = false := hvisible
    simp [publicSupertype, hname]
  | _ => rfl

theorem publicSupertype_hidden (hname : t.isHidden name = true) :
    (∃ c, t.Nameable name c ∧
        (∀ c', t.Nameable name c' → distance t.parents name c ≤ distance t.parents name c') ∧
        t.publicSupertype (.named name args) = .named c args) ∨
      ((∀ c, ¬ t.Nameable name c) ∧ t.publicSupertype (.named name args) = .object) := by
  have hmem : ∀ {c}, t.Nameable name c →
      c ∈ search t.standIns t.size name ∧ (!t.isHidden c && t.contains c) = true :=
    fun hc => ⟨mem_search_standIns.2 hc.ancestor, by simp [hc.visible, hc.registered]⟩
  cases hfound : (search t.standIns t.size name).find? fun c => !t.isHidden c && t.contains c with
  | some c =>
    have hc : t.Nameable name c := by
      have hgood := List.find?_some hfound
      simp only [Bool.and_eq_true, Bool.not_eq_true'] at hgood
      exact ⟨mem_search_standIns.1 (List.mem_of_find?_eq_some hfound), hgood.2, hgood.1⟩
    refine .inl ⟨c, hc, fun c' hc' => ?_, by simp [publicSupertype, hname, hfound]⟩
    obtain ⟨hvisited, hgood⟩ := hmem hc'
    have hle := distance_le_of_find?_search hfound hvisited hgood
    simpa only [distance_congr fun _ _ => mem_standIns] using hle
  | none =>
    refine .inr ⟨fun c hc => ?_, by simp [publicSupertype, hname, hfound]⟩
    obtain ⟨hvisited, hgood⟩ := hmem hc
    exact List.find?_eq_none.1 hfound c hvisited hgood

/-- What code names in place of a type is no hidden class, can hold the values of the type, and stands for
itself. Only hidden classes are replaced: by a nearest ancestor that code can name, with the same type
arguments, or by `Object` if there is none. -/
theorem publicSupertype_nearest (t : ClassTable) (hobject : t.isHidden "Object" = false) (type : Ty) :
    (t.publicSupertype type).className?.any t.isHidden = false ∧
      t.isAssignable type (t.publicSupertype type) = true ∧
      t.publicSupertype (t.publicSupertype type) = t.publicSupertype type ∧
      (type.className?.any t.isHidden = false → t.publicSupertype type = type) ∧
      ∀ name args, type = .named name args → t.isHidden name = true →
        (∃ c, t.Nameable name c ∧
            (∀ c', t.Nameable name c' → distance t.parents name c ≤ distance t.parents name c') ∧
            t.publicSupertype type = .named c args) ∨
          ((∀ c, ¬ t.Nameable name c) ∧ t.publicSupertype type = .object) := by
  have hvisible : (t.publicSupertype type).className?.any t.isHidden = false := by
    cases hany : type.className?.any t.isHidden with
    | false => rw [publicSupertype_visible hany, hany]
    | true =>
      obtain ⟨name, args, rfl⟩ : ∃ name args, type = .named name args := by
        cases type with
        | named name args => exact ⟨name, args, rfl⟩
        | _ => cases hany
      obtain ⟨c, hc, -, heq⟩ | ⟨-, heq⟩ := @publicSupertype_hidden t name args hany
      · rw [heq]
        exact hc.visible
      · rw [heq]
        exact hobject
  refine ⟨hvisible, t.isAssignable_publicSupertype type, publicSupertype_visible hvisible,
    publicSupertype_visible, ?_⟩
  rintro name args rfl hname
  exact publicSupertype_hidden hname

/-- A hidden panel whose links loop back to it. What is one link away is hidden or not registered, so that the
widget is named, which is two links away. -/
theorem panel_named_widget :
    let t := ClassTable.builtin.registerAll
      [(((ClassDef.concrete "ui::Panel").withSuperclass "ui::Frame").withInterface "ui::Missing").hide,
        (((ClassDef.concrete "ui::Frame").withSuperclass "ui::Widget").withInterface "ui::Panel").hide,
        (ClassDef.concrete "ui::Widget").withInterface "ui::Panel"]
    t.isHidden "Object" = false ∧ t.isHidden "ui::Panel" = true ∧
      t.publicSupertype (.named "ui::Panel" [.string]) = .named "ui::Widget" [.string] ∧
      t.Nameable "ui::Panel" "ui::Widget" ∧
      ∀ c, t.Nameable "ui::Panel" c →
        distance t.parents "ui::Panel" "ui::Widget" ≤ distance t.parents "ui::Panel" c := by
  intro t
  have hobject : t.isHidden "Object" = false := by decide +kernel
  have hpanel : t.isHidden "ui::Panel" = true := by decide +kernel
  have hwidget : t.publicSupertype (.named "ui::Panel" [.string]) = .named "ui::Widget" [.string] := by
    decide +kernel
  obtain ⟨-, -, -, -, hnearest⟩ := publicSupertype_nearest t hobject (.named "ui::Panel" [.string])
  obtain ⟨c, hc, hmin, heq⟩ | ⟨-, heq⟩ := hnearest _ _ rfl hpanel
  · obtain rfl := (Ty.named.inj (hwidget.symm.trans heq)).1
    exact ⟨hobject, hpanel, hwidget, hc, hmin⟩
  · exact absurd (hwidget.symm.trans heq) (by decide)

end Reenact.ClassTable
