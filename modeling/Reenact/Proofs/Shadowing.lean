import Mathlib
import Reenact.Class.Builtin
import Reenact.Proofs.WellFormed

/-!
What the slots of a plain object show where a class declares a field name again that an ancestor has. The
object holds one value under the name, and it is the first of these fields, that of the farthest ancestor,
that shows it; the others show the default of their type.
-/

namespace Reenact

theorem shownValue_eq_held_iff {stored : List (String × Value)} {before : List (String × FieldDef)} {f : FieldDef} :
    shownValue stored before f = heldValue stored f ↔
      (f.name ∈ before.map (·.2.name) → ∀ v, findValue? f.name stored = some v → v = .default f.type) := by
  unfold shownValue heldValue
  split
  · next hbefore =>
    cases findValue? f.name stored with
    | none => simp
    | some v => simp [hbefore, eq_comm]
  · next hbefore => simp [hbefore]

namespace Obj

/-- The class that extra fields count to. -/
def ownClass (o : Obj) : String := o.type.className?.getD ""

/-- The slots of a readable plain object are one for each field of its class, with the ancestors first, and
then one for each field that it holds beyond these. A declared field shows what the object holds under its
name, or its default if nothing is held there, except where the name has been declared before: then it
shows its default. So all fields show what is held exactly if wherever a name is declared again, what is
held under it is the default of that field. -/
theorem slots_show_held_iff (types : ClassTable) (o : Obj) (stored : List (String × Value))
    (hreadable : o.locked = false) (hplain : o.body = .fields stored) (hdistinct : o.body.Distinct) :
    o.slots? types = some ⟨.object,
      (types.allFields o.ownClass).mapIdx (fun i d => (.field d.1 d.2.name d.2.type,
        shownValue stored ((types.allFields o.ownClass).take i) d.2)) ++
      extraSlots o.ownClass (types.allFields o.ownClass) stored⟩ ∧
    (o.slots? types = some ⟨.object, heldSlots o.ownClass (types.allFields o.ownClass) stored⟩ ↔
      ∀ before d after, types.allFields o.ownClass = before ++ d :: after →
        d.2.name ∈ before.map (·.2.name) →
        ∀ v, findValue? d.2.name stored = some v → v = .default d.2.type) := by
  rw [hplain] at hdistinct
  have hslots : o.slots? types =
      some ⟨.object, fieldSlots o.ownClass (types.allFields o.ownClass) stored⟩ := by
    simp [slots?, hreadable, hplain, ownClass]
  rw [hslots, fieldSlots_eq_shown _ _ hdistinct]
  refine ⟨rfl, ?_⟩
  rw [Option.some.injEq, Slots.mk.injEq, eq_self, true_and, heldSlots, List.append_cancel_right_eq,
    mapIdx_eq_map_iff]
  refine forall₃_congr fun before d after => forall_congr' fun hcut => ?_
  rw [hcut, List.take_left, Prod.mk.injEq, eq_self, true_and, shownValue_eq_held_iff]

/-- Recounters are counters that declare their ancestor's count again. -/
def recounting : ClassTable :=
  (ClassTable.builtin.register ((ClassDef.concrete "Counter").withField "count" (.primitive .int))).register
    (((ClassDef.concrete "Recounter").withSuperclass "Counter").withField "count" (.primitive .int))

def recounted : List (String × Value) := [("note", .null), ("count", .scalar (.int 7))]

def recounter : Obj := ⟨.ofClass "Recounter", .fields recounted, false⟩

theorem recounter_shows_count_once :
    recounter.locked = false ∧ recounter.body = .fields recounted ∧ recounter.body.Distinct ∧
    recounter.slots? recounting = some ⟨.object,
      [(.field "Counter" "count" (.primitive .int), .scalar (.int 7)),
        (.field "Recounter" "count" (.primitive .int), .scalar (.int 0)),
        (.field "Recounter" "note" .object, .null)]⟩ := by
  have hdistinct : recounter.body.Distinct := by decide
  have hshown := (slots_show_held_iff recounting recounter recounted rfl rfl hdistinct).1
  refine ⟨rfl, rfl, hdistinct, hshown.trans ?_⟩
  rw [Option.some.injEq, Slots.mk.injEq]
  exact ⟨rfl, by decide +kernel⟩

/-- The recounter holds a seven as its count, and its own count shows a zero. -/
theorem redeclared_count_not_held :
    recounter.slots? recounting ≠
      some ⟨.object, heldSlots recounter.ownClass (recounting.allFields recounter.ownClass) recounted⟩ := by
  have hdiffer : fieldSlots recounter.ownClass (recounting.allFields recounter.ownClass) recounted ≠
      heldSlots recounter.ownClass (recounting.allFields recounter.ownClass) recounted := by
    decide +kernel
  exact fun h => hdiffer (congrArg Slots.entries (Option.some.inj h))

end Obj

end Reenact
