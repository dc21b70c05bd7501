import Mathlib
import Reenact.Class.Builtin
import Reenact.Proofs.Reachability
import Reenact.Proofs.Slots

/-!
Values that are the same but for where their objects are: the objects reachable from one stand for
those reachable from the other, one for one, of the same class and with the same slots.
-/

namespace Reenact

/-- What becomes of the type arguments of a wrapper: its factory knows none of them, takes them from
the payload, or is told the first one. -/
def WrapperKind.Retypes (kind : WrapperKind) (captured actual : List Ty) : Prop :=
  actual = [] ∨ captured = [] ∨ actual = captured ∨
    (kind = .empty ∨ kind = .checked) ∧ actual = captured.take 1

/-- The same class, but for the type arguments of a wrapper. -/
def SameClass (actual captured : Ty) : Prop :=
  actual = captured ∨ ∃ kind collection args args', collection ∈ ["List", "Set"] ∧
    actual = .named (WrapperKind.className kind collection) args ∧
      captured = .named (WrapperKind.className kind collection) args' ∧ kind.Retypes args' args

theorem Ty.erasure_erasure : (t : Ty) → t.erasure.erasure = t.erasure
  | .void | .primitive _ | .named _ _ => rfl
  | .array t => congrArg Ty.array (Ty.erasure_erasure t)

theorem SameClass.erasure {actual captured : Ty} (h : SameClass actual captured) :
    actual.erasure = captured.erasure.erasure := by
  rcases h with rfl | ⟨kind, collection, args, args', _, rfl, rfl, _⟩
  · exact (Ty.erasure_erasure actual).symm
  · rfl

/-- The same plain value, or objects that stand for each other. -/
def Renamed (R : ObjectId → ObjectId → Prop) : Value → Value → Prop
  | .object a, .object b => R a b
  | v, w => v = w

section

variable {R : ObjectId → ObjectId → Prop}

theorem Renamed.flip {v w : Value} (h : Renamed R v w) : Renamed (fun b a => R a b) w v := by
  unfold Renamed at *
  split at h <;> simp_all

theorem Renamed.object_left {a : ObjectId} {w : Value} (h : Renamed R (.object a) w) :
    ∃ b, w = .object b ∧ R a b := by
  cases w with
  | object b => exact ⟨b, rfl, h⟩
  | null => cases h
  | scalar => cases h
  | constant => cases h

end

/-- Objects that stand for each other have the same class and, up to which object is which, the same
slots. -/
def Linked (types : ClassTable) (h h' : Heap) (R : ObjectId → ObjectId → Prop) : Prop :=
  ∀ a b, R a b → ∃ o o' slots slots', h.get? a = some o ∧ h'.get? b = some o' ∧
    o.slots? types = some slots ∧ o'.slots? types = some slots' ∧ SameClass o'.type o.type ∧
      Slots.Rel (Renamed R) slots slots'

/-- The objects reachable from the values stand for each other one for one. -/
structure Isomorphism (types : ClassTable) (h : Heap) (v : Value) (h' : Heap) (w : Value)
    (R : ObjectId → ObjectId → Prop) : Prop where
  value : Renamed R v w
  linked : Linked types h h' R
  functional : ∀ {a b b'}, R a b → R a b' → b = b'
  injective : ∀ {a a' b}, R a b → R a' b → a = a'
  total : ∀ a ∈ h.reachable v, ∃ b ∈ h'.reachable w, R a b
  onto : ∀ b ∈ h'.reachable w, ∃ a ∈ h.reachable v, R a b

/-- The values are the same but for where their objects are. -/
def Isomorphic (types : ClassTable) (h : Heap) (v : Value) (h' : Heap) (w : Value) : Prop :=
  ∃ R, Isomorphism types h v h' w R

section

variable {types : ClassTable} {h h' : Heap} {R : ObjectId → ObjectId → Prop} {v w : Value}

/-- What one object refers to stands for something that the other refers to. -/
private theorem reference_follows {a b a' : ObjectId} {o o' : Obj} {slots slots' : Slots Value}
    (ho : h.get? a = some o) (ho' : h'.get? b = some o') (hslots : o.slots? types = some slots)
    (hslots' : o'.slots? types = some slots') (hrel : Slots.Rel (Renamed R) slots slots')
    (hstep : a' ∈ h.references a) : ∃ b' ∈ h'.references b, R a' b' := by
  rw [Heap.references_of_get? ho] at hstep
  obtain ⟨u, hu, hobject⟩ := List.mem_filterMap.1 hstep
  cases u with
  | object a'' =>
    cases hobject
    obtain ⟨e, he, heq⟩ := Obj.mem_slots_of_mem hslots hu
    obtain ⟨e', he', _, hrenamed⟩ := forall₂_mem_left hrel.2 he
    rw [heq] at hrenamed
    obtain ⟨b', hb', hR⟩ := hrenamed.object_left
    refine ⟨b', ?_, hR⟩
    rw [Heap.references_of_get? ho']
    rcases Obj.mem_slots hslots' he' with hmem | hnone
    · exact List.mem_filterMap.2 ⟨_, hmem, by rw [hb']; rfl⟩
    · rw [hb'] at hnone
      cases hnone
  | null => cases hobject
  | scalar => cases hobject
  | constant => cases hobject

private theorem leads_follow
    (hstep : ∀ a b, R a b → ∀ a' ∈ h.references a, ∃ b' ∈ h'.references b, R a' b')
    (hvalue : Renamed R v w) : ∀ a ∈ h.reachable v, ∃ b ∈ h'.reachable w, R a b := by
  intro a ha
  obtain ⟨root, rfl, hlead⟩ := Heap.mem_reachable.1 ha
  obtain ⟨root', rfl, hroot⟩ := hvalue.object_left
  clear ha
  induction hlead with
  | refl => exact ⟨root', Heap.mem_reachable.2 ⟨root', rfl, .refl⟩, hroot⟩
  | tail _ hnext ih =>
    obtain ⟨b, hb, hR⟩ := ih
    obtain ⟨b', hb', hR'⟩ := hstep _ b hR _ hnext
    obtain ⟨start, hstart, hlead'⟩ := Heap.mem_reachable.1 hb
    exact ⟨b', Heap.mem_reachable.2 ⟨start, hstart, hlead'.tail hb'⟩, hR'⟩

/-- Linked objects lead to linked objects on both sides. -/
theorem Linked.isomorphism (hlinked : Linked types h h' R) (hvalue : Renamed R v w)
    (hfunctional : ∀ {a b b'}, R a b → R a b' → b = b')
    (hinjective : ∀ {a a' b}, R a b → R a' b → a = a') : Isomorphism types h v h' w R where
  value := hvalue
  linked := hlinked
  functional := hfunctional
  injective := hinjective
  total := by
    refine leads_follow (fun a b hR a' ha' => ?_) hvalue
    obtain ⟨o, o', slots, slots', ho, ho', hslots, hslots', _, hrel⟩ := hlinked a b hR
    exact reference_follows ho ho' hslots hslots' hrel ha'
  onto := by
    refine leads_follow (fun b a hR b' hb' => ?_) hvalue.flip
    obtain ⟨o, o', slots, slots', ho, ho', hslots, hslots', _, hrel⟩ := hlinked a b hR
    have hflip : Slots.Rel (Renamed fun b a => R a b) slots' slots :=
      hrel.flip.imp fun _ _ => Renamed.flip
    exact reference_follows ho' ho hslots' hslots hflip hb'

end

end Reenact
