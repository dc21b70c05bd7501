import Mathlib
import Reenact.Class.Builtin
import Reenact.Proofs.Inheritance

/-!
Which types fit which, where none has type arguments. Values are boxed and unboxed, cast to a superclass, and
arrays are cast as their components are. Any such steps in a row make one step, provided that `Object` is the
top of all classes and boxed classes have nothing below them: an ancestor of `Object` would not be above
arrays, and what can be cast to a boxed class could be unboxed only after the cast.
-/

namespace Reenact

theorem Primitive.boxedName_inj {k l : Primitive} (heq : k.boxedName = l.boxedName) : k = l := by
  cases k <;> cases l <;> first | rfl | exact absurd heq (by decide)

theorem Primitive.boxedName_ne_object (k : Primitive) : k.boxedName ≠ "Object" := by
  cases k <;> decide

theorem Ty.unboxed?_eq_some {type : Ty} {kind : Primitive} :
    type.unboxed? = some kind ↔ type = .primitive kind ∨ type = .boxed kind := by
  constructor
  · intro h
    cases type with
    | primitive k => cases h; exact .inl rfl
    | named name args =>
      cases args with
      | nil =>
        have hname : kind.boxedName = name := by simpa using List.find?_some h
        exact .inr (by rw [Ty.boxed, Ty.ofClass, hname])
      | cons => cases h
    | void => cases h
    | array => cases h
  · rintro (rfl | rfl)
    · rfl
    · cases kind <;> decide

namespace ClassTable

variable {t : ClassTable} {a b c : Ty}

/-- `Object` extends nothing, and no class but itself extends a boxed class, even through others. -/
structure Sealed (t : ClassTable) : Prop where
  object : t.parents "Object" = []
  boxed : ∀ (kind : Primitive) (name : String), Leads t.parents name kind.boxedName → name = kind.boxedName

theorem sealed_of_parents (hobject : t.parents "Object" = [])
    (hboxed : ∀ d ∈ t.classes, ∀ kind ∈ Primitive.all, kind.boxedName ∉ d.parents) : t.Sealed where
  object := hobject
  boxed kind name hlead := by
    obtain rfl | ⟨sub, -, hstep⟩ := Relation.ReflTransGen.cases_tail hlead
    · rfl
    · unfold parents at hstep
      split at hstep
      · next d hd =>
        have hkind : kind ∈ Primitive.all := by cases kind <;> decide
        exact (hboxed d (List.mem_of_find?_eq_some hd) kind hkind hstep).elim
      · exact (List.not_mem_nil hstep).elim

theorem builtin_sealed : builtin.Sealed := sealed_of_parents (by decide +kernel) (by decide +kernel)

namespace Sealed

variable (ht : t.Sealed)
include ht

theorem eq_object {upper : String} (h : t.isSubclass "Object" upper = true) : upper = "Object" := by
  obtain rfl | rfl | hlead := isSubclass_iff.1 h
  · rfl
  · rfl
  · obtain rfl | ⟨up, hstep, -⟩ := Relation.ReflTransGen.cases_head hlead
    · rfl
    · rw [ht.object] at hstep
      exact (List.not_mem_nil hstep).elim

theorem isSubclass_trans {lower mid upper : String} (h : t.isSubclass lower mid = true)
    (h' : t.isSubclass mid upper = true) : t.isSubclass lower upper = true := by
  obtain rfl | rfl | hlead := isSubclass_iff.1 h
  · exact h'
  · exact isSubclass_iff.2 (.inr (.inl (ht.eq_object h')))
  · obtain rfl | rfl | hlead' := isSubclass_iff.1 h'
    · exact h
    · exact isSubclass_iff.2 (.inr (.inl rfl))
    · exact isSubclass_iff.2 (.inr (.inr (hlead.trans hlead')))

theorem eq_boxedName {name : String} {kind : Primitive} (h : t.isSubclass name kind.boxedName = true) :
    name = kind.boxedName := by
  obtain rfl | heq | hlead := isSubclass_iff.1 h
  · rfl
  · exact (kind.boxedName_ne_object heq).elim
  · exact ht.boxed kind name hlead

end Sealed

/-- How a type without type arguments fits another one. -/
inductive Fits (t : ClassTable) : Ty → Ty → Prop where
  | same (a : Ty) : Fits t a a
  | box {kind : Primitive} {name : String} :
      t.isSubclass kind.boxedName name = true → Fits t (.primitive kind) (.ofClass name)
  | unbox (kind : Primitive) : Fits t (.boxed kind) (.primitive kind)
  | upcast {lower upper : String} : t.isSubclass lower upper = true → Fits t (.ofClass lower) (.ofClass upper)
  | arrayObject (a : Ty) : Fits t (.array a) .object
  | array {a b : Ty} : a.isPrimitive = false → b.isPrimitive = false → Fits t a b → Fits t (.array a) (.array b)

theorem classFits_nil {lower upper : String} : t.classFits lower [] upper [] = t.isSubclass lower upper := by
  unfold classFits isSubclass
  cases upper == "Object" <;> simp

theorem fits_of_isAssignable : (a b : Ty) → a.erasure = a → b.erasure = b → t.isAssignable a b = true → t.Fits a b
  | a, b, ha, hb, h => by
    by_cases heq : a = b
    · exact heq ▸ .same a
    unfold isAssignable at h
    rw [Bool.or_eq_true, beq_iff_eq, or_iff_right heq] at h
    split at h
    · next kind name args =>
      obtain rfl : args = [] := by simpa [Ty.erasure, Ty.ofClass] using hb.symm
      exact .box (classFits_nil ▸ h)
    · next name args kind =>
      obtain hprimitive | hboxed := Ty.unboxed?_eq_some.1 (beq_iff_eq.1 h)
      · cases hprimitive
      · exact hboxed ▸ .unbox kind
    · next m as n bs =>
      obtain rfl : as = [] := by simpa [Ty.erasure, Ty.ofClass] using ha.symm
      obtain rfl : bs = [] := by simpa [Ty.erasure, Ty.ofClass] using hb.symm
      exact .upcast (classFits_nil ▸ h)
    · next a name args =>
      obtain rfl : args = [] := by simpa [Ty.erasure, Ty.ofClass] using hb.symm
      obtain rfl := beq_iff_eq.1 h
      exact .arrayObject a
    · next a b =>
      simp only [Bool.and_eq_true, Bool.not_eq_true'] at h
      exact .array h.1.1 h.1.2 (fits_of_isAssignable a b (Ty.array.inj ha) (Ty.array.inj hb) h.2)
    · cases h

theorem isAssignable_of_fits (h : t.Fits a b) : t.isAssignable a b = true := by
  induction h with
  | same => exact t.isAssignable_self _
  | box hsub => simp [isAssignable, Ty.ofClass, classFits_nil, hsub]
  | unbox kind => simp [isAssignable, Ty.boxed, Ty.ofClass, Ty.unboxed?_eq_some]
  | upcast hsub => simp [isAssignable, Ty.ofClass, classFits_nil, hsub]
  | arrayObject => simp [isAssignable, Ty.object, Ty.ofClass]
  | array ha hb _ ih => simp [isAssignable, ha, hb, ih]

theorem Sealed.eq_of_object_fits (ht : t.Sealed) (h : t.Fits .object c) : c = .object := by
  generalize hobject : Ty.object = a at h
  cases h with
  | same => rfl
  | upcast hsub =>
    obtain rfl := (Ty.named.inj hobject).1
    rw [ht.eq_object hsub]
  | unbox kind => exact (kind.boxedName_ne_object (Ty.named.inj hobject).1.symm).elim
  | _ => cases hobject

theorem Sealed.fits_trans (ht : t.Sealed) (h : t.Fits a b) (h' : t.Fits b c) : t.Fits a c := by
  induction h generalizing c with
  | same => exact h'
  | @box kind name hsub =>
    cases h' with
    | same => exact .box hsub
    | upcast hsub' => exact .box (ht.isSubclass_trans hsub hsub')
    | unbox other =>
      -- only the boxed class of the same kind can be reached
      rw [Primitive.boxedName_inj (ht.eq_boxedName hsub)]
      exact .same _
  | unbox kind =>
    cases h' with
    | same => exact .unbox kind
    | box hsub => exact .upcast hsub
  | @upcast lower upper hsub =>
    cases h' with
    | same => exact .upcast hsub
    | upcast hsub' => exact .upcast (ht.isSubclass_trans hsub hsub')
    | unbox kind =>
      obtain rfl := ht.eq_boxedName hsub
      exact .unbox kind
  | arrayObject a =>
    obtain rfl := ht.eq_of_object_fits h'
    exact .arrayObject a
  | array ha hb hfits ih =>
    cases h' with
    | same => exact .array ha hb hfits
    | arrayObject => exact .arrayObject _
    | array _ hc hfits' => exact .array ha hc (ih hfits')

/-- Where `Object` is the top of all classes and boxed classes have nothing below them, fitting is a preorder on
the types without type arguments, those which erasure does not change. -/
theorem isAssignable_preorder (ht : t.Sealed) :
    IsPreorder {type : Ty // type.erasure = type} fun a b => t.isAssignable a b = true where
  refl a := t.isAssignable_self a
  trans := by
    rintro ⟨a, ha⟩ ⟨b, hb⟩ ⟨c, hc⟩ hab hbc
    have hfits := ht.fits_trans (fits_of_isAssignable a b ha hb hab) (fits_of_isAssignable b c hb hc hbc)
    exact isAssignable_of_fits hfits

/-- A table with a loop of superclasses and a class below one that is not registered. An array of arrays of
ranks goes where an array of objects is wanted, in two steps and in one, and an `int` where an object is. -/
theorem ranks_assignable :
    let t := builtin.registerAll
      [(ClassDef.concrete "Rank").withSuperclass "Score",
        ((ClassDef.concrete "Score").withSuperclass "Rank").withInterface "Unknown",
        (ClassDef.concrete "Grade").withInterface "Rank"]
    t.Sealed ∧
      t.isAssignable (.array (.array (.ofClass "Grade"))) (.array (.array (.ofClass "Unknown"))) = true ∧
      t.isAssignable (.array (.array (.ofClass "Unknown"))) (.array .object) = true ∧
      t.isAssignable (.array (.array (.ofClass "Grade"))) (.array .object) = true ∧
      t.isAssignable (.primitive .int) (.boxed .int) = true ∧ t.isAssignable (.boxed .int) .object = true ∧
      t.isAssignable (.primitive .int) .object = true := by
  intro t
  have ht : t.Sealed := sealed_of_parents (by decide +kernel) (by decide +kernel)
  have hgrade : t.isAssignable (.array (.array (.ofClass "Grade"))) (.array (.array (.ofClass "Unknown"))) = true := by
    decide +kernel
  have harray : t.isAssignable (.array (.array (.ofClass "Unknown"))) (.array .object) = true := by decide +kernel
  have hint : t.isAssignable (.primitive .int) (.boxed .int) = true := by decide +kernel
  have hboxed : t.isAssignable (.boxed .int) .object = true := by decide +kernel
  have htrans := (isAssignable_preorder ht).trans
  exact ⟨ht, hgrade, harray, htrans ⟨_, rfl⟩ ⟨_, rfl⟩ ⟨_, rfl⟩ hgrade harray, hint, hboxed,
    htrans ⟨_, rfl⟩ ⟨_, rfl⟩ ⟨_, rfl⟩ hint hboxed⟩

end ClassTable

end Reenact
