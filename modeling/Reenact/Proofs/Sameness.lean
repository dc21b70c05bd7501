import Mathlib
import Reenact.Live.Heap

/-!
Values are the same exactly when they are equal: the key of a literal gives the literal back.
-/

namespace Reenact

theorem Literal.key_inj {l l' : Literal} : l.key = l'.key ↔ l = l' := by
  refine ⟨fun h => ?_, congrArg key⟩
  have hbits : ∀ {n m : Int64}, n.toUInt64 = m.toUInt64 → n.toInt = m.toInt := fun h =>
    Int64.toInt_inj.2 (congrArg Int64.ofUInt64 h)
  -- Literals of two kinds differ in the number.
  cases l <;> cases l' <;> simp only [key, Prod.mk.injEq, and_true, true_and, Nat.reduceEqDiff, zero_ne_one,
    one_ne_zero, OfNat.ofNat_ne_zero, OfNat.ofNat_ne_one, OfNat.zero_ne_ofNat, OfNat.one_ne_ofNat, false_and,
    Option.some.injEq] at h
  case bool.bool b b' => cases b <;> cases b' <;> first | rfl | simp at h
  case char.char c c' => exact congrArg char (Char.val_inj.1 (UInt32.toUInt64_inj.1 h))
  case byte.byte n n' =>
    have heq := hbits h
    rw [Int8.toInt_toInt64, Int8.toInt_toInt64, Int8.toInt_inj] at heq
    exact congrArg byte heq
  case short.short n n' =>
    have heq := hbits h
    rw [Int16.toInt_toInt64, Int16.toInt_toInt64, Int16.toInt_inj] at heq
    exact congrArg short heq
  case int.int n n' =>
    have heq := hbits h
    rw [Int32.toInt_toInt64, Int32.toInt_toInt64, Int32.toInt_inj] at heq
    exact congrArg int heq
  case long.long n n' => exact congrArg long (Int64.toInt_inj.1 (hbits h))
  case float.float bits bits' => exact congrArg float (UInt32.toUInt64_inj.1 h)
  case double.double => exact congrArg double h
  case str.str => exact congrArg str h

namespace Value

variable {v w : Value}

theorem same_iff : v.same w ↔ v = w := by
  cases v <;> cases w <;> simp [same, Literal.key_inj]

theorem same_eq (v w : Value) : v.same w = decide (v = w) := by
  rw [Bool.eq_iff_iff, decide_eq_true_eq]
  exact same_iff

theorem same_equivalence : Equivalence fun v w : Value => v.same w := by
  constructor
  · intro v
    exact same_iff.2 rfl
  · intro v w h
    exact same_iff.2 (same_iff.1 h).symm
  · intro u v w huv hvw
    exact same_iff.2 ((same_iff.1 huv).trans (same_iff.1 hvw))

/-- Scalars are the same if their kinds, bits and texts are. -/
theorem same_scalar {l l' : Literal} :
    (scalar l).same (scalar l') ↔ l.kind? = l'.kind? ∧ l.key.2 = l'.key.2 := by
  constructor
  · intro h
    cases same_iff.1 h
    exact ⟨rfl, rfl⟩
  · rintro ⟨hkind, hkey⟩
    refine beq_iff_eq.2 (Prod.ext ?_ hkey)
    -- The kind gives the number in front of the bits.
    cases l <;> cases l' <;> first | rfl | cases hkind

end Value

end Reenact
