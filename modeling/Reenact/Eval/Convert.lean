import Reenact.Eval.Basic

/-!
Casts between primitive kinds. Every number is taken both as a 64-bit integer, clamped if it is a
floating point number, and as a double; integers of fewer bits keep the low ones.
-/

namespace Reenact.Convert

open Number

/-- The integer part of a floating point number, clamped to 64 bits. -/
def longOf (f : Format) (bits : Nat) : Int :=
  f.toInt Int64.minValue.toInt Int64.maxValue.toInt bits

/-- A number as an integer and as the bits of a double. -/
def readings? : Literal → Option (Int × Nat)
  | .byte n => some (n.toInt, Format.double.ofInt n.toInt)
  | .short n => some (n.toInt, Format.double.ofInt n.toInt)
  | .int n => some (n.toInt, Format.double.ofInt n.toInt)
  | .long n => some (n.toInt, Format.double.ofInt n.toInt)
  | .char c => some (c.toNat, Format.double.ofInt c.toNat)
  | .float bits => some (longOf .single bits.toNat, Format.single.convert .double bits.toNat)
  | .double bits => some (longOf .double bits.toNat, bits.toNat)
  | .bool _ | .str _ => none

def charOf? (n : Int) : Option Char :=
  if 0 ≤ n ∧ n.toNat.isValidChar then some (Char.ofNat n.toNat) else none

/-- A scalar as one of another kind, or what was expected of it. -/
def literal (l : Literal) (kind : Primitive) : Except String Literal :=
  match l, kind with
  | .bool b, .bool => .ok (.bool b)
  | _, _ =>
    match readings? l with
    | none => .error "number"
    | some (whole, double) =>
      match kind with
      | .byte => .ok (.byte (Int8.ofInt whole))
      | .short => .ok (.short (Int16.ofInt whole))
      | .int => .ok (.int (Int32.ofInt whole))
      | .long => .ok (.long (Int64.ofInt whole))
      | .float => .ok (.float (Format.double.convert .single double).toUInt32)
      | .double => .ok (.double double.toUInt64)
      | .char =>
        match charOf? whole with
        | some c => .ok (.char c)
        | none => .error "char code"
      | .bool => .error "bool"

/-- A value cast to a type. Null and types that are worth no primitive need no conversion. -/
def value (v : Value) (type : Ty) : Except String Value :=
  match type.unboxed?, v with
  | none, v | some _, .null => .ok v
  | some kind, .scalar l =>
    match literal l kind with
    | .ok l => .ok (.scalar l)
    | .error e => .error e
  | some _, _ => .error "number"

end Reenact.Convert
