/-!
Binary floating point as bit patterns: reading a pattern as an exact number, rounding an exact
fraction to the nearest pattern, and the conversions between the two widths and the integers.
-/

namespace Reenact.Number

/-- Widths of the exponent and fraction fields of a binary interchange format. -/
structure Format where
  exponentBits : Nat
  fractionBits : Nat
  deriving DecidableEq, Repr

def Format.single : Format := ⟨8, 23⟩
def Format.double : Format := ⟨11, 52⟩

/-- What a bit pattern stands for. A finite number is `m · 2 ^ q`. -/
inductive Reading where
  | nan (negative : Bool) (payload : Nat)
  | infinite (negative : Bool)
  | finite (negative : Bool) (m : Nat) (q : Int)
  deriving DecidableEq, Repr

namespace Format

def bias (f : Format) : Nat := Nat.pow 2 (f.exponentBits - 1) - 1

/-- The exponent of the last place of subnormal numbers. -/
def lastPlace (f : Format) : Int := 1 - (f.bias : Int) - f.fractionBits

def infinity (f : Format) : Nat := (Nat.pow 2 f.exponentBits - 1) * Nat.pow 2 f.fractionBits

def signBit (f : Format) : Nat := Nat.pow 2 (f.exponentBits + f.fractionBits)

def quietBit (f : Format) : Nat := Nat.pow 2 (f.fractionBits - 1)

def read (f : Format) (bits : Nat) : Reading :=
  let fraction := bits % Nat.pow 2 f.fractionBits
  let exponent := bits / Nat.pow 2 f.fractionBits % Nat.pow 2 f.exponentBits
  let negative := decide (bits / f.signBit % 2 = 1)
  if exponent = Nat.pow 2 f.exponentBits - 1 then
    if fraction = 0 then .infinite negative else .nan negative fraction
  else if exponent = 0 then .finite negative fraction f.lastPlace
  else .finite negative (fraction + Nat.pow 2 f.fractionBits) ((exponent : Int) - 1 + f.lastPlace)

def withSign (f : Format) (negative : Bool) (magnitude : Nat) : Nat :=
  if negative then f.signBit + magnitude else magnitude

end Format

/-- The nearest integer to `num / den`, a tie going to the even neighbour. -/
def roundHalfEven (num den : Nat) : Nat :=
  let quotient := num / den
  let rest := 2 * (num % den)
  if rest < den then quotient
  else if rest = den then quotient + quotient % 2
  else quotient + 1

def scaleTwo (num den : Nat) (e : Int) : Nat × Nat :=
  if 0 ≤ e then (num * Nat.pow 2 e.toNat, den) else (num, den * Nat.pow 2 (-e).toNat)

/-- The pattern of the number nearest to `num / den`, a tie going to the even pattern and numbers
beyond the largest finite one to infinity. -/
def Format.round (f : Format) (num den : Nat) : Nat :=
  if num = 0 then 0
  else
    let guess := (num.log2 : Int) - den.log2 - f.fractionBits - 1
    let (n, d) := scaleTwo num den (-guess)
    let place := if n / d < Nat.pow 2 (f.fractionBits + 1) then guess else guess + 1
    let place := max place f.lastPlace
    let (n, d) := scaleTwo num den (-place)
    min f.infinity ((place - f.lastPlace).toNat * Nat.pow 2 f.fractionBits + roundHalfEven n d)

/-- The number a pattern of one format stands for, in another format. A NaN keeps its sign and the
leading part of its payload and becomes quiet. -/
def Format.convert (source target : Format) (bits : Nat) : Nat :=
  match source.read bits with
  | .nan negative payload =>
    let payload :=
      if source.fractionBits ≤ target.fractionBits
      then payload * Nat.pow 2 (target.fractionBits - source.fractionBits)
      else payload / Nat.pow 2 (source.fractionBits - target.fractionBits)
    target.withSign negative (target.infinity + (payload ||| target.quietBit))
  | .infinite negative => target.withSign negative target.infinity
  | .finite negative m q =>
    let (n, d) := scaleTwo m 1 q
    target.withSign negative (target.round n d)

def Format.ofInt (f : Format) (n : Int) : Nat :=
  f.withSign (decide (n < 0)) (f.round n.natAbs 1)

/-- The integer part, clamped to `lo … hi`; a NaN counts as zero. -/
def Format.toInt (f : Format) (lo hi : Int) (bits : Nat) : Int :=
  match f.read bits with
  | .nan _ _ => 0
  | .infinite negative => if negative then lo else hi
  | .finite negative m q =>
    let (n, d) := scaleTwo m 1 q
    let whole : Int := (n / d : Nat)
    max lo (min hi (if negative then -whole else whole))

end Reenact.Number
