import Reenact.Number.Binary

/-!
Numbers in JSON texts. A number without fraction and exponent that fits 64 bits is an integer. Any
other is read into a double in two roundings: up to twenty digits become a 64-bit significand, which
is then scaled by a power of ten.
-/

namespace Reenact.Json

structure NumberText where
  negative : Bool
  whole : List Nat
  fraction : Option (List Nat)
  exponent : Option Int

def digit? (c : Char) : Option Nat := if c.isDigit then some (c.toNat - '0'.toNat) else none

def digits? (cs : List Char) : Option (List Nat) :=
  match cs with
  | [] => none
  | _ => cs.mapM digit?

def valueOf (digits : List Nat) : Nat := digits.foldl (fun n d => 10 * n + d) 0

def exponent? : List Char → Option Int
  | '-' :: cs => (digits? cs).map fun ds => -(valueOf ds : Int)
  | '+' :: cs => (digits? cs).map fun ds => (valueOf ds : Int)
  | cs => (digits? cs).map fun ds => (valueOf ds : Int)

/-- The digits of a whole part, which has no leading zero. -/
def whole? (cs : List Char) : Option (List Nat) :=
  match cs with
  | '0' :: _ :: _ => none
  | _ => digits? cs

def splitAt (p : Char → Bool) (cs : List Char) : List Char × List Char :=
  (cs.takeWhile (!p ·), cs.dropWhile (!p ·))

def NumberText.ofUnsigned? (negative : Bool) (cs : List Char) : Option NumberText :=
  let (mantissa, exponent) := splitAt (fun c => c == 'e' || c == 'E') cs
  let (whole, fraction) := splitAt (· == '.') mantissa
  let exponent : Option (Option Int) :=
    if exponent.isEmpty then some none else (exponent? (exponent.drop 1)).map some
  let fraction : Option (Option (List Nat)) :=
    if fraction.isEmpty then some none else (digits? (fraction.drop 1)).map some
  match whole? whole, fraction, exponent with
  | some whole, some fraction, some exponent => some ⟨negative, whole, fraction, exponent⟩
  | _, _, _ => none

def NumberText.parse? (text : String) : Option NumberText :=
  match text.toList with
  | '-' :: cs => NumberText.ofUnsigned? true cs
  | cs => NumberText.ofUnsigned? false cs

/-- The value of an integer that fits 64 bits, with sign or without. A negative zero is no
integer. -/
def NumberText.int? (n : NumberText) : Option Int :=
  match n.fraction, n.exponent with
  | none, none =>
    let v := valueOf n.whole
    if n.negative then
      if 0 < v ∧ Int64.minValue.toInt ≤ -(v : Int) then some (-(v : Int)) else none
    else if v < UInt64.size then some v else none
  | _, _ => none

/-- Appends digits to a significand while it fits 64 bits; gives the digits that do not. -/
def appendDigits : Nat → List Nat → Nat × List Nat
  | s, [] => (s, [])
  | s, d :: ds => if 10 * s + d < UInt64.size then appendDigits (10 * s + d) ds else (s, d :: ds)

/-- The exact value of a finite pattern without sign, as a fraction. -/
def fractionOf (bits : Nat) : Nat × Nat :=
  match Number.Format.double.read bits with
  | .finite _ m q => Number.scaleTwo m 1 q
  | _ => (0, 1)

def tenTo (e : Nat) : Nat := Number.Format.double.round (Nat.pow 10 e) 1

def product (a b : Nat) : Nat :=
  let ((m, d), (n, e)) := (fractionOf a, fractionOf b)
  Number.Format.double.round (m * n) (d * e)

def quotient (a b : Nat) : Nat :=
  let ((m, d), (n, e)) := (fractionOf a, fractionOf b)
  Number.Format.double.round (m * e) (d * n)

/-- A double times a power of ten, rounded once per step of at most 308; `none` beyond the largest
double. Three steps take every 64-bit significand to zero. -/
def scaleTen : (steps : Nat) → Nat → Int → Option Nat
  | 0, bits, _ => some bits
  | steps + 1, bits, e =>
    if bits = 0 then some 0
    else if 308 < e then none
    else if 0 ≤ e then
      let scaled := product bits (tenTo e.toNat)
      if scaled = Number.Format.double.infinity then none else some scaled
    else if -308 ≤ e then some (quotient bits (tenTo (-e).toNat))
    else scaleTen steps (quotient bits (tenTo 308)) (e + 308)

/-- The bits of the double that a number is read as; `none` if it is out of range. -/
def NumberText.double? (n : NumberText) : Option Nat :=
  let signed (bits : Nat) := Number.Format.double.withSign n.negative bits
  match n.int? with
  | some v => some (Number.Format.double.ofInt v)
  | none =>
    let (s, beyond) := appendDigits 0 n.whole
    let fraction := n.fraction.getD []
    let (s, unread) := appendDigits s fraction
    let e := (beyond.length : Int) - (fraction.length - unread.length : Nat) + n.exponent.getD 0
    (scaleTen 4 (Number.Format.double.round s 1) e).map signed

/-- The bits of the single that a number is read as. -/
def NumberText.single? (n : NumberText) : Option Nat :=
  match n.int? with
  | some v => some (Number.Format.single.ofInt v)
  | none => n.double?.map (Number.Format.double.convert .single)

end Reenact.Json
