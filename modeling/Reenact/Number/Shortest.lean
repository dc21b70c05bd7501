import Reenact.Number.Binary

/-!
Decimal text of binary floating point numbers: the shortest decimal that reads back as the same
number, written positionally or with an exponent.
-/

namespace Reenact.Number

/-- The reals that round to `m · 2 ^ q`, in units of `2 ^ (q - 2)`. The gap below a power of two is
half the gap above it, and the ends belong to the interval when `m` is even. -/
structure Interval where
  low : Nat
  mid : Nat
  high : Nat
  closed : Bool

def Format.interval (f : Format) (m : Nat) (q : Int) : Interval where
  low := if m = Nat.pow 2 f.fractionBits ∧ f.lastPlace < q then 4 * m - 1 else 4 * m - 2
  mid := 4 * m
  high := 4 * m + 2
  closed := m % 2 == 0

/-- Whether `x` lies in the interval, all four numbers being in one unit. -/
def Interval.holds (i : Interval) (x : Nat) : Bool :=
  if i.closed then i.low ≤ x && x ≤ i.high else i.low < x && x < i.high

def gridStep (g e : Int) : Nat × Nat :=
  let (n, d) := if 0 ≤ g then (Nat.pow 10 g.toNat, 1) else (1, Nat.pow 10 (-g).toNat)
  scaleTwo n d (-e)

/-- Which of two equally near neighbours is taken. -/
inductive Tie where
  | up
  | toEven
  deriving DecidableEq, Repr

/-- The nearer of `below` and `below + 1`, `down` and `up` being the distances to them. -/
def Tie.nearer (tie : Tie) (below down up : Nat) : Nat :=
  if down < up then below
  else if up < down then below + 1
  else
    match tie with
    | .up => below + 1
    | .toEven => below + below % 2

/-- The multiple of `10 ^ g` in the interval that is nearest to its middle; `e` is the exponent of
the interval's unit. -/
def Interval.nearest? (i : Interval) (tie : Tie) (g e : Int) : Option Nat :=
  let (n, d) := gridStep g e
  let scaled : Interval := ⟨i.low * d, i.mid * d, i.high * d, i.closed⟩
  let below := scaled.mid / n
  let above := below + 1
  match scaled.holds (below * n), scaled.holds (above * n) with
  | false, false => none
  | true, false => some below
  | false, true => some above
  | true, true => some (tie.nearer below (scaled.mid - below * n) (above * n - scaled.mid))

/-- Tries grids of ever smaller step, from `10 ^ g` down, and takes the first with a hit. -/
def Interval.coarsest (i : Interval) (tie : Tie) (e : Int) (exact : Nat × Int) :
    (steps : Nat) → Int → Nat × Int
  | 0, _ => exact
  | steps + 1, g =>
    match i.nearest? tie g e with
    | some d => (d, g)
    | none => i.coarsest tie e exact steps (g - 1)

/-- The shortest decimal `d · 10 ^ e` that reads back as `m · 2 ^ q`, nearest to it among the
shortest ones. The grid of step `2 ^ q` or finer holds the number itself, so the search ends. -/
def Format.shortest (f : Format) (tie : Tie) (m : Nat) (q : Int) : Nat × Int :=
  if m = 0 then (0, 0)
  else
    let exact := if 0 ≤ q then (m * Nat.pow 2 q.toNat, 0) else (m * Nat.pow 5 (-q).toNat, q)
    let start := ((m.log2 : Int) + q + 2) * 30103 / 100000 + 1
    (f.interval m q).coarsest tie (q - 2) exact (start - min q 0 + 1).toNat start

/-- How decimals are chosen and laid out: the least number of places after the point, the scientific
exponents that are written positionally (all when absent), the sign before other exponents that are
not negative, and the choice between equally near decimals. -/
structure DecimalStyle where
  places : Nat
  positional : Option (Int × Int)
  plus : String
  tie : Tie

def digitsOf (n : Nat) : List Char := Nat.toDigits 10 n

/-- Positional text of `d · 10 ^ e` with at least `places` places. -/
def positionalText (places d : Nat) (e : Int) : String :=
  let digits := digitsOf d
  let shift := (-e).toNat
  let whole := digits ++ List.replicate e.toNat '0'
  let padded := List.replicate (shift + 1 - whole.length) '0' ++ whole
  let point := padded.length - shift
  let fraction := padded.drop point
  let fraction := fraction ++ List.replicate (places - fraction.length) '0'
  String.ofList (padded.take point ++ if fraction.isEmpty then [] else '.' :: fraction)

/-- Text of `d · 10 ^ e` with one digit before the point and a decimal exponent, which has the sign
`plus` if it is not negative. -/
def scientificText (plus : String) (d : Nat) (e : Int) : String :=
  let digits := digitsOf d
  let fraction := digits.drop 1
  let exponent := e + fraction.length
  String.ofList (digits.take 1 ++ if fraction.isEmpty then [] else '.' :: fraction)
    ++ "e" ++ (if exponent < 0 then "" else plus) ++ toString exponent

def DecimalStyle.write (style : DecimalStyle) (d : Nat) (e : Int) : String :=
  let exponent := e + (digitsOf d).length - 1
  match style.positional with
  | none => positionalText style.places d e
  | some (least, bound) =>
    if d = 0 ∨ (least ≤ exponent ∧ exponent < bound) then positionalText style.places d e
    else scientificText style.plus d e

/-- Whole numbers have no point and there is never an exponent. -/
def plainStyle : DecimalStyle := ⟨0, none, "", .up⟩

/-- There is always a point or an exponent, and an exponent from `1e16` up and below `1e-4`. -/
def codeStyle : DecimalStyle := ⟨1, some (-4, 16), "", .up⟩

/-- Text of a pattern in a style, with these words for a NaN and the two infinities. -/
def Format.text (f : Format) (style : DecimalStyle) (nan infinity negInfinity : String)
    (bits : Nat) : String :=
  match f.read bits with
  | .nan _ _ => nan
  | .infinite negative => if negative then negInfinity else infinity
  | .finite negative m q =>
    let (d, e) := f.shortest style.tie m q
    (if negative then "-" else "") ++ style.write d e

end Reenact.Number
