import Reenact.Number.Shortest
import Reenact.Text.Quoted
import Reenact.Ty.Basic

/-!
Scalars: the values of the primitive types, and strings. Floating point numbers are kept as bit
patterns, so equality tells `0.0` from `-0.0` and a NaN equals itself.
-/

namespace Reenact

inductive Literal where
  | bool (value : Bool)
  | char (value : Char)
  | byte (value : Int8)
  | short (value : Int16)
  | int (value : Int32)
  | long (value : Int64)
  | float (bits : UInt32)
  | double (bits : UInt64)
  | str (value : String)
  deriving DecidableEq

namespace Literal

/-- What a variable of the kind holds before anything is stored in it. -/
def zero : Primitive → Literal
  | .bool => .bool false
  | .char => .char '\x00'
  | .byte => .byte 0
  | .short => .short 0
  | .int => .int 0
  | .long => .long 0
  | .float => .float 0
  | .double => .double 0

def kind? : Literal → Option Primitive
  | bool _ => some .bool
  | char _ => some .char
  | byte _ => some .byte
  | short _ => some .short
  | int _ => some .int
  | long _ => some .long
  | float _ => some .float
  | double _ => some .double
  | str _ => none

/-- The class a literal belongs to as an object. -/
def naturalType (l : Literal) : Ty :=
  match l.kind? with
  | some kind => .boxed kind
  | none => .string

/-- What literals are compared by: the number of the kind, the bits, and the text of a string. -/
def key : Literal → Nat × UInt64 × Option String
  | bool value => (0, if value then 1 else 0, none)
  | char value => (1, value.val.toUInt64, none)
  | byte value => (2, value.toInt64.toUInt64, none)
  | short value => (3, value.toInt64.toUInt64, none)
  | int value => (4, value.toInt64.toUInt64, none)
  | long value => (5, value.toUInt64, none)
  | float bits => (6, bits.toUInt64, none)
  | double bits => (7, bits, none)
  | str value => (8, 0, some value)

/-- Text for readers: numbers without suffix or exponent, characters and strings in quotes. -/
def text : Literal → String
  | bool b => toString b
  | char c => Text.quotedChar c
  | byte n => toString n.toInt
  | short n => toString n.toInt
  | int n => toString n.toInt
  | long n => toString n.toInt
  | float bits => Number.Format.single.text Number.plainStyle "NaN" "inf" "-inf" bits.toNat
  | double bits => Number.Format.double.text Number.plainStyle "NaN" "inf" "-inf" bits.toNat
  | str s => Text.quotedString s

end Literal

end Reenact
