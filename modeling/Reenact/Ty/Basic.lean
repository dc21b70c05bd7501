/-!
The types that fields, parameters and values are declared with: void, the eight primitives, classes
with type arguments, and arrays.
-/

namespace Reenact

inductive Primitive where
  | bool | char | byte | short | int | long | float | double
  deriving DecidableEq, Repr

namespace Primitive

def all : List Primitive := [.bool, .char, .byte, .short, .int, .long, .float, .double]

def name : Primitive → String
  | bool => "bool"
  | char => "char"
  | byte => "byte"
  | short => "short"
  | int => "int"
  | long => "long"
  | float => "float"
  | double => "double"

/-- The class whose instances stand for values of the kind where an object is wanted. -/
def boxedName : Primitive → String
  | bool => "Boolean"
  | char => "Character"
  | byte => "Byte"
  | short => "Short"
  | int => "Integer"
  | long => "Long"
  | float => "Float"
  | double => "Double"

def ofName? (s : String) : Option Primitive := all.find? (·.name == s)

def ofBoxedName? (s : String) : Option Primitive := all.find? (·.boxedName == s)

end Primitive

inductive Ty where
  | void
  | primitive (kind : Primitive)
  | named (name : String) (args : List Ty)
  | array (component : Ty)
  deriving Repr, Inhabited

namespace Ty

mutual
def decEq : (a b : Ty) → Decidable (a = b)
  | .void, .void => isTrue rfl
  | .primitive k, .primitive l => decidable_of_iff (k = l) (by simp)
  | .named m as, .named n bs =>
    if h : m = n then
      match decEqAll as bs with
      | isTrue g => isTrue (by rw [h, g])
      | isFalse g => isFalse (by simp [g])
    else isFalse (by simp [h])
  | .array s, .array t =>
    match decEq s t with
    | isTrue h => isTrue (by rw [h])
    | isFalse h => isFalse (by simp [h])
  | .void, .primitive _ | .void, .named _ _ | .void, .array _ => isFalse (by simp)
  | .primitive _, .void | .primitive _, .named _ _ | .primitive _, .array _ => isFalse (by simp)
  | .named _ _, .void | .named _ _, .primitive _ | .named _ _, .array _ => isFalse (by simp)
  | .array _, .void | .array _, .primitive _ | .array _, .named _ _ => isFalse (by simp)
def decEqAll : (as bs : List Ty) → Decidable (as = bs)
  | [], [] => isTrue rfl
  | a :: as, b :: bs =>
    match decEq a b, decEqAll as bs with
    | isTrue h, isTrue g => isTrue (by rw [h, g])
    | isFalse h, _ => isFalse (by simp [h])
    | _, isFalse g => isFalse (by simp [g])
  | [], _ :: _ | _ :: _, [] => isFalse (by simp)
end

instance : DecidableEq Ty := decEq

def ofClass (name : String) : Ty := .named name []

def object : Ty := .ofClass "Object"

def string : Ty := .ofClass "String"

def boxed (kind : Primitive) : Ty := .ofClass kind.boxedName

def isPrimitive : Ty → Bool
  | .primitive _ => true
  | _ => false

def isArray : Ty → Bool
  | .array _ => true
  | _ => false

def className? : Ty → Option String
  | .named name _ => some name
  | _ => none

def args : Ty → List Ty
  | .named _ as => as
  | _ => []

/-- The type argument at a position; a missing one stands for any object. -/
def arg (t : Ty) (i : Nat) : Ty := (t.args[i]?).getD .object

def component? : Ty → Option Ty
  | .array t => some t
  | _ => none

def isString (t : Ty) : Bool := t.className? == some "String"

def erasure : Ty → Ty
  | .named name _ => .ofClass name
  | .array t => .array t.erasure
  | t => t

/-- The primitive kind that values of the type are worth, if it is a primitive or a boxed class. -/
def unboxed? : Ty → Option Primitive
  | .primitive kind => some kind
  | .named name [] => Primitive.ofBoxedName? name
  | _ => none

def boxedForm : Ty → Ty
  | .primitive kind => .boxed kind
  | t => t

/-- Values of these types have no identity and cannot change. -/
def isImmutable (t : Ty) : Bool := t.unboxed?.isSome || t.isString

end Ty

end Reenact
