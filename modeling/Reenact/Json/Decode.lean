import Reenact.Class.Basic
import Reenact.Json.Reader
import Reenact.Literal
import Reenact.Ty.Parser

/-!
Literals and class definitions from JSON documents.
-/

namespace Reenact

open Json (NumberText)

def JsonValue.intWithin? (lo hi : Int) (v : JsonValue) : Option Int := do
  let n ← (← v.number?).int?
  if lo ≤ n ∧ n ≤ hi then some n else none

def JsonValue.char? (v : JsonValue) : Option Char := do
  match (← v.string?).toList with
  | [c] => some c
  | _ => none

/-- A value of the kind of literal that `kind` names. -/
def Literal.ofValue? (kind : String) (v : JsonValue) : Option Literal :=
  match kind with
  | "bool" => v.bool?.map .bool
  | "char" => v.char?.map .char
  | "byte" =>
    (v.intWithin? Int8.minValue.toInt Int8.maxValue.toInt).map fun n => .byte (Int8.ofInt n)
  | "short" =>
    (v.intWithin? Int16.minValue.toInt Int16.maxValue.toInt).map fun n => .short (Int16.ofInt n)
  | "int" =>
    (v.intWithin? Int32.minValue.toInt Int32.maxValue.toInt).map fun n => .int (Int32.ofInt n)
  | "long" =>
    (v.intWithin? Int64.minValue.toInt Int64.maxValue.toInt).map fun n => .long (Int64.ofInt n)
  | "float" => (v.number?.bind NumberText.single?).map fun bits => .float bits.toUInt32
  | "double" => (v.number?.bind NumberText.double?).map fun bits => .double bits.toUInt64
  | "str" => v.string?.map .str
  | _ => none

/-- A name out of a choice: the name itself, or an object with null under it. -/
def JsonValue.choice? : JsonValue → Option String
  | .str s | .object [(s, .null)] => s
  | _ => none

/-- A literal is an object with its kind and its value, or a list of the two. In a list the kind can
only be a name. -/
def Literal.ofJson? (v : JsonValue) : Option Literal := do
  let parts ← v.parts? ["kind", "value"]
  let kind ← parts.lookup "kind"
  let kind ←
    match v with
    | .array _ => kind.string?
    | _ => kind.choice?
  Literal.ofValue? kind (← parts.lookup "value")

def Literal.parseJson? (text : String) : Option Literal :=
  (JsonValue.parse? text).bind Literal.ofJson?

def ClassKind.ofName? : String → Option ClassKind
  | "class" => some .concrete
  | "interface" => some .interface
  | "enum" => some .enumeration
  | _ => none

/-- Whether the word for a visibility says hidden. -/
def hiddenOfName? : String → Option Bool
  | "public" => some false
  | "hidden" => some true
  | _ => none

def Ty.ofJson? (v : JsonValue) : Option Ty := do
  match Ty.parse (← v.string?) with
  | .ok t => some t
  | .error _ => none

def optionalPart {α : Type} (parts : List (String × JsonValue)) (name : String) (default : α)
    (read : JsonValue → Option α) : Option α :=
  match parts.lookup name with
  | some v => read v
  | none => some default

def JsonValue.listOf? {α : Type} (read : JsonValue → Option α) (v : JsonValue) : Option (List α) := do
  (← v.array?).mapM read

def FieldDef.ofJson? (v : JsonValue) : Option FieldDef := do
  let parts ← v.parts? ["name", "type", "is_static"]
  let name ← (← parts.lookup "name").string?
  let type ← Ty.ofJson? (← parts.lookup "type")
  let isStatic ← optionalPart parts "is_static" false JsonValue.bool?
  return ⟨name, type, isStatic⟩

def superclassOf? : JsonValue → Option (Option String)
  | .null => some none
  | .str (some s) => some (some s)
  | _ => none

/-- A definition needs a name and a kind; all else may be missing. -/
def ClassDef.ofJson? (v : JsonValue) : Option ClassDef := do
  let parts ← v.parts?
    ["name", "kind", "visibility", "superclass", "interfaces", "fields", "constants"]
  let name ← (← parts.lookup "name").string?
  let kind ← ClassKind.ofName? (← (← parts.lookup "kind").choice?)
  let hidden ← optionalPart parts "visibility" false fun v => v.choice?.bind hiddenOfName?
  let superclass ← optionalPart parts "superclass" none superclassOf?
  let interfaces ← optionalPart parts "interfaces" [] (JsonValue.listOf? JsonValue.string?)
  let fields ← optionalPart parts "fields" [] (JsonValue.listOf? FieldDef.ofJson?)
  let constants ← optionalPart parts "constants" [] (JsonValue.listOf? JsonValue.string?)
  return { name, kind, hidden, superclass, interfaces, fields, constants }

def ClassDef.parseJson? (text : String) : Option ClassDef :=
  (JsonValue.parse? text).bind ClassDef.ofJson?

end Reenact
