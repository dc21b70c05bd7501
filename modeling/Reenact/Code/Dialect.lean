import Reenact.Code.Expr
import Reenact.Code.Names

/-!
The text of generated code. Rendering a class name may add an import, so the texts of a unit are
rendered in order with one set of imports.
-/

namespace Reenact

abbrev Rendering := StateM Imports

/-- A literal in code. Numbers that are neither `int` nor `double` carry their type as a suffix. -/
def Literal.code : Literal → String
  | .byte n => toString n.toInt ++ "_i8"
  | .short n => toString n.toInt ++ "_i16"
  | .long n => toString n.toInt ++ "_i64"
  | .float bits => singleCode bits.toNat
  | .double bits =>
    Number.Format.double.text Number.codeStyle "f64::NAN" "f64::INFINITY" "f64::NEG_INFINITY"
      bits.toNat
  | l => l.text
where
  singleCode (bits : Nat) : String :=
    match Number.Format.single.read bits with
    | .finite _ _ _ => Number.Format.single.text Number.codeStyle "" "" "" bits ++ "_f32"
    | _ => Number.Format.single.text Number.codeStyle "f32::NAN" "f32::INFINITY"
        "f32::NEG_INFINITY" bits

namespace Render

def className (name : String) : Rendering String := fun i =>
  let (i, text) := i.className name
  (text, i)

def commas (texts : List String) : String := ", ".intercalate texts

mutual

def type : Ty → Rendering String
  | .void => return "()"
  | .primitive kind => return kind.name
  | .named name args => do
    let name ← className name
    let args ← types args
    return name ++ (if args.isEmpty then "" else "<" ++ commas args ++ ">")
  | .array t => do
    let t ← type t
    return "Vec<" ++ t ++ ">"

def types : List Ty → Rendering (List String)
  | [] => return []
  | t :: ts => do
    let t ← type t
    let ts ← types ts
    return t :: ts

end

/-- A type without its arguments, as the owner of a constant, field or function. -/
def owner : Ty → Rendering String
  | .named name _ => className name
  | t => type t

def typeArgs (ts : List Ty) : Rendering String := do
  let texts ← types ts
  return if texts.isEmpty then "" else "::<" ++ commas texts ++ ">"

def ownerScope : Option Ty → Rendering String
  | none => return ""
  | some t => return (← owner t) ++ "::"

mutual

def expr : Expr → Rendering String
  | .literal l => return l.code
  | .null => return "null"
  | .loc name => return name
  | .constant t name => return (← owner t) ++ "::" ++ name
  | .new t args => do
    let t ← owner t
    let args ← exprs args
    return t ++ "::new(" ++ commas args ++ ")"
  | .newArray _ elements => do
    let elements ← exprs elements
    return "vec![" ++ commas elements ++ "]"
  | .call target method ts args => do
    let target ← expr target
    let ts ← typeArgs ts
    let args ← exprs args
    return target ++ "." ++ method ++ ts ++ "(" ++ commas args ++ ")"
  | .function t name ts args => do
    let scope ← ownerScope t
    let ts ← typeArgs ts
    let args ← exprs args
    return scope ++ name ++ ts ++ "(" ++ commas args ++ ")"
  | .field target name => do
    let target ← expr target
    return target ++ "." ++ name
  | .staticField t name => return (← owner t) ++ "::" ++ name
  | .index target i => do
    let target ← expr target
    return target ++ "[" ++ toString i ++ "]"
  | .cast e t => do
    let e ← expr e
    let t ← type t
    return "(" ++ e ++ " as " ++ t ++ ")"
  | .closure body => do
    let body ← expr body
    return "|| " ++ body

def exprs : List Expr → Rendering (List String)
  | [] => return []
  | e :: es => do
    let e ← expr e
    let es ← exprs es
    return e :: es

end

def stmt : Stmt → Rendering String
  | .bind name t value => do
    let t ← type t
    let value ← expr value
    return "let " ++ name ++ ": " ++ t ++ " = " ++ value ++ ";"
  | .assign target value => do
    let target ← expr target
    let value ← expr value
    return target ++ " = " ++ value ++ ";"
  | .expr e => return (← expr e) ++ ";"
  | .comment text => return "// " ++ text

def importLine (path : String) : String := "use " ++ path ++ ";"

def dialect : String := "standard"

end Render

end Reenact
