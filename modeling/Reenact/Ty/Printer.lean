import Reenact.Ty.Basic

/-!
Text of types: `Map<String, demo::Bean[]>` in full, `Map<String, Bean[]>` with simple names.
-/

namespace Reenact

/-- What follows the last `::`, if there is one. -/
def afterScope? : List Char → Option (List Char)
  | [] => none
  | c :: rest =>
    match afterScope? rest with
    | some segment => some segment
    | none =>
      match c, rest with
      | ':', ':' :: segment => some segment
      | _, _ => none

def lastSegment (name : String) : String :=
  match afterScope? name.toList with
  | some segment => String.ofList segment
  | none => name

namespace Ty

mutual
/-- Text of a type, each class name written by `name`. -/
def render (name : String → String) : Ty → String
  | .void => "void"
  | .primitive kind => kind.name
  | .named n [] => name n
  | .named n (t :: ts) => name n ++ "<" ++ render name t ++ renderRest name ts ++ ">"
  | .array t => render name t ++ "[]"
def renderRest (name : String → String) : List Ty → String
  | [] => ""
  | t :: ts => ", " ++ render name t ++ renderRest name ts
end

def text (t : Ty) : String := t.render id

/-- Text of a type with every class name reduced to its last segment. -/
def simpleText (t : Ty) : String := t.render lastSegment

end Ty

end Reenact
