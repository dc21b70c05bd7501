import Reenact.Assoc
import Reenact.Ty.Printer

/-!
Names in generated code: numbered locals, and the short names of classes with the imports that they
need.
-/

namespace Reenact

/-- Lower-case words with underscores from a name in camel case. Only ASCII letters and digits are
kept; `afterLower` tells whether the last character was kept and no capital. -/
def snakeCase (afterLower : Bool) : List Char → List Char
  | [] => []
  | c :: rest =>
    if c.isUpper then
      (if afterLower then ['_', c.toLower] else [c.toLower]) ++ snakeCase false rest
    else if c.isAlphanum then c :: snakeCase true rest
    else snakeCase false rest

def Ty.localStem : Ty → String
  | .void => "unit"
  | .primitive kind => kind.name ++ "_value"
  | .named name _ =>
    match snakeCase false (lastSegment name).toList with
    | [] => "value"
    | word => String.ofList word
  | .array (.primitive kind) => kind.name ++ "_array"
  | .array t => t.localStem ++ "_array"

/-- How many locals have been named after each stem. -/
structure LocalNames where
  counts : List (String × Nat)

def LocalNames.empty : LocalNames := ⟨[]⟩

/-- The next name of a stem: the stem and a number, counted from one. -/
def LocalNames.fresh (names : LocalNames) (stem : String) : LocalNames × String :=
  let n := (findValue? stem names.counts).getD 0 + 1
  (⟨putEntry stem n names.counts⟩, stem ++ toString n)

/-- Imported classes and functions, and the class that each short name stands for. -/
structure Imports where
  classes : List String
  functions : List String
  short : List (String × String)

namespace Imports

def empty : Imports := ⟨[], [], []⟩

def addTo (paths : List String) (path : String) : List String :=
  if path ∈ paths then paths else paths ++ [path]

def addClass (i : Imports) (path : String) : Imports := { i with classes := addTo i.classes path }

def addFunction (i : Imports) (path : String) : Imports :=
  { i with functions := addTo i.functions path }

def sorted (paths : List String) : List String := paths.mergeSort fun a b => decide (a ≤ b)

def isScoped (name : String) : Bool := (afterScope? name.toList).isSome

/-- What to write for a class: its last segment, which is imported on first use, unless that segment
stands for another class already. A name without scopes is written as it is. -/
def className (i : Imports) (name : String) : Imports × String :=
  if isScoped name then
    let segment := lastSegment name
    match findValue? segment i.short with
    | some owner => (i, if owner = name then segment else name)
    | none => ({ i.addClass name with short := i.short ++ [(segment, name)] }, segment)
  else (i, name)

end Imports

end Reenact
