import Reenact.Class.Basic
import Reenact.Search

/-!
What follows from the superclass and interface links of a class table: subclassing, the fields an
instance has, assignability, and the classes that stand in for ones that code cannot name. Links may
be missing or cyclic; every question still has an answer.
-/

namespace Reenact.ClassTable

def parents (t : ClassTable) (name : String) : List String :=
  match t.get? name with
  | some d => d.parents
  | none => []

def isSubclass (t : ClassTable) (lower upper : String) : Bool :=
  lower == upper || upper == "Object" || (search t.parents t.size lower).contains upper

/-- The registered classes from `name` up its superclass links, ending before a class that is
missing or was met already. Each step adds a name to `seen`, so `size` steps are enough. -/
def superclassChain (t : ClassTable) : (steps : Nat) → (seen : List String) → String → List ClassDef
  | 0, _, _ => []
  | steps + 1, seen, name =>
    if name ∈ seen then []
    else
      match t.get? name with
      | none => []
      | some d =>
        match d.superclass with
        | none => [d]
        | some up => d :: t.superclassChain steps (name :: seen) up

/-- The instance fields of a class with their owners, farthest ancestor first. -/
def allFields (t : ClassTable) (name : String) : List (String × FieldDef) :=
  (t.superclassChain t.size [] name).reverse.flatMap fun d =>
    (d.fields.filter (!·.isStatic)).map (d.name, ·)

def fieldsOf (t : ClassTable) (ty : Ty) : List (String × FieldDef) :=
  match ty.className? with
  | some name => t.allFields name
  | none => []

/-- Whether a class type with these arguments fits another class type. -/
def classFits (t : ClassTable) (lower : String) (lowerArgs : List Ty) (upper : String)
    (upperArgs : List Ty) : Bool :=
  upper == "Object"
    || ((lowerArgs.isEmpty || upperArgs.isEmpty || lowerArgs == upperArgs)
      && t.isSubclass lower upper)

/-- Whether a value of type `lower` may be stored where `upper` is declared. Primitives are boxed
and unboxed on the way; an absent argument list fits any other. -/
def isAssignable (t : ClassTable) (lower upper : Ty) : Bool :=
  lower == upper ||
  match lower, upper with
  | .primitive kind, .named name args => t.classFits kind.boxedName [] name args
  | .named _ _, .primitive kind => lower.unboxed? == some kind
  | .named m as, .named n bs => t.classFits m as n bs
  | .array _, .named name _ => name == "Object"
  | .array a, .array b => !a.isPrimitive && !b.isPrimitive && t.isAssignable a b
  | _, _ => false

def isSubtypeOf (t : ClassTable) (upper : String) (ty : Ty) : Bool :=
  match ty.className? with
  | some name => t.isSubclass name upper
  | none => false

def isList (t : ClassTable) : Ty → Bool := t.isSubtypeOf "List"

def isSet (t : ClassTable) : Ty → Bool := t.isSubtypeOf "Set"

def isMap (t : ClassTable) : Ty → Bool := t.isSubtypeOf "Map"

/-- The class to allocate for a collection type: the type itself where code may allocate it, else
the usual class for lists, sets or maps, with the same arguments. -/
def defaultImplementation (t : ClassTable) (ty : Ty) : Ty :=
  match ty with
  | .named name args =>
    if t.isInstantiable name then ty
    else if t.isSubclass name "List" then .named "ArrayList" args
    else if t.isSubclass name "Set" then .named "LinkedHashSet" args
    else if t.isSubclass name "Map" then .named "LinkedHashMap" args
    else ty
  | _ => ty

/-- The direct ancestors in the order in which a stand-in is looked for: interfaces first. -/
def standIns (t : ClassTable) (name : String) : List String :=
  match t.get? name with
  | some d => d.interfaces ++ d.superclass.toList
  | none => []

/-- The nearest ancestor that code can name. Only hidden classes are replaced. -/
def publicSupertype (t : ClassTable) (ty : Ty) : Ty :=
  match ty with
  | .named name args =>
    if t.isHidden name then
      match (search t.standIns t.size name).find? fun c => !t.isHidden c && t.contains c with
      | some c => .named c args
      | none => .object
    else ty
  | _ => ty

end Reenact.ClassTable
