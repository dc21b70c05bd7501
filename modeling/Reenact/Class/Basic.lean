import Reenact.Ty.Basic

/-!
Class definitions and the table that holds one definition per name.
-/

namespace Reenact

structure FieldDef where
  name : String
  type : Ty
  isStatic : Bool
  deriving DecidableEq

inductive ClassKind where
  | concrete | interface | enumeration
  deriving DecidableEq, Repr

structure ClassDef where
  name : String
  kind : ClassKind
  /-- A hidden class cannot be named in code outside its own library. -/
  hidden : Bool
  superclass : Option String
  interfaces : List String
  fields : List FieldDef
  constants : List String
  deriving DecidableEq

namespace ClassDef

/-- A public definition without members. All but interfaces and `Object` itself extend `Object`. -/
def ofKind (kind : ClassKind) (name : String) : ClassDef where
  name := name
  kind := kind
  hidden := false
  superclass := if kind = .interface ∨ name = "Object" then none else some "Object"
  interfaces := []
  fields := []
  constants := []

def concrete (name : String) : ClassDef := ofKind .concrete name

def interface (name : String) : ClassDef := ofKind .interface name

def enumeration (name : String) (constants : List String) : ClassDef :=
  { ofKind .enumeration name with constants }

def withSuperclass (d : ClassDef) (superclass : String) : ClassDef :=
  { d with superclass := some superclass }

def withInterface (d : ClassDef) (interface : String) : ClassDef :=
  { d with interfaces := d.interfaces ++ [interface] }

def withField (d : ClassDef) (name : String) (type : Ty) : ClassDef :=
  { d with fields := d.fields ++ [⟨name, type, false⟩] }

def withStaticField (d : ClassDef) (name : String) (type : Ty) : ClassDef :=
  { d with fields := d.fields ++ [⟨name, type, true⟩] }

def hide (d : ClassDef) : ClassDef := { d with hidden := true }

def parents (d : ClassDef) : List String := d.superclass.toList ++ d.interfaces

end ClassDef

/-- Definitions by name. A name is defined at most once. -/
structure ClassTable where
  classes : List ClassDef
  names_nodup : (classes.map ClassDef.name).Nodup := by decide

namespace ClassTable

def empty : ClassTable where
  classes := []

def get? (t : ClassTable) (name : String) : Option ClassDef :=
  t.classes.find? (·.name == name)

def contains (t : ClassTable) (name : String) : Bool := (t.get? name).isSome

def size (t : ClassTable) : Nat := t.classes.length

/-- Adds a definition; an earlier one of the same name is lost. -/
def register (t : ClassTable) (d : ClassDef) : ClassTable where
  classes := t.classes.filter (·.name != d.name) ++ [d]
  names_nodup := by
    rw [List.map_append, List.nodup_append]
    refine ⟨?_, by simp, ?_⟩
    · exact (List.filter_sublist.map _).nodup t.names_nodup
    · intro a ha b hb hab
      simp only [List.map_cons, List.map_nil, List.mem_singleton] at hb
      obtain ⟨c, hc, rfl⟩ := List.mem_map.1 ha
      simp [hab, hb] at hc

def registerAll (t : ClassTable) (ds : List ClassDef) : ClassTable := ds.foldl register t

def isHidden (t : ClassTable) (name : String) : Bool :=
  match t.get? name with
  | some d => d.hidden
  | none => false

/-- Whether code may allocate instances of the class by name. -/
def isInstantiable (t : ClassTable) (name : String) : Bool :=
  match t.get? name with
  | some d => d.kind == .concrete && !d.hidden
  | none => false

def staticFields (t : ClassTable) (name : String) : List FieldDef :=
  match t.get? name with
  | some d => d.fields.filter (·.isStatic)
  | none => []

end ClassTable

end Reenact
