import Reenact.Class.Basic

/-!
The class table every program starts from: the root class, strings, boxed classes, collections, and
the hidden classes behind the collection factories.
-/

namespace Reenact

/-- How a wrapper collection restricts or guards the collection behind it. -/
inductive WrapperKind where
  | empty | singleton | unmodifiable | synchronized | checked
  deriving DecidableEq, Repr

namespace WrapperKind

def all : List WrapperKind := [.empty, .singleton, .unmodifiable, .synchronized, .checked]

def name : WrapperKind → String
  | empty => "Empty"
  | singleton => "Singleton"
  | unmodifiable => "Unmodifiable"
  | synchronized => "Synchronized"
  | checked => "Checked"

def scope : String := "collections::"

/-- The hidden class of wrappers of the kind around a `List` or a `Set`. -/
def className (kind : WrapperKind) (collection : String) : String :=
  scope ++ kind.name ++ collection

end WrapperKind

namespace ClassTable

def wrapperClasses : List ClassDef :=
  WrapperKind.all.flatMap fun kind =>
    ["List", "Set"].map fun collection =>
      ((ClassDef.concrete (kind.className collection)).withInterface collection).hide

def builtin : ClassTable :=
  empty.registerAll <|
    [.concrete "Object", .concrete "String"]
    ++ Primitive.all.map (fun kind => .concrete kind.boxedName)
    ++ [.interface "Collection",
      (ClassDef.interface "List").withInterface "Collection",
      (ClassDef.interface "Set").withInterface "Collection",
      .interface "Map",
      (ClassDef.concrete "ArrayList").withInterface "List",
      (ClassDef.concrete "LinkedList").withInterface "List",
      (ClassDef.concrete "HashSet").withInterface "Set",
      (ClassDef.concrete "LinkedHashSet").withSuperclass "HashSet",
      (ClassDef.concrete "TreeSet").withInterface "Set",
      (ClassDef.concrete "HashMap").withInterface "Map",
      (ClassDef.concrete "LinkedHashMap").withSuperclass "HashMap",
      (ClassDef.concrete "TreeMap").withInterface "Map"]
    ++ wrapperClasses

end ClassTable

end Reenact
