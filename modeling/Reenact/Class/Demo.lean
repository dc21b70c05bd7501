import Reenact.Class.Builtin

/-!
A small class table for demonstrations: a bean and its subclass, a linked node, an enumeration, a
class with a static counter, and a holder of collections.
-/

namespace Reenact.ClassTable

def listOfStrings : Ty := .named "List" [.string]

def setOfStrings : Ty := .named "Set" [.string]

def counts : Ty := .named "Map" [.string, .boxed .int]

def demo : ClassTable :=
  builtin.registerAll [
    ((ClassDef.concrete "demo::Bean").withField "i" (.primitive .int)).withField "o" .object,
    ((ClassDef.concrete "demo::SubBean").withSuperclass "demo::Bean").withField "name" .string,
    ((ClassDef.concrete "demo::Node").withField "value" (.primitive .int)).withField "next"
      (.ofClass "demo::Node"),
    .enumeration "demo::Color" ["RED", "GREEN", "BLUE"],
    ((ClassDef.concrete "demo::Counter").withStaticField "COUNT" (.primitive .int)).withField
      "total" (.primitive .long),
    ((((ClassDef.concrete "demo::Holder").withField "items" listOfStrings).withField "tags"
      setOfStrings).withField "lookup" counts).withField "color" (.ofClass "demo::Color")]

end Reenact.ClassTable
