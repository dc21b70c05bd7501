import Reenact.Class.Inheritance
import Reenact.Graph.Basic
import Reenact.Live.Heap

/-!
One view of what objects and captured composites hold: a shape and a list of labelled slots. A
plain object shows every field its class has, also those never stored, and then the fields it
holds beyond.
-/

namespace Reenact

inductive Slot where
  | field (owner name : String) (type : Ty)
  | element (i : Nat)
  | key (i : Nat)
  | value (i : Nat)
  deriving DecidableEq

namespace Slot

def fieldName? : Slot → Option String
  | field _ name _ => some name
  | _ => none

def text : Slot → String
  | field _ name _ => name
  | element i => s!"[{i}]"
  | key i => s!"key[{i}]"
  | value i => s!"value[{i}]"

end Slot

structure Slots (ν : Type) where
  shape : Shape
  entries : List (Slot × ν)

namespace Slots

variable {ν : Type}

def size (s : Slots ν) : Nat :=
  if s.shape = .map then s.entries.length / 2 else s.entries.length

def nodes (s : Slots ν) : List ν := s.entries.map (·.2)

def indexed (shape : Shape) (items : List ν) : Slots ν :=
  ⟨shape, items.mapIdx fun i v => (.element i, v)⟩

def keyed (entries : List (ν × ν)) : Slots ν :=
  ⟨.map, (entries.mapIdx fun i (k, v) => [(Slot.key i, k), (Slot.value i, v)]).flatten⟩

def field? (s : Slots ν) (name : String) : Option ν :=
  (s.entries.find? fun (slot, _) => slot.fieldName? == some name).map (·.2)

end Slots

/-- The declared fields with the values `stored` has for them, or defaults, and then what is left of
`stored`, owned by `className`. -/
def fieldSlots (className : String) : List (String × FieldDef) → List (String × Value) →
    List (Slot × Value)
  | [], stored => stored.map fun (name, v) => (.field className name .object, v)
  | (owner, f) :: rest, stored =>
    let value := (findValue? f.name stored).getD (.default f.type)
    (.field owner f.name f.type, value) :: fieldSlots className rest (dropEntry f.name stored)

def Obj.slots? (o : Obj) (types : ClassTable) : Option (Slots Value) :=
  if o.locked then none
  else
    match o.body with
    | .fields stored =>
      let className := o.type.className?.getD ""
      some ⟨.object, fieldSlots className (types.allFields className) stored⟩
    | .array items => some (.indexed .array items)
    | .list items => some (.indexed .list items)
    | .set items => some (.indexed .set items)
    | .map entries => some (.keyed entries)

def Heap.slots? (h : Heap) (types : ClassTable) (id : ObjectId) : Option (Slots Value) :=
  match h.get? id with
  | some o => o.slots? types
  | none => none

def Content.slots : Content → Slots NodeId
  | .array elements => .indexed .array elements
  | .list elements => .indexed .list elements
  | .set elements => .indexed .set elements
  | .map entries => .keyed entries
  | .object fields => ⟨.object, fields.map fun f => (.field f.owner f.name f.type, f.value)⟩

/-- The slots of a captured composite; atoms and constants have none. -/
def Graph.slots? (g : Graph) (id : NodeId) : Option (Slots NodeId) :=
  match g.get? id with
  | some (.composite _ _ content) => some content.slots
  | _ => none

end Reenact
