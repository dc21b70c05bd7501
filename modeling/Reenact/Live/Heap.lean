import Reenact.Assoc
import Reenact.Literal
import Reenact.Search
import Reenact.Ty.Printer

/-!
Live values and the heap of objects they refer to. An object is known by its number, so two values
are the same exactly when they are equal as terms; what an object holds may change, its class never.
-/

namespace Reenact

abbrev ObjectId := Nat

inductive Value where
  | null
  | scalar (l : Literal)
  | constant (type name : String)
  | object (id : ObjectId)
  deriving DecidableEq

inductive Shape where
  | object | array | list | set | map
  deriving DecidableEq, Repr

inductive Body where
  | fields (entries : List (String × Value))
  | array (items : List Value)
  | list (items : List Value)
  | set (items : List Value)
  | map (entries : List (Value × Value))
  deriving DecidableEq

namespace Body

def shape : Body → Shape
  | fields _ => .object
  | array _ => .array
  | list _ => .list
  | set _ => .set
  | map _ => .map

def size : Body → Nat
  | fields entries => entries.length
  | array items | list items | set items => items.length
  | map entries => entries.length

/-- Every value held, in order; a map's keys and values alternate. -/
def values : Body → List Value
  | fields entries => entries.map (·.2)
  | array items | list items | set items => items
  | map entries => entries.flatMap fun (k, v) => [k, v]

end Body

structure Obj where
  type : Ty
  body : Body
  /-- While someone is writing to the object nobody else can read it. -/
  locked : Bool
  deriving DecidableEq

structure Heap where
  objects : Array Obj

namespace Value

/-- What a variable of the type holds before anything is stored in it. -/
def default : Ty → Value
  | .primitive kind => .scalar (.zero kind)
  | _ => .null

def literal? : Value → Option Literal
  | scalar l => some l
  | _ => none

def object? : Value → Option ObjectId
  | object id => some id
  | _ => none

/-- Objects are compared by identity, and scalars by kind and bits. -/
def same : Value → Value → Bool
  | null, null => true
  | scalar l, scalar l' => l.key == l'.key
  | constant type name, constant type' name' => type == type' && name == name'
  | object id, object id' => id == id'
  | _, _ => false

end Value

namespace Heap

def empty : Heap := ⟨#[]⟩

def get? (h : Heap) (id : ObjectId) : Option Obj := h.objects[id]?

def size (h : Heap) : Nat := h.objects.size

theorem get?_isSome {h : Heap} {id : ObjectId} : (h.get? id).isSome ↔ id < h.size := by
  simp [get?, size]

def alloc (h : Heap) (type : Ty) (body : Body) : Heap × ObjectId :=
  (⟨h.objects.push ⟨type, body, false⟩⟩, h.size)

def setBody (h : Heap) (id : ObjectId) (body : Body) : Heap :=
  ⟨h.objects.modify id fun o => { o with body }⟩

def lock (h : Heap) (ids : List ObjectId) : Heap :=
  ⟨ids.foldl (fun objects id => objects.modify id fun o => { o with locked := true }) h.objects⟩

def body? (h : Heap) (id : ObjectId) : Option Body := (h.get? id).map Obj.body

def typeOf? (h : Heap) : Value → Option Ty
  | .null => none
  | .scalar l => some l.naturalType
  | .constant type _ => some (.ofClass type)
  | .object id => (h.get? id).map Obj.type

/-- Text of a value for readers. An object shows as its class only. -/
def text (h : Heap) : Value → String
  | .null => "null"
  | .scalar l => l.text
  | .constant type name => type ++ "::" ++ name
  | .object id =>
    match h.get? id with
    | some o => o.type.text ++ "@*"
    | none => "?"

def field? (h : Heap) (id : ObjectId) (name : String) : Option Value :=
  match h.body? id with
  | some (.fields entries) => findValue? name entries
  | _ => none

def setField (h : Heap) (id : ObjectId) (name : String) (value : Value) : Heap × Bool :=
  match h.body? id with
  | some (.fields entries) => (h.setBody id (.fields (putEntry name value entries)), true)
  | _ => (h, false)

/-- Adds a value to a list, an array or a set. A set refuses a value that it holds already. -/
def push (h : Heap) (id : ObjectId) (value : Value) : Heap × Bool :=
  match h.body? id with
  | some (.list items) => (h.setBody id (.list (items ++ [value])), true)
  | some (.array items) => (h.setBody id (.array (items ++ [value])), true)
  | some (.set items) =>
    if value ∈ items then (h, false) else (h.setBody id (.set (items ++ [value])), true)
  | _ => (h, false)

def setElement (h : Heap) (id : ObjectId) (i : Nat) (value : Value) : Heap × Bool :=
  match h.body? id with
  | some (.array items) =>
    if i < items.length then (h.setBody id (.array (items.set i value)), true) else (h, false)
  | some (.list items) =>
    if i < items.length then (h.setBody id (.list (items.set i value)), true) else (h, false)
  | _ => (h, false)

/-- Stores a value under a key of a map, and gives the value that was stored there before. -/
def put (h : Heap) (id : ObjectId) (key value : Value) : Heap × Option Value :=
  match h.body? id with
  | some (.map entries) =>
    (h.setBody id (.map (putEntry key value entries)), findValue? key entries)
  | _ => (h, none)

/-- A plain object; of several values for one field name the last counts, at the first place. -/
def newObject (h : Heap) (type : Ty) (entries : List (String × Value)) : Heap × ObjectId :=
  h.alloc type (.fields (entries.foldl (fun es (k, v) => putEntry k v es) []))

def newList (h : Heap) (type : Ty) (items : List Value) : Heap × ObjectId :=
  h.alloc type (.list items)

def newSet (h : Heap) (type : Ty) (items : List Value) : Heap × ObjectId :=
  items.foldl (fun (h, id) v => ((h.push id v).1, id)) (h.alloc type (.set []))

def newMap (h : Heap) (type : Ty) (entries : List (Value × Value)) : Heap × ObjectId :=
  entries.foldl (fun (h, id) (k, v) => ((h.put id k v).1, id)) (h.alloc type (.map []))

def newArray (h : Heap) (component : Ty) (items : List Value) : Heap × ObjectId :=
  h.alloc (.array component) (.array items)

def references (h : Heap) (id : ObjectId) : List ObjectId :=
  match h.body? id with
  | some body => body.values.filterMap Value.object?
  | none => []

/-- The objects reachable from a value, nearest first. -/
def reachable (h : Heap) : Value → List ObjectId
  | .object id => search h.references h.size id
  | _ => []

end Heap

end Reenact
