import Reenact.Class.Builtin
import Reenact.Eval.Basic

/-!
What the built-in classes do: allocation, the methods of collections, and the factories of wrapper
collections.
-/

namespace Reenact.Collection

def onHeap {α : Type} (change : Heap → Heap × α) : Eval α := do
  let m ← get
  let (heap, a) := change m.heap
  set { m with heap }
  return a

/-- A new instance of a class: an empty collection, or an object with default fields. -/
def instantiate (types : ClassTable) (type : Ty) (h : Heap) : Heap × ObjectId :=
  if types.isList type then h.newList type []
  else if types.isSet type then h.newSet type []
  else if types.isMap type then h.newMap type []
  else
    h.newObject type ((types.fieldsOf type).map fun (_, f) => (f.name, .default f.type))

def elements (v : Value) : Eval (List Value) := do
  match v.object?.bind (← get).heap.body? with
  | some (.array items) | some (.list items) | some (.set items) => return items
  | _ => RunValue.mismatch "array"

def sizeValue (n : Nat) : Value := .scalar (.int (Int32.ofInt (min n Int32.maxValue.toInt)))

def elementAt (items : List Value) (key : Value) : Eval Value :=
  match key with
  | .scalar (.int i) =>
    if i < 0 then RunValue.mismatch "index"
    else
      let i := i.toInt.toNat
      match items[i]? with
      | some v => return v
      | none => throw (.outOfBounds i items.length)
  | _ => RunValue.mismatch "int index"

def unknown {α : Type} (o : Obj) (method : String) : Eval α :=
  throw (.unknownMethod (o.type.text ++ "." ++ method))

/-- A method call on an object that no host method answers. -/
def call (id : ObjectId) (o : Obj) (method : String) (args : List Value) : Eval Value := do
  match method, args with
  | "add", [v] => return .scalar (.bool (← onHeap fun h => h.push id v))
  | "put", [k, v] => return (← onHeap fun h => h.put id k v).getD .null
  | "size", [] => return sizeValue o.body.size
  | "contains", [v] =>
    match o.body with
    | .list items | .set items | .array items => return .scalar (.bool (items.contains v))
    | _ => return .scalar (.bool false)
  | "get", [key] =>
    match o.body with
    | .map entries => return (findValue? key entries).getD .null
    | .list items | .array items => elementAt items key
    | _ => unknown o "get"
  | _, _ => unknown o method

/-- The kind and the collection that a factory's name speaks of, as in `unmodifiable_list`. -/
def factory? (name : String) : Option (WrapperKind × String) :=
  let chars := name.toList
  let named (suffix collection : String) : Option (WrapperKind × String) :=
    let kind := chars.take (chars.length - suffix.length)
    if chars = kind ++ suffix.toList then
      (WrapperKind.all.find? fun k =>
        k.name.toList.map Char.toLower == kind.map Char.toLower).map (·, collection)
    else none
  named "_list" "List" <|> named "_set" "Set"

/-- The items that a wrapper holds, and the type arguments of the collection they come from. -/
def wrapped (kind : WrapperKind) (args : List RunValue) : Eval (List Value × List Ty) := do
  match kind, args with
  | _, [] => return ([], [])
  | .singleton, v :: _ => return ([← v.toLive], [])
  | _, v :: _ =>
    match (← v.toLive).object?.bind (← get).heap.get? with
    | some o =>
      match o.body with
      | .list items | .set items => return (items, o.type.args)
      | _ => RunValue.mismatch "collection payload"
    | none => RunValue.mismatch "collection payload"

/-- A new wrapper collection. Without type arguments of its own it has those of its payload. -/
def wrap (kind : WrapperKind) (collection : String) (typeArgs : List Ty) (args : List RunValue) :
    Eval Value := do
  let (items, payloadArgs) ← wrapped kind args
  let typeArgs := if typeArgs.isEmpty then payloadArgs else typeArgs
  let type : Ty := .named (kind.className collection) typeArgs
  let id ← onHeap fun h =>
    if collection = "List" then h.newList type items else h.newSet type items
  return .object id

end Reenact.Collection
