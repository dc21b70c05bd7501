import Reenact.Eval.Basic

/-!
Methods that the code under test brings along. A host method is a list of actions on its receiver
and arguments; its result is that of the last action.
-/

namespace Reenact

inductive HostAction where
  | give (v : Value)
  | fail (v : Value)
  | arg (i : Nat)
  | receiver
  | setField (name : String) (i : Nat)
  | push (i : Nat)
  /-- Asks for the answer that a nested call with the same arguments has been given. -/
  | ask (owner member : String)
  /-- Remembers a nested call with the same arguments. -/
  | note (owner member : String)
  deriving DecidableEq

structure HostMethod where
  owner : String
  name : String
  actions : List HostAction
  deriving DecidableEq

namespace HostMethod

def boolean (b : Bool) : Value := .scalar (.bool b)

def onReceiver (receiver : Option Value) (change : Heap → ObjectId → Heap × Bool) : Eval Value := do
  match receiver with
  | some (.object id) =>
    let m ← get
    let (heap, done) := change m.heap id
    set { m with heap }
    return boolean done
  | _ => return boolean false

def argument (args : List Value) (i : Nat) : Value := (args[i]?).getD .null

def perform (types : ClassTable) (receiver : Option Value) (args : List Value) :
    HostAction → Eval Value
  | .give v => return v
  | .fail v => throw (.thrown v)
  | .arg i => return argument args i
  | .receiver => return receiver.getD .null
  | .setField name i => onReceiver receiver fun h id => h.setField id name (argument args i)
  | .push i => onReceiver receiver fun h id => h.push id (argument args i)
  | .ask owner member => return ((← get).stubbed? types ⟨owner, member, args⟩).getD .null
  | .note owner member => do
    modify fun m => { m with calls := m.calls ++ [⟨owner, member, args⟩] }
    return .null

/-- Performs actions in turn; `last` is the result so far. -/
def performAll (types : ClassTable) (receiver : Option Value) (args : List Value) :
    (last : Value) → List HostAction → Eval Value
  | last, [] => return last
  | _, a :: rest => do
    let v ← perform types receiver args a
    performAll types receiver args v rest

end HostMethod

/-- The host methods in force, one per owner and name. -/
structure Host where
  methods : List HostMethod

namespace Host

def empty : Host := ⟨[]⟩

/-- Adds a method; an earlier one of the same owner and name is lost. -/
def add (h : Host) (m : HostMethod) : Host :=
  ⟨h.methods.filter (fun o => !(o.owner == m.owner && o.name == m.name)) ++ [m]⟩

def find? (h : Host) (owner name : String) : Option HostMethod :=
  h.methods.find? fun m => m.owner == owner && m.name == name

/-- The owners of a method of the name among a class and its ancestors. -/
def owners (h : Host) (types : ClassTable) (className name : String) : List String :=
  (h.methods.filter fun m => m.name == name && types.isSubclass className m.owner).map
    HostMethod.owner

/-- The owner whose method a call on an instance of a class runs: the class itself, else the first
ancestor in alphabetical order. -/
def resolve? (h : Host) (types : ClassTable) (type : Ty) (name : String) : Option String :=
  match type.className? with
  | none => none
  | some className =>
    let owners := h.owners types className name
    if className ∈ owners then some className
    else (owners.mergeSort fun a b => decide (a ≤ b)).head?

def call (h : Host) (types : ClassTable) (owner name : String) (receiver : Option Value)
    (args : List Value) : Eval Value :=
  match h.find? owner name with
  | some m => HostMethod.performAll types receiver args .null m.actions
  | none => throw (.unknownMethod (owner ++ "::" ++ name))

end Host

end Reenact
