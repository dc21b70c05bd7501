import Reenact.Graph.Basic

/-!
Snapshots: one call as it was observed. A snapshot has a value graph of its own, and roots in it
for the receiver, arguments and globals before and after the call, for the outcome, and for nested
calls.
-/

namespace Reenact

structure Signature where
  declaring : Ty
  method : String
  params : List Ty
  result : Ty
  deriving DecidableEq

namespace Signature

def isVoid (s : Signature) : Bool := s.result == .void

/-- The declared type of a parameter; beyond the declared ones any object is taken. -/
def param (s : Signature) (i : Nat) : Ty := (s.params[i]?).getD .object

def text (s : Signature) : String :=
  s.declaring.text ++ "::" ++ s.method ++ "(" ++ ", ".intercalate (s.params.map Ty.text) ++ ") -> "
    ++ s.result.text

end Signature

structure GlobalRef where
  owner : String
  name : String
  type : Ty
  deriving DecidableEq

def GlobalRef.text (r : GlobalRef) : String := r.owner ++ "::" ++ r.name

structure CapturedGlobal where
  global : GlobalRef
  value : NodeId
  deriving DecidableEq

/-- A nested call into or out of the observed code. -/
structure CallRecord where
  owner : Ty
  member : String
  params : List Ty
  args : List NodeId
  result : Option NodeId
  deriving DecidableEq

inductive Phase where
  | setup | expect
  deriving DecidableEq, Repr

def Phase.name : Phase → String
  | setup => "setup"
  | expect => "expect"

/-- The values around the call at one moment. -/
structure PhaseState where
  receiver : Option NodeId
  args : List NodeId
  globals : List CapturedGlobal
  deriving DecidableEq

def PhaseState.empty : PhaseState := ⟨none, [], []⟩

inductive Outcome where
  | pending
  | returned (result : Option NodeId)
  | threw (error : NodeId)
  deriving DecidableEq

structure Snapshot where
  signature : Signature
  graph : Graph
  setup : PhaseState
  expect : PhaseState
  outcome : Outcome
  inputs : List CallRecord
  outputs : List CallRecord
  valid : Bool

namespace Snapshot

def new (signature : Signature) (graph : Graph) : Snapshot where
  signature := signature
  graph := graph
  setup := .empty
  expect := .empty
  outcome := .pending
  inputs := []
  outputs := []
  valid := true

def result? (s : Snapshot) : Option NodeId :=
  match s.outcome with
  | .returned result => result
  | _ => none

def error? (s : Snapshot) : Option NodeId :=
  match s.outcome with
  | .threw error => some error
  | _ => none

def invalidate (s : Snapshot) : Snapshot := { s with valid := false }

end Snapshot

end Reenact
