import Reenact.Capture.Serializer
import Reenact.Snapshot.Basic

/-!
Population of snapshots: the state before a call, and the state, outcome and nested calls after
it. A population that fails leaves the snapshot as it was, save that its graph may have grown.
-/

namespace Reenact

/-- The live values around a call at one moment. -/
structure LiveState where
  receiver : Option Value
  args : List Value
  globals : List Value
  deriving DecidableEq

inductive LiveOutcome where
  | returned (result : Option Value)
  | threw (error : Value)
  deriving DecidableEq

structure LiveCall where
  owner : Ty
  member : String
  params : List Ty
  args : List Value
  result : Option Value
  deriving DecidableEq

namespace Population

open Serialization

/-- The nodes of arguments, each for the parameter at its position. -/
def argNodes (c : Context) (params : List Ty) (args : List Value) : Serialize (List NodeId) :=
  args.zipIdx.mapM fun (v, i) => node c v ((params[i]?).getD .object)

def optionalNode (c : Context) (v : Option Value) (declared : Ty) : Serialize (Option NodeId) :=
  match v with
  | some v => some <$> node c v declared
  | none => return none

/-- The nodes of the values at one moment. There must be one value for every watched field. -/
def phaseState (c : Context) (phase : Phase) (sig : Signature) (globals : List GlobalRef)
    (live : LiveState) : Serialize PhaseState := do
  let supplied := live.globals.length
  if supplied ≠ globals.length then
    fail (.failure
      s!"{phase.name} supplied {supplied} values for {globals.length} configured globals")
  let receiver ← optionalNode c live.receiver sig.declaring
  let args ← argNodes c sig.params live.args
  let globals ← (globals.zip live.globals).mapM fun (g, v) => do
    return ⟨g, ← node c v g.type⟩
  return { receiver, args, globals }

def callRecord (c : Context) (call : LiveCall) : Serialize CallRecord := do
  let args ← argNodes c call.params call.args
  let result ← optionalNode c call.result .object
  return ⟨call.owner, call.member, call.params, args, result⟩

/-- The nodes of the outcome. A call without result returns nothing, whatever came back. -/
def outcomeNodes (c : Context) (sig : Signature) : LiveOutcome → Serialize Outcome
  | .returned result =>
    if sig.isVoid then return .returned none
    else .returned <$> optionalNode c result sig.result
  | .threw error => .threw <$> node c error .object

structure Aftermath where
  state : PhaseState
  outcome : Outcome
  inputs : List CallRecord
  outputs : List CallRecord

/-- The nodes of what is observed after a call. Objects in calls into the observed code are captured
apart from all others. -/
def aftermath (c : Context) (sig : Signature) (globals : List GlobalRef) (live : LiveState)
    (outcome : LiveOutcome) (inputs outputs : List LiveCall) : Serialize Aftermath := do
  let state ← phaseState c .expect sig globals live
  let outcome ← outcomeNodes c sig outcome
  let outputs ← outputs.mapM (callRecord c)
  resetIdentities
  let inputs ← inputs.mapM (callRecord c)
  return { state, outcome, inputs, outputs }

structure Result where
  snapshot : Snapshot
  interner : Interner
  elapsed : Nat
  answer : Except Stop Unit

/-- Runs a serialization on the graph of a snapshot and stores what it gives. -/
def run {α : Type} (s : Snapshot) (interner : Interner) (body : Serialize α)
    (store : α → Snapshot → Snapshot) : Result :=
  let (answer, st) := body.run (.start s.graph interner)
  let grown := { s with graph := st.graph }
  match answer with
  | .ok a => ⟨store a grown, st.interner, st.elapsed, .ok ()⟩
  | .error e => ⟨grown, st.interner, st.elapsed, .error e⟩

def setup (c : Context) (globals : List GlobalRef) (live : LiveState) (s : Snapshot)
    (interner : Interner) : Result :=
  run s interner (phaseState c .setup s.signature globals live) fun state s =>
    { s with setup := state }

def expect (c : Context) (globals : List GlobalRef) (live : LiveState) (outcome : LiveOutcome)
    (inputs outputs : List LiveCall) (s : Snapshot) (interner : Interner) : Result :=
  run s interner (aftermath c s.signature globals live outcome inputs outputs) fun a s =>
    { s with
      expect := a.state
      outcome := a.outcome
      inputs := s.inputs ++ a.inputs
      outputs := s.outputs ++ a.outputs }

end Population

end Reenact
