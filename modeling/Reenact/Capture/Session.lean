import Reenact.Capture.Population
import Reenact.Capture.Sequencer

/-!
Capture sessions. A caller's captures nest: calls are recorded by the one it began last. A capture
is emitted when it is finished, provided that both its populations were answered in time and well;
how they are answered comes from outside, as does the answer of the sink that takes the snapshot.
-/

namespace Reenact

abbrev CallerId := Nat

/-- Captures are numbered in the order in which they begin. -/
abbrev CaptureId := Nat

structure Capture where
  id : CaptureId
  caller : CallerId
  subject : Subject
  snapshot : Snapshot
  /-- The first failure. A capture without one is valid. -/
  failure : Option CaptureError
  inputs : List LiveCall
  outputs : List LiveCall

namespace Capture

def isValid (c : Capture) : Bool := c.failure.isNone

/-- Only the first failure counts. -/
def fail (c : Capture) (e : CaptureError) : Capture :=
  { c with failure := some (c.failure.getD e) }

end Capture

inductive Answer where
  | populated (s : Snapshot)
  | failed (e : CaptureError)
  /-- Nothing came within the budget. -/
  | late
  | panicked

def Answer.failure? (budget : Nat) : Answer → Option CaptureError
  | populated _ => none
  | failed e => some e
  | late => some (.timeout budget)
  | panicked => some .cancelled

def Capture.take (budget : Nat) (answer : Answer) (c : Capture) : Capture :=
  match answer, answer.failure? budget with
  | .populated snapshot, _ => { c with snapshot }
  | _, some e => c.fail e
  | _, none => c

/-- What the sink answers to a snapshot that it is handed: nothing, or why it does not take it. -/
abbrev Accepted := Except String Unit

/-- The error that is logged for an answer of the sink. -/
def Accepted.refusal? : Accepted → Option CaptureError
  | .ok () => none
  | .error reason => some (.refused reason)

structure Session where
  /-- How long a population may take, in milliseconds. -/
  budget : Nat
  active : List Capture
  /-- The unfinished captures of each caller, latest first. -/
  nesting : List (CallerId × List CaptureId)
  /-- How many captures of each subject are to be finished before its worker goes. -/
  unfinished : List (Subject × Nat)
  sequencer : Sequencer CaptureId
  begun : Nat
  /-- The snapshots that the sink was handed. -/
  emitted : List (CaptureId × Snapshot)
  /-- The errors that were logged for snapshots that the sink refused. -/
  refusals : List (CaptureId × CaptureError)

namespace Session

def start (budget : Nat) : Session := ⟨budget, [], [], [], .empty, 0, [], []⟩

def capture? (s : Session) (id : CaptureId) : Option Capture := s.active.find? (·.id == id)

/-- The capture that records the calls of a caller. -/
def top? (s : Session) (caller : CallerId) : Option CaptureId :=
  ((findValue? caller s.nesting).getD []).head?

def inFlight (s : Session) : Nat := s.active.length

def modifyCapture (s : Session) (id : CaptureId) (change : Capture → Capture) : Session :=
  { s with active := s.active.map fun c => if c.id = id then change c else c }

/-- Lets the worker of a subject answer a job for a capture. A worker that answers has run all
jobs that it took on before; one that is late still has them. -/
def employ (s : Session) (subject : Subject) (id : CaptureId) (answer : Answer) : Session :=
  let (sequencer, w) := s.sequencer.submit subject id
  match answer with
  | .late => { s with sequencer }
  | _ => { s with sequencer := (sequencer.drain w).1 }

/-- Begins a capture; the answer is that of the population before the call. -/
def begin (s : Session) (caller : CallerId) (signature : Signature) (subject : Subject)
    (answer : Answer) : Session × CaptureId :=
  let id := s.begun
  let capture : Capture := ⟨id, caller, subject, .new signature .empty, none, [], []⟩
  let s := { s with
    active := s.active ++ [capture.take s.budget answer]
    nesting := putEntry caller (id :: (findValue? caller s.nesting).getD []) s.nesting
    unfinished := putEntry subject ((findValue? subject s.unfinished).getD 0 + 1) s.unfinished
    begun := id + 1 }
  (s.employ subject id answer, id)

/-- Records a nested call in the capture on top of the caller's stack, if that one is valid. -/
def record (s : Session) (caller : CallerId) (add : Capture → Capture) : Session × Bool :=
  match (s.top? caller).bind s.capture? with
  | some c => if c.isValid then (s.modifyCapture c.id add, true) else (s, false)
  | none => (s, false)

def recordInput (s : Session) (caller : CallerId) (call : LiveCall) : Session × Bool :=
  s.record caller fun c => { c with inputs := c.inputs ++ [call] }

def recordOutput (s : Session) (caller : CallerId) (call : LiveCall) : Session × Bool :=
  s.record caller fun c => { c with outputs := c.outputs ++ [call] }

/-- Takes a capture out of its caller's stack, wherever it stands there. -/
def unstack (s : Session) (c : Capture) : List (CallerId × List CaptureId) :=
  match findValue? c.caller s.nesting with
  | none => s.nesting
  | some stack =>
    match stack.erase c.id with
    | [] => dropEntry c.caller s.nesting
    | rest => putEntry c.caller rest s.nesting

def deactivate (s : Session) (c : Capture) : Session :=
  { s with
    active := s.active.filter (·.id != c.id)
    nesting := s.unstack c }

/-- Counts a capture of a subject as finished. With the last one the subject's worker is released.
-/
def settle (s : Session) (subject : Subject) : Session :=
  match findValue? subject s.unfinished with
  | none => s
  | some n =>
    if n ≤ 1 then
      { s with
        unfinished := dropEntry subject s.unfinished
        sequencer := (s.sequencer.release subject).1 }
    else { s with unfinished := putEntry subject (n - 1) s.unfinished }

/-- Emits the snapshot of a capture that has gone well so far, if the population after the call goes
well too and leaves the snapshot valid. A refusal of the sink is logged, and changes nothing else. -/
def emit (s : Session) (c : Capture) (answer : Answer) (accepted : Accepted) :
    Session × Except CaptureError CaptureId :=
  match c.failure with
  | some e => (s, .error e)
  | none =>
    let s := s.employ c.subject c.id answer
    let c := c.take s.budget answer
    match c.failure with
    | some e => (s, .error e)
    | none =>
      if c.snapshot.valid then
        ({ s with
          emitted := s.emitted ++ [(c.id, c.snapshot)]
          refusals := s.refusals ++ accepted.refusal?.toList.map (c.id, ·) }, .ok c.id)
      else (s, .error .cancelled)

/-- Finishes a capture; the first answer is that of the population after the call, which takes place
only if the capture is valid, the second that of the sink to the snapshot, if there is one. -/
def finish (s : Session) (id : CaptureId) (answer : Answer) (accepted : Accepted) :
    Session × Except CaptureError CaptureId :=
  match s.capture? id with
  | none => (s, .error .cancelled)
  | some c =>
    let (s, finished) := (s.deactivate c).emit c answer accepted
    (s.settle c.subject, finished)

/-- Releases the worker of a subject; false if it has none. -/
def release (s : Session) (subject : Subject) : Session × Bool :=
  let (sequencer, released) := s.sequencer.release subject
  ({ s with sequencer }, released)

/-- Releases all workers. Captures that are not finished stay. -/
def close (s : Session) : Session :=
  { s with sequencer := s.sequencer.releaseAll, unfinished := [] }

end Session

end Reenact
