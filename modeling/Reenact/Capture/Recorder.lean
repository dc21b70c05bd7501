import Reenact.Capture.Config
import Reenact.Capture.Session
import Reenact.Capture.Timeline
import Reenact.Generate.TestUnit

/-!
Capture sessions over a heap: every population is run on the live values, and it is late if its
worker does not come to an end with it within the budget. A job that its worker begins after that
is skipped. Whoever is writing to an object keeps on, so that a population that waits for it never
comes to an end.
-/

namespace Reenact

structure Recorder where
  types : ClassTable
  config : CaptureConfig
  registries : Registries
  session : Session
  interner : Interner
  timeline : Timeline

namespace Recorder

def start (types : ClassTable) (config : CaptureConfig) (catalog : Catalog) :
    Except ConfigError Recorder := do
  let config ← config.validate
  let registries ← catalog.resolve config
  return ⟨types, config, registries, .start config.timeout, .empty, .start⟩

def context (r : Recorder) (heap : Heap) : Serialization.Context :=
  ⟨heap, r.types, r.registries.serializers⟩

/-- How long a population occupies its worker. -/
def duration (p : Population.Result) : Option Nat :=
  match p.answer with
  | .ok () | .error (.failed _) => some p.elapsed
  | .error .waits => none

def answer (p : Population.Result) : Answer :=
  match p.answer with
  | .ok () => .populated p.snapshot
  | .error (.failed .cancelled) => .panicked
  | .error (.failed e) => .failed e
  | .error .waits => .late

def await (r : Recorder) (subject : Subject) (p : Population.Result) : Recorder × Answer :=
  let w := (r.session.sequencer.worker subject).2
  let begun := (r.timeline.begins w).any (· ≤ r.timeline.now + r.config.timeout)
  let (timeline, inTime) :=
    r.timeline.await w (if begun then duration p else some 0) r.config.timeout
  ({ r with timeline, interner := if begun then p.interner else r.interner },
    if inTime then answer p else .late)

def begin (r : Recorder) (heap : Heap) (caller : CallerId) (signature : Signature)
    (live : LiveState) : Recorder × CaptureId :=
  let subject := Subject.ofCall live.receiver signature.declaring
  let s := Snapshot.new signature .empty
  let p := Population.setup (r.context heap) r.config.globals live s r.interner
  let (r, answer) := r.await subject p
  let (session, id) := r.session.begin caller signature subject answer
  ({ r with session }, id)

def recordInput (r : Recorder) (caller : CallerId) (call : LiveCall) : Recorder × Bool :=
  let (session, recorded) := r.session.recordInput caller call
  ({ r with session }, recorded)

def recordOutput (r : Recorder) (caller : CallerId) (call : LiveCall) : Recorder × Bool :=
  let (session, recorded) := r.session.recordOutput caller call
  ({ r with session }, recorded)

/-- The answer to the population after the call of a capture; there is none for an invalid one. -/
def populateEnd (r : Recorder) (heap : Heap) (c : Capture) (outcome : LiveOutcome)
    (live : LiveState) : Recorder × Answer :=
  if c.isValid then
    r.await c.subject (Population.expect (r.context heap) r.config.globals live outcome
      c.inputs c.outputs c.snapshot r.interner)
  else (r, .late)

def finish (r : Recorder) (heap : Heap) (id : CaptureId) (outcome : LiveOutcome) (live : LiveState)
    (accepted : Accepted) : Recorder × Except CaptureError CaptureId :=
  match r.session.capture? id with
  | none => (r, .error .cancelled)
  | some c =>
    let (r, answer) := r.populateEnd heap c outcome live
    let (session, finished) := r.session.finish id answer accepted
    ({ r with session }, finished)

def release (r : Recorder) (subject : Subject) : Recorder × Bool :=
  let (session, released) := r.session.release subject
  ({ r with session }, released)

def close (r : Recorder) : Recorder :=
  { r with session := r.session.close, interner := r.interner.clear }

def testGenerator (r : Recorder) : TestGenerator :=
  .new r.types r.registries.setup r.registries.matchers

end Recorder

end Reenact
