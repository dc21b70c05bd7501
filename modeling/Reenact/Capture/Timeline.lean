import Reenact.Capture.Error
import Reenact.Capture.Sequencer

/-!
Time in a sequencer whose jobs last as long as they say. Whoever submits a job waits for it, but no
longer than a budget; a job that comes too late still occupies its worker.
-/

namespace Reenact

structure Timeline where
  now : Nat
  /-- When each worker will have done the jobs it has taken on. There is no such time for one that
  waits for good. -/
  busyUntil : List (WorkerId × Option Nat)

namespace Timeline

def start : Timeline := ⟨0, []⟩

def begins (t : Timeline) (w : WorkerId) : Option Nat :=
  max t.now <$> (findValue? w t.busyUntil).getD (some 0)

/-- Waits for a job that a worker has just taken on. False if the budget is used up before. -/
def await (t : Timeline) (w : WorkerId) (duration : Option Nat) (budget : Nat) : Timeline × Bool :=
  let done := do return (← t.begins w) + (← duration)
  let busyUntil := putEntry w done t.busyUntil
  match done.filter (· ≤ t.now + budget) with
  | some time => (⟨time, busyUntil⟩, true)
  | none => (⟨t.now + budget, busyUntil⟩, false)

end Timeline

/-- A job that reports a number when it runs, if it has one. -/
structure TimedJob where
  report : Option Int
  duration : Nat
  panics : Bool

/-- A sequencer at work, with the reports made so far. -/
structure TimedSequencer where
  sequencer : Sequencer TimedJob
  timeline : Timeline
  reports : List Int

namespace TimedSequencer

def start : TimedSequencer := ⟨.empty, .start, []⟩

/-- Submits a job and waits for it. A job that panics leaves no answer. -/
def run (s : TimedSequencer) (subject : Subject) (job : TimedJob) (budget : Nat) :
    TimedSequencer × Except CaptureError Unit :=
  let (sequencer, w) := s.sequencer.submit subject job
  let (timeline, inTime) := s.timeline.await w (some job.duration) budget
  if inTime then
    let (sequencer, jobs) := sequencer.drain w
    (⟨sequencer, timeline, s.reports ++ jobs.filterMap TimedJob.report⟩,
      if job.panics then .error .cancelled else .ok ())
  else (⟨sequencer, timeline, s.reports⟩, .error (.timeout budget))

def release (s : TimedSequencer) (subject : Subject) : TimedSequencer × Bool :=
  let (sequencer, released) := s.sequencer.release subject
  ({ s with sequencer }, released)

def releaseAll (s : TimedSequencer) : TimedSequencer :=
  { s with sequencer := s.sequencer.releaseAll }

end TimedSequencer

end Reenact
