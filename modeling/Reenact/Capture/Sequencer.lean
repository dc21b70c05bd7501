import Reenact.Assoc
import Reenact.Live.Heap

/-!
Sequencing of population jobs. Each subject has at most one worker that takes new jobs; a worker
runs its jobs one at a time in the order in which they came. Releasing a worker only closes it for
new jobs: what it has taken on it still runs.
-/

namespace Reenact

/-- What a call is observed on: its receiver, or the class when there is none. -/
inductive Subject where
  | receiver (id : ObjectId)
  | ofClass (name : String)
  deriving DecidableEq, Repr

namespace Subject

def ofCall (receiver : Option Value) (declaring : Ty) : Subject :=
  match receiver.bind Value.object? with
  | some id => .receiver id
  | none => .ofClass declaring.erasure.text

def text : Subject → String
  | .receiver id => s!"object {id}"
  | .ofClass name => "class " ++ name

end Subject

structure Worker (ι : Type) where
  subject : Subject
  running : Option ι
  queue : List ι

abbrev WorkerId := Nat

structure Sequencer (ι : Type) where
  workers : Array (Worker ι)
  /-- The worker that takes the jobs of each subject. -/
  current : List (Subject × WorkerId)

namespace Sequencer

variable {ι : Type}

def empty : Sequencer ι := ⟨#[], []⟩

def hasWorker (s : Sequencer ι) (subject : Subject) : Bool :=
  (findValue? subject s.current).isSome

def workerCount (s : Sequencer ι) : Nat := s.current.length

/-- The worker of a subject, started unless there is one. -/
def worker (s : Sequencer ι) (subject : Subject) : Sequencer ι × WorkerId :=
  match findValue? subject s.current with
  | some w => (s, w)
  | none =>
    let w := s.workers.size
    (⟨s.workers.push ⟨subject, none, []⟩, putEntry subject w s.current⟩, w)

def enqueue (s : Sequencer ι) (w : WorkerId) (job : ι) : Sequencer ι :=
  { s with workers := s.workers.modify w fun x => { x with queue := x.queue ++ [job] } }

def submit (s : Sequencer ι) (subject : Subject) (job : ι) : Sequencer ι × WorkerId :=
  let (s, w) := s.worker subject
  (s.enqueue w job, w)

/-- Closes the worker of a subject for new jobs; false if there is none. -/
def release (s : Sequencer ι) (subject : Subject) : Sequencer ι × Bool :=
  ({ s with current := dropEntry subject s.current }, s.hasWorker subject)

def releaseAll (s : Sequencer ι) : Sequencer ι := { s with current := [] }

def startJob? (s : Sequencer ι) (w : WorkerId) : Option (Sequencer ι × ι) :=
  match s.workers[w]? with
  | some ⟨subject, none, job :: rest⟩ =>
    some ({ s with workers := s.workers.modify w fun _ => ⟨subject, some job, rest⟩ }, job)
  | _ => none

def finishJob? (s : Sequencer ι) (w : WorkerId) : Option (Sequencer ι × ι) :=
  match s.workers[w]? with
  | some ⟨subject, some job, queue⟩ =>
    some ({ s with workers := s.workers.modify w fun _ => ⟨subject, none, queue⟩ }, job)
  | _ => none

/-- The jobs that a worker has taken on and not finished, in order. -/
def pending (s : Sequencer ι) (w : WorkerId) : List ι :=
  match s.workers[w]? with
  | some x => x.running.toList ++ x.queue
  | none => []

/-- Lets a worker run until so many more jobs are finished; gives these in order. -/
def runJobs (w : WorkerId) : (count : Nat) → Sequencer ι → Sequencer ι × List ι
  | 0, s => (s, [])
  | count + 1, s =>
    let s := ((s.startJob? w).map (·.1)).getD s
    match s.finishJob? w with
    | none => (s, [])
    | some (s, job) =>
      let (s, jobs) := runJobs w count s
      (s, job :: jobs)

def drain (s : Sequencer ι) (w : WorkerId) : Sequencer ι × List ι :=
  runJobs w (s.pending w).length s

end Sequencer

end Reenact
