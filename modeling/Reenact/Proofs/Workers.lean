import Reenact.Proofs.Emission
import Reenact.Proofs.Sequencing

/-!
How long a subject has a worker. A session counts the unfinished captures of each subject and releases
the subject's worker with the last one. Closing a session forgets the counts: a capture that is finished
after that may start a worker again, which is then left behind.
-/

namespace Reenact

namespace Sequencer

variable {s s' : Sequencer ℕ} {subject other : Subject} {w : WorkerId} {job : ℕ}

theorem hasWorker_submit (s : Sequencer ℕ) (subject other : Subject) (job : ℕ) :
    (s.submit subject job).1.hasWorker other ↔ other = subject ∨ s.hasWorker other := by
  unfold submit worker
  cases hfound : findValue? subject s.current with
  | some w =>
    constructor
    · exact .inr
    · rintro (rfl | hother)
      · simp [hasWorker, enqueue, hfound]
      · exact hother
  | none =>
    by_cases hother : other = subject <;> simp [hasWorker, enqueue, hother]

theorem nodup_submit (h : (s.current.map (·.1)).Nodup) (subject : Subject) (job : ℕ) :
    ((s.submit subject job).1.current.map (·.1)).Nodup := by
  unfold submit worker
  cases hfound : findValue? subject s.current with
  | some w => exact h
  | none => exact nodup_putEntry h

theorem hasWorker_release (h : (s.current.map (·.1)).Nodup) :
    (s.release subject).1.hasWorker other ↔ other ≠ subject ∧ s.hasWorker other := by
  unfold release hasWorker
  rw [findValue?_dropEntry h]
  by_cases hother : other = subject <;> simp [hother]

/-- Running jobs neither starts nor releases a worker. -/
theorem runJobs_current (w : WorkerId) (count : ℕ) (s : Sequencer ℕ) :
    (runJobs w count s).1.current = s.current := by
  induction count generalizing s with
  | zero => rfl
  | succ count ih =>
    have hstart : (((s.startJob? w).map (·.1)).getD s).current = s.current := by
      cases hstart : s.startJob? w with
      | none => rfl
      | some started => exact (startJob?_spec hstart).1
    rw [runJobs]
    generalize ((s.startJob? w).map (·.1)).getD s = t at hstart
    cases hfinish : t.finishJob? w with
    | none => simpa [hfinish] using hstart
    | some finished =>
      dsimp only
      rw [ih, (finishJob?_spec hfinish).1, hstart]

theorem exists_hasWorker (h : s.workerCount ≠ 0) : ∃ subject, s.hasWorker subject := by
  obtain ⟨e, he⟩ := List.exists_mem_of_length_pos (Nat.pos_of_ne_zero h)
  refine ⟨e.1, ?_⟩
  rw [hasWorker, Option.isSome_iff_ne_none, Ne, findValue?_eq_none, not_not]
  exact List.mem_map_of_mem he

theorem workerCount_ne_zero (h : s.hasWorker subject) : s.workerCount ≠ 0 := by
  intro hzero
  rw [hasWorker, List.length_eq_zero_iff.1 hzero] at h
  cases h

end Sequencer

namespace Session

variable {budget : ℕ} {events : List Event} {s : Session}

/-- How many captures of a subject a session takes to be unfinished. -/
def tally (s : Session) (subject : Subject) : ℕ := (findValue? subject s.unfinished).getD 0

def serves (s : Session) (subject : Subject) : Bool := s.sequencer.hasWorker subject

/-! ### Unfinished captures of a subject -/

def Opening.subject (o : Opening) : Subject := .ofCall o.live.receiver o.signature.declaring

/-- The unfinished captures of a subject, in the order in which they began. -/
def Ledger.openedOn (l : Ledger) (subject : Subject) : List Opening :=
  l.unfinished.filter (·.subject = subject)

def unfinishedOn (events : List Event) (subject : Subject) : List Opening :=
  (Ledger.ofEvents events).openedOn subject

@[simp]
theorem take_subject (answer : Answer) (c : Capture) : (c.take budget answer).subject = c.subject := by
  cases answer <;> rfl

theorem Opening.Tracks.subject {o : Opening} {c : Capture} (h : o.Tracks budget c) :
    c.subject = o.subject := by
  rw [h]
  exact take_subject ..

theorem Opening.Tracks.isValid {o : Opening} {c : Capture} (h : o.Tracks budget c) :
    c.isValid ↔ o.answer.failure? budget = none := by
  rw [h, Capture.isValid]
  simp [capture_failure]

/-- The session was closed while the subject had an unfinished capture, and it has had one ever since. -/
inductive Overtaken (subject : Subject) : List Event → Prop where
  | closed {events : List Event} : unfinishedOn events subject ≠ [] → Overtaken subject (events ++ [.close])
  | stays {events : List Event} {e : Event} : Overtaken subject events → unfinishedOn (events ++ [e]) subject ≠ [] →
      Overtaken subject (events ++ [e])

/-- Begins a capture of the subject, or releases its worker. -/
def Event.Reclaims (subject : Subject) : Event → Prop
  | .begin _ signature live _ => subject = .ofCall live.receiver signature.declaring
  | .release other => subject = other
  | .close => True
  | _ => False

/-- The last capture of the subject was finished when it was no longer counted: the worker that served
it, for the population after the call or before, is left. -/
inductive Stranded (budget : ℕ) (subject : Subject) : List Event → Prop where
  | finish {events : List Event} {o : Opening} {outcome live answer accepted} :
      Overtaken subject events → unfinishedOn events subject = [o] →
      (after budget events).serves subject ∨ o.answer.failure? budget = none →
      Stranded budget subject (events ++ [.finish o.id outcome live answer accepted])
  | stays {events : List Event} {e : Event} : Stranded budget subject events → ¬ e.Reclaims subject →
      Stranded budget subject (events ++ [e])

variable {subject other : Subject} {e : Event}

/-! ### The books that a session keeps -/

structure Booked (s : Session) : Prop where
  counts : (s.unfinished.map (·.1)).Nodup
  workers : (s.sequencer.current.map (·.1)).Nodup
  positive : ∀ subject, findValue? subject s.unfinished ≠ some 0

theorem current_employ (s : Session) (subject : Subject) (id : CaptureId) (answer : Answer) :
    (s.employ subject id answer).sequencer.current = (s.sequencer.submit subject id).1.current := by
  cases answer with
  | late => rfl
  | _ => exact Sequencer.runJobs_current ..

theorem employ_booked (h : Booked s) (subject : Subject) (id : CaptureId) (answer : Answer) :
    Booked (s.employ subject id answer) := by
  refine ⟨?_, ?_, ?_⟩
  · rw [employ_eq]
    exact h.counts
  · rw [current_employ]
    exact Sequencer.nodup_submit h.workers subject id
  · rw [employ_eq]
    exact h.positive

theorem serves_employ (s : Session) (subject : Subject) (id : CaptureId) (answer : Answer) :
    (s.employ subject id answer).serves other ↔ other = subject ∨ s.serves other := by
  rw [serves, Sequencer.hasWorker, current_employ]
  exact Sequencer.hasWorker_submit s.sequencer subject other id

theorem begin_booked (h : Booked s) (caller : CallerId) (signature : Signature) (subject : Subject)
    (answer : Answer) : Booked (s.begin caller signature subject answer).1 := by
  unfold Session.begin
  apply employ_booked
  refine ⟨nodup_putEntry h.counts, h.workers, fun other => ?_⟩
  rw [findValue?_putEntry]
  split
  · exact fun hzero => Nat.succ_ne_zero _ (Option.some.inj hzero)
  · exact h.positive other

theorem tally_begin (s : Session) (caller : CallerId) (signature : Signature) (subject : Subject)
    (answer : Answer) : (s.begin caller signature subject answer).1.tally other =
      if other = subject then s.tally other + 1 else s.tally other := by
  rw [tally, Session.begin, employ_eq]
  dsimp only
  rw [findValue?_putEntry]
  by_cases hother : other = subject
  · rw [if_pos hother, if_pos hother, hother]
    rfl
  · rw [if_neg hother, if_neg hother]
    rfl

theorem serves_begin (s : Session) (caller : CallerId) (signature : Signature) (subject : Subject)
    (answer : Answer) :
    (s.begin caller signature subject answer).1.serves other ↔ other = subject ∨ s.serves other :=
  serves_employ ..

/-- What settling a subject does to the books. -/
theorem settle_spec (h : Booked s) (subject : Subject) : Booked (s.settle subject) ∧
    (∀ other, (s.settle subject).tally other =
      if other = subject then s.tally other - 1 else s.tally other) ∧
    ∀ other, (s.settle subject).serves other ↔
      s.serves other ∧ (other = subject → s.tally subject ≠ 1) := by
  unfold settle tally
  cases hcount : findValue? subject s.unfinished with
  | none =>
    refine ⟨h, fun other => ?_, fun other => ?_⟩
    · by_cases hother : other = subject <;> simp [hother, hcount]
    · simp
  | some n =>
    have hpos : n ≠ 0 := fun hzero => h.positive subject (hcount.trans (congrArg some hzero))
    by_cases hlast : n ≤ 1
    · obtain rfl : n = 1 := by omega
      refine ⟨⟨nodup_dropEntry subject h.counts, nodup_dropEntry subject h.workers, fun other => ?_⟩,
        fun other => ?_, fun other => ?_⟩
      · simp only [hlast, if_true]
        rw [findValue?_dropEntry h.counts]
        split
        · exact Option.some_ne_none _ ∘ Eq.symm
        · exact h.positive other
      · simp only [hlast, if_true]
        rw [findValue?_dropEntry h.counts]
        by_cases hother : other = subject <;> simp [hother, hcount]
      · simp only [hlast, if_true]
        refine (Sequencer.hasWorker_release h.workers).trans ?_
        by_cases hother : other = subject <;> simp [hother, serves]
    · simp only [hlast, if_false]
      refine ⟨⟨nodup_putEntry h.counts, h.workers, fun other => ?_⟩, fun other => ?_, fun other => ?_⟩
      · dsimp only
        rw [findValue?_putEntry]
        split
        · exact fun hzero => absurd (Option.some.inj hzero) (by omega)
        · exact h.positive other
      · rw [findValue?_putEntry]
        by_cases hother : other = subject <;> simp [hother, hcount]
      · have hmore : (some n).getD 0 ≠ 1 := by
          rw [Option.getD_some]
          omega
        exact (and_iff_left fun _ => hmore).symm

theorem emit_spec_books (h : Booked s) (c : Capture) (answer : Answer) (accepted : Accepted) :
    Booked (s.emit c answer accepted).1 ∧ (∀ other, (s.emit c answer accepted).1.tally other = s.tally other) ∧
      ∀ other, (s.emit c answer accepted).1.serves other ↔ s.serves other ∨ other = c.subject ∧ c.isValid := by
  cases hfailure : c.failure with
  | some error =>
    have heq : (s.emit c answer accepted).1 = s := by
      unfold emit
      rw [hfailure]
    rw [heq]
    exact ⟨h, fun _ => rfl, fun other => by simp [Capture.isValid, hfailure]⟩
  | none =>
    have hsequencer : (s.emit c answer accepted).1.sequencer = (s.employ c.subject c.id answer).sequencer := by
      unfold emit
      simp only [hfailure]
      split
      · rfl
      · split <;> rfl
    refine ⟨⟨?_, ?_, ?_⟩, fun other => ?_, fun other => ?_⟩
    · rw [emit_eq]
      exact h.counts
    · rw [hsequencer]
      exact (employ_booked h c.subject c.id answer).workers
    · rw [emit_eq]
      exact h.positive
    · rw [emit_eq]
      rfl
    · rw [serves, hsequencer]
      refine (serves_employ s c.subject c.id answer).trans ?_
      simp [Capture.isValid, hfailure, or_comm]

theorem finish_books (h : Booked s) {id : CaptureId} {c : Capture} (hc : s.capture? id = some c)
    (answer : Answer) (accepted : Accepted) : Booked (s.finish id answer accepted).1 ∧
    (∀ other, (s.finish id answer accepted).1.tally other =
      if other = c.subject then s.tally other - 1 else s.tally other) ∧
    ∀ other, (s.finish id answer accepted).1.serves other ↔
      (s.serves other ∨ other = c.subject ∧ c.isValid) ∧ (other = c.subject → s.tally c.subject ≠ 1) := by
  have heq : (s.finish id answer accepted).1 = ((s.deactivate c).emit c answer accepted).1.settle c.subject := by
    unfold finish
    rw [hc]
  have hdeactivated : Booked (s.deactivate c) := ⟨h.counts, h.workers, h.positive⟩
  obtain ⟨hemitted, htally, hserves⟩ := emit_spec_books hdeactivated c answer accepted
  obtain ⟨hsettled, htally', hserves'⟩ := settle_spec hemitted c.subject
  rw [heq]
  refine ⟨hsettled, fun other => ?_, fun other => ?_⟩
  · rw [htally', htally]
    rfl
  · rw [hserves', hserves, htally]
    rfl

/-! ### The captures of a subject as the events tell -/

theorem unfinishedOn_begin (events : List Event) (caller : CallerId) (signature : Signature)
    (live : LiveState) (answer : Answer) (subject : Subject) :
    (unfinishedOn (events ++ [.begin caller signature live answer]) subject).length =
      if subject = .ofCall live.receiver signature.declaring then (unfinishedOn events subject).length + 1
      else (unfinishedOn events subject).length := by
  rw [unfinishedOn, Ledger.ofEvents_concat, Ledger.enter, Ledger.openedOn, List.filter_append]
  by_cases hsubject : subject = .ofCall live.receiver signature.declaring
  · simp [hsubject, unfinishedOn, Ledger.openedOn, Opening.subject]
  · simp [hsubject, Ne.symm hsubject, unfinishedOn, Ledger.openedOn, Opening.subject]

theorem unfinishedOn_finish (outcome : LiveOutcome) (live : LiveState) (answer : Answer)
    (accepted : Accepted) {o : Opening} (ho : o ∈ (Ledger.ofEvents events).unfinished) (subject : Subject) :
    (unfinishedOn (events ++ [.finish o.id outcome live answer accepted]) subject).length =
      if subject = o.subject then (unfinishedOn events subject).length - 1
      else (unfinishedOn events subject).length := by
  have hids := (List.nodup_append.1 (Ledger.ids_nodup events)).1
  have hleft : unfinishedOn (events ++ [.finish o.id outcome live answer accepted]) subject =
      (unfinishedOn events subject).filter fun o' => ¬ o'.id = o.id := by
    rw [unfinishedOn, Ledger.ofEvents_concat, Ledger.enter, Ledger.openedOn, List.filter_comm]
    rfl
  have hpart := List.length_eq_length_filter_add (l := unfinishedOn events subject)
    fun o' => decide (o'.id = o.id)
  have hself : (unfinishedOn events subject).filter (·.id = o.id) =
      [o].filter (·.subject = subject) := by
    rw [← filter_eq_singleton hids ho, unfinishedOn, Ledger.openedOn, List.filter_comm]
  rw [hleft]
  rw [hself] at hpart
  simp only [decide_not] at hpart ⊢
  by_cases hsubject : subject = o.subject
  · rw [List.filter_cons_of_pos (by simp [hsubject]), List.filter_nil, List.length_singleton] at hpart
    rw [if_pos hsubject]
    omega
  · rw [List.filter_cons_of_neg (by simp [Ne.symm hsubject]), List.filter_nil, List.length_nil] at hpart
    rw [if_neg hsubject]
    omega

theorem Overtaken.unfinishedOn (h : Overtaken subject events) : unfinishedOn events subject ≠ [] := by
  cases h with
  | @closed events hopen =>
    rw [Session.unfinishedOn, Ledger.ofEvents_concat]
    exact hopen
  | stays _ hopen => exact hopen

theorem overtaken_concat : Overtaken subject (events ++ [e]) ↔
    unfinishedOn (events ++ [e]) subject ≠ [] ∧ (Overtaken subject events ∨ e = .close) := by
  constructor
  · intro h
    refine ⟨h.unfinishedOn, ?_⟩
    generalize hall : events ++ [e] = all at h
    cases h with
    | closed _ => exact .inr (List.singleton_inj.1 (List.append_inj' hall rfl).2)
    | stays hold _ => exact .inl ((List.append_inj' hall rfl).1 ▸ hold)
  · rintro ⟨hopen, hold | rfl⟩
    · exact .stays hold hopen
    · rw [unfinishedOn, Ledger.ofEvents_concat] at hopen
      exact .closed hopen

theorem stranded_concat : Stranded budget subject (events ++ [e]) ↔
    (∃ o outcome live answer accepted, e = .finish o.id outcome live answer accepted ∧ Overtaken subject events ∧
      unfinishedOn events subject = [o] ∧
      ((after budget events).serves subject ∨ o.answer.failure? budget = none)) ∨
    Stranded budget subject events ∧ ¬ e.Reclaims subject := by
  constructor
  · intro h
    generalize hall : events ++ [e] = all at h
    cases h with
    | finish hover hopen hserved =>
      obtain ⟨rfl, heq⟩ := List.append_inj' hall rfl
      exact .inl ⟨_, _, _, _, _, List.singleton_inj.1 heq, hover, hopen, hserved⟩
    | stays hold hno =>
      obtain ⟨rfl, heq⟩ := List.append_inj' hall rfl
      exact .inr ⟨hold, List.singleton_inj.1 heq ▸ hno⟩
  · rintro (⟨o, outcome, live, answer, accepted, rfl, hover, hopen, hserved⟩ | ⟨hold, hno⟩)
    · exact .finish hover hopen hserved
    · exact .stays hold hno

/-! ### Steps and the books -/

theorem record_books (s : Session) (caller : CallerId) (add : Capture → Capture) :
    (s.record caller add).1.unfinished = s.unfinished ∧
      (s.record caller add).1.sequencer = s.sequencer := by
  cases htop : s.top? caller with
  | none => rw [record_of_no_top htop]; exact ⟨rfl, rfl⟩
  | some id => rw [record_of_top htop]; exact ⟨rfl, rfl⟩

/-- A capture that is finished was begun before; without it nothing happens. -/
theorem after_finish (h : Booked (after budget events)) (id : CaptureId) (outcome : LiveOutcome)
    (live : LiveState) (answer : Answer) (accepted : Accepted) :
    let s := after budget events
    let s' := after budget (events ++ [.finish id outcome live answer accepted])
    (s' = s ∧ (∀ o ∈ (Ledger.ofEvents events).unfinished, o.id ≠ id) ∧
      Ledger.ofEvents (events ++ [.finish id outcome live answer accepted]) = Ledger.ofEvents events) ∨
    ∃ o ∈ (Ledger.ofEvents events).unfinished, o.id = id ∧ Booked s' ∧
      (∀ subject, s'.tally subject = if subject = o.subject then s.tally subject - 1 else s.tally subject) ∧
      ∀ subject, s'.serves subject ↔
        (s.serves subject ∨ subject = o.subject ∧ o.answer.failure? budget = none) ∧
          (subject = o.subject → s.tally o.subject ≠ 1) := by
  intro s s'
  have hmirrors := after_mirrors budget events
  have hs' : s' = (s.finish id answer accepted).1 := after_concat _
  cases hc : s.capture? id with
  | none =>
    refine .inl ⟨by rw [hs', finish_of_none hc], fun o ho hid => ?_, ?_⟩
    · have hfound := hmirrors.capture? id
      rw [hc] at hfound
      have hnone := List.find?_eq_none.1 (rel_none_right hfound) o ho
      simp [hid] at hnone
    · rw [Ledger.ofEvents_concat, hmirrors.enter_finish_of_none hc]
  | some c =>
    have hids := (List.nodup_append.1 (Ledger.ids_nodup events)).1
    obtain ⟨o, ho, hid, htracks, -⟩ := hmirrors.enter_finish hids hc
    obtain ⟨hbooked, htally, hserves⟩ := finish_books h hc answer accepted
    rw [htracks.subject, htracks.isValid] at hserves
    rw [htracks.subject] at htally
    rw [after_budget] at hserves
    exact .inr ⟨o, ho, hid, hs' ▸ hbooked, hs' ▸ htally, hs' ▸ hserves⟩

/-- What the step `e` does to what a session counts of a subject and to what it should count. -/
def CountsStep (budget : ℕ) (events : List Event) (e : Event) (subject : Subject) : Prop :=
  let n := (after budget events).tally subject
  let n' := (after budget (events ++ [e])).tally subject
  let m := (unfinishedOn events subject).length
  let m' := (unfinishedOn (events ++ [e]) subject).length
  e = .close ∧ n' = 0 ∧ m' = m ∨
    e ≠ .close ∧ (n' = n ∧ m' = m ∨ n' = n + 1 ∧ m' = m + 1 ∨ n' = n - 1 ∧ m' = m - 1)

theorem countsStep_of_eq (hne : e ≠ .close)
    (hunfinished : (after budget (events ++ [e])).unfinished = (after budget events).unfinished)
    (hledger : Ledger.ofEvents (events ++ [e]) = Ledger.ofEvents events) (subject : Subject) :
    CountsStep budget events e subject := by
  refine .inr ⟨hne, .inl ⟨?_, ?_⟩⟩
  · rw [tally, hunfinished]
    rfl
  · rw [unfinishedOn, hledger]
    rfl

theorem step_books (h : Booked (after budget events)) (e : Event) :
    Booked (after budget (events ++ [e])) ∧ ∀ subject, CountsStep budget events e subject := by
  have hrecord : ∀ caller add, (after budget (events ++ [e])) = ((after budget events).record caller add).1 →
      Booked (after budget (events ++ [e])) ∧
        (after budget (events ++ [e])).unfinished = (after budget events).unfinished := by
    intro caller add heq
    obtain ⟨hunfinished, hsequencer⟩ := record_books (after budget events) caller add
    rw [← heq] at hunfinished hsequencer
    exact ⟨⟨hunfinished ▸ h.counts, hsequencer ▸ h.workers, hunfinished ▸ h.positive⟩, hunfinished⟩
  cases e with
  | begin caller signature live answer =>
    refine ⟨?_, fun subject => .inr ⟨Event.noConfusion, ?_⟩⟩
    · rw [after_concat]
      exact begin_booked h ..
    · rw [after_concat, next, tally_begin, unfinishedOn_begin]
      split
      · exact .inr (.inl ⟨rfl, rfl⟩)
      · exact .inl ⟨rfl, rfl⟩
  | input caller call =>
    obtain ⟨hbooked, hunfinished⟩ := hrecord caller _ (after_concat _)
    exact ⟨hbooked, countsStep_of_eq Event.noConfusion hunfinished (Ledger.ofEvents_concat _)⟩
  | output caller call =>
    obtain ⟨hbooked, hunfinished⟩ := hrecord caller _ (after_concat _)
    exact ⟨hbooked, countsStep_of_eq Event.noConfusion hunfinished (Ledger.ofEvents_concat _)⟩
  | finish id outcome live answer accepted =>
    rcases after_finish h id outcome live answer accepted with ⟨hsame, -, hledger⟩ | ⟨o, ho, rfl, hbooked, htally, -⟩
    · exact ⟨hsame ▸ h, countsStep_of_eq Event.noConfusion (congrArg unfinished hsame) hledger⟩
    · refine ⟨hbooked, fun subject => .inr ⟨Event.noConfusion, ?_⟩⟩
      rw [htally, unfinishedOn_finish outcome live answer accepted ho]
      split
      · exact .inr (.inr ⟨rfl, rfl⟩)
      · exact .inl ⟨rfl, rfl⟩
  | release other =>
    refine ⟨?_, countsStep_of_eq Event.noConfusion ?_ (Ledger.ofEvents_concat _)⟩
    · rw [after_concat]
      exact ⟨h.counts, nodup_dropEntry other h.workers, h.positive⟩
    · rw [after_concat]
      rfl
  | close =>
    refine ⟨?_, fun subject => .inl ⟨rfl, ?_, ?_⟩⟩
    · rw [after_concat]
      exact ⟨List.nodup_nil, List.nodup_nil, fun _ => Option.some_ne_none _ ∘ Eq.symm⟩
    · rw [after_concat]
      rfl
    · rw [unfinishedOn, Ledger.ofEvents_concat]
      rfl

/-- A subject is counted as it should be, or short of it if the session was closed over it. -/
structure Counted (budget : ℕ) (events : List Event) : Prop where
  booked : Booked (after budget events)
  exact : ∀ {subject}, ¬ Overtaken subject events →
    (after budget events).tally subject = (unfinishedOn events subject).length
  short : ∀ {subject}, Overtaken subject events →
    (after budget events).tally subject < (unfinishedOn events subject).length

theorem start_counted (budget : ℕ) : Counted budget [] where
  booked := ⟨List.nodup_nil, List.nodup_nil, fun _ => Option.some_ne_none _ ∘ Eq.symm⟩
  exact _ := rfl
  short h := absurd rfl h.unfinishedOn

theorem step_counted (h : Counted budget events) (e : Event) : Counted budget (events ++ [e]) := by
  obtain ⟨hbooked, hstep⟩ := step_books h.booked e
  refine ⟨hbooked, @fun subject hover => ?_, @fun subject hover => ?_⟩
  · rw [overtaken_concat, ← List.length_pos_iff_ne_nil] at hover
    by_cases hold : Overtaken subject events
    · have hshort := h.short hold
      have hclosed : (unfinishedOn (events ++ [e]) subject).length = 0 := by
        by_contra hpos
        exact hover ⟨Nat.pos_of_ne_zero hpos, .inl hold⟩
      rcases hstep subject with ⟨-, hstep⟩ | ⟨-, hstep⟩ <;> omega
    · have hexact := h.exact hold
      rcases hstep subject with ⟨rfl, hstep⟩ | ⟨-, hstep⟩
      · have hclosed : (unfinishedOn (events ++ [.close]) subject).length = 0 := by
          by_contra hpos
          exact hover ⟨Nat.pos_of_ne_zero hpos, .inr rfl⟩
        omega
      · omega
  · rw [overtaken_concat, ← List.length_pos_iff_ne_nil] at hover
    obtain ⟨hpos, hold⟩ := hover
    rcases hstep subject with ⟨-, hstep⟩ | ⟨hne, hstep⟩
    · omega
    · have hshort := h.short (hold.resolve_right hne)
      omega

theorem after_counted (budget : ℕ) (events : List Event) : Counted budget events := by
  induction events using List.reverseRecOn with
  | nil => exact start_counted budget
  | append_singleton events e ih => exact step_counted ih e

/-! ### Workers without a capture -/

theorem stranded_step (hserves : (after budget (events ++ [e])).serves subject ↔
      (after budget events).serves subject)
    (hopen : (unfinishedOn (events ++ [e]) subject).length = (unfinishedOn events subject).length)
    (hreclaims : ¬ e.Reclaims subject)
    (hfinish : ∀ o outcome live answer accepted, unfinishedOn events subject = [o] →
      e ≠ .finish o.id outcome live answer accepted)
    (h : (after budget events).serves subject ∧ unfinishedOn events subject = [] ↔
      Stranded budget subject events) :
    (after budget (events ++ [e])).serves subject ∧ unfinishedOn (events ++ [e]) subject = [] ↔
      Stranded budget subject (events ++ [e]) := by
  rw [stranded_concat, ← h, hserves, ← List.length_eq_zero_iff, ← List.length_eq_zero_iff, hopen]
  constructor
  · exact fun hleft => .inr ⟨hleft, hreclaims⟩
  · rintro (⟨o, outcome, live, answer, accepted, he, -, hone, -⟩ | ⟨hleft, -⟩)
    · exact absurd he (hfinish o outcome live answer accepted hone)
    · exact hleft

/-- A subject whose worker is gone, or that has a capture, is not stranded. -/
theorem reclaimed_step (hreclaims : e.Reclaims subject)
    (hleft : (after budget (events ++ [e])).serves subject → unfinishedOn (events ++ [e]) subject ≠ []) :
    (after budget (events ++ [e])).serves subject ∧ unfinishedOn (events ++ [e]) subject = [] ↔
      Stranded budget subject (events ++ [e]) := by
  rw [stranded_concat]
  refine iff_of_false (fun hboth => hleft hboth.1 hboth.2) ?_
  rintro (⟨o, outcome, live, answer, accepted, rfl, -⟩ | ⟨-, hno⟩)
  · exact hreclaims
  · exact hno hreclaims

theorem stranded_finish {o : Opening} (ho : o ∈ (Ledger.ofEvents events).unfinished)
    (outcome : LiveOutcome) (live : LiveState) (answer : Answer) (accepted : Accepted)
    (hserves : (after budget (events ++ [.finish o.id outcome live answer accepted])).serves o.subject ↔
      ((after budget events).serves o.subject ∨ o.answer.failure? budget = none) ∧
        (after budget events).tally o.subject ≠ 1)
    (h : (after budget events).serves o.subject ∧ unfinishedOn events o.subject = [] ↔
      Stranded budget o.subject events) :
    (after budget (events ++ [.finish o.id outcome live answer accepted])).serves o.subject ∧
        unfinishedOn (events ++ [.finish o.id outcome live answer accepted]) o.subject = [] ↔
      Stranded budget o.subject (events ++ [.finish o.id outcome live answer accepted]) := by
  have hcounted := after_counted budget events
  have hmem : o ∈ unfinishedOn events o.subject := List.mem_filter.2 ⟨ho, by simp⟩
  have hopen := unfinishedOn_finish outcome live answer accepted ho o.subject
  rw [if_pos rfl] at hopen
  have hpos := List.length_pos_of_mem hmem
  rw [stranded_concat, ← h, hserves, ← List.length_eq_zero_iff, hopen]
  constructor
  · rintro ⟨⟨hserved, htally⟩, hlast⟩
    obtain ⟨o', hone⟩ : ∃ o', unfinishedOn events o.subject = [o'] := List.length_eq_one_iff.1 (by omega)
    obtain rfl : o = o' := by simpa [hone] using hmem
    refine .inl ⟨o, outcome, live, answer, accepted, rfl, ?_, hone, hserved⟩
    by_contra hover
    rw [hcounted.exact hover, hone] at htally
    exact htally rfl
  · rintro (⟨o', _, _, _, _, -, hover, hone, hserved⟩ | ⟨⟨-, hnone⟩, -⟩)
    · obtain rfl : o = o' := by simpa [hone] using hmem
      have hshort := hcounted.short hover
      rw [hone, List.length_singleton] at hshort ⊢
      exact ⟨⟨hserved, by omega⟩, rfl⟩
    · rw [hnone] at hmem
      cases hmem

/-- Only one capture is finished, so nothing happens to other subjects than its own. -/
theorem stranded_other {o : Opening} (ho : o ∈ (Ledger.ofEvents events).unfinished)
    (outcome : LiveOutcome) (live : LiveState) (answer : Answer) (accepted : Accepted)
    (hsubject : subject ≠ o.subject)
    (hserves : (after budget (events ++ [.finish o.id outcome live answer accepted])).serves subject ↔
      (after budget events).serves subject)
    (h : (after budget events).serves subject ∧ unfinishedOn events subject = [] ↔
      Stranded budget subject events) :
    (after budget (events ++ [.finish o.id outcome live answer accepted])).serves subject ∧
        unfinishedOn (events ++ [.finish o.id outcome live answer accepted]) subject = [] ↔
      Stranded budget subject (events ++ [.finish o.id outcome live answer accepted]) := by
  refine stranded_step hserves ?_ not_false ?_ h
  · rw [unfinishedOn_finish outcome live answer accepted ho, if_neg hsubject]
  · intro o' outcome live answer accepted hone heq
    have hmem : o' ∈ unfinishedOn events subject := hone ▸ List.mem_singleton_self o'
    obtain ⟨ho', hsubject'⟩ := List.mem_filter.1 hmem
    have hids := (List.nodup_append.1 (Ledger.ids_nodup events)).1
    injection heq with hid
    obtain rfl := List.inj_on_of_nodup_map hids ho ho' hid
    exact hsubject (of_decide_eq_true hsubject').symm

theorem start_stranded (budget : ℕ) (subject : Subject) :
    (after budget []).serves subject ∧ unfinishedOn [] subject = [] ↔ Stranded budget subject [] := by
  refine iff_of_false (fun hboth => ?_) fun h => ?_
  · cases hboth.1
  · generalize hnil : ([] : List Event) = events at h
    cases h <;> simp at hnil

theorem stranded_iff (budget : ℕ) (events : List Event) (subject : Subject) :
    (after budget events).serves subject ∧ unfinishedOn events subject = [] ↔
      Stranded budget subject events := by
  induction events using List.reverseRecOn with
  | nil => exact start_stranded budget subject
  | append_singleton events e ih =>
    have hbooked := (after_counted budget events).booked
    cases e with
    | begin caller signature live answer =>
      have hopen := unfinishedOn_begin events caller signature live answer subject
      by_cases hsubject : subject = .ofCall live.receiver signature.declaring
      · refine reclaimed_step hsubject fun _ hnone => ?_
        rw [if_pos hsubject, hnone] at hopen
        cases hopen
      · rw [if_neg hsubject] at hopen
        refine stranded_step ?_ hopen hsubject (fun _ _ _ _ _ _ => Event.noConfusion) ih
        rw [after_concat]
        exact (serves_begin ..).trans (or_iff_right hsubject)
    | input caller call =>
      refine stranded_step ?_ ?_ not_false (fun _ _ _ _ _ _ => Event.noConfusion) ih
      · rw [after_concat, next, recordInput, serves, (record_books _ caller _).2]
        rfl
      · rw [unfinishedOn, Ledger.ofEvents_concat]
        rfl
    | output caller call =>
      refine stranded_step ?_ ?_ not_false (fun _ _ _ _ _ _ => Event.noConfusion) ih
      · rw [after_concat, next, recordOutput, serves, (record_books _ caller _).2]
        rfl
      · rw [unfinishedOn, Ledger.ofEvents_concat]
        rfl
    | finish id outcome live answer accepted =>
      rcases after_finish hbooked id outcome live answer accepted with
        ⟨hsame, hnone, hledger⟩ | ⟨o, ho, rfl, -, -, hserves⟩
      · refine stranded_step (by rw [hsame]) ?_ not_false ?_ ih
        · rw [unfinishedOn, hledger]
          rfl
        · intro o outcome live answer accepted hone heq
          cases heq
          have hmem : o ∈ unfinishedOn events subject := hone ▸ List.mem_singleton_self o
          exact hnone o (List.mem_filter.1 hmem).1 rfl
      · by_cases hsubject : subject = o.subject
        · subst hsubject
          exact stranded_finish ho outcome live answer accepted (by simpa using hserves o.subject) ih
        · exact stranded_other ho outcome live answer accepted hsubject (by rw [hserves]; simp [hsubject]) ih
    | release other =>
      by_cases hsubject : subject = other
      · refine reclaimed_step hsubject fun hleft => ?_
        rw [after_concat] at hleft
        exact absurd hsubject ((Sequencer.hasWorker_release hbooked.workers).1 hleft).1
      · refine stranded_step ?_ ?_ hsubject (fun _ _ _ _ _ _ => Event.noConfusion) ih
        · rw [after_concat]
          exact (Sequencer.hasWorker_release hbooked.workers).trans (and_iff_right hsubject)
        · rw [unfinishedOn, Ledger.ofEvents_concat]
          rfl
    | close =>
      refine reclaimed_step trivial fun hleft => ?_
      rw [after_concat] at hleft
      cases hleft

/-- A subject that is not stranded has a worker only while it has an unfinished capture, and so a session
with no capture in flight has workers left only for stranded subjects. -/
theorem idle_workers_stranded (budget : ℕ) (events : List Event) :
    let s := after budget events
    (∀ subject, s.serves subject ∧ unfinishedOn events subject = [] ↔ Stranded budget subject events) ∧
      (s.inFlight = 0 ∧ s.sequencer.workerCount ≠ 0 ↔
        s.inFlight = 0 ∧ ∃ subject, Stranded budget subject events) := by
  intro s
  refine ⟨stranded_iff budget events, and_congr_right fun hidle => ⟨fun hworkers => ?_, ?_⟩⟩
  · obtain ⟨subject, hserves⟩ := Sequencer.exists_hasWorker hworkers
    have hactive := (after_mirrors budget events).active.length_eq
    have hnone : (Ledger.ofEvents events).unfinished = [] :=
      List.length_eq_zero_iff.1 (hactive.trans hidle)
    refine ⟨subject, (stranded_iff budget events subject).1 ⟨hserves, ?_⟩⟩
    rw [unfinishedOn, Ledger.openedOn, hnone, List.filter_nil]
  · rintro ⟨subject, hstranded⟩
    exact Sequencer.workerCount_ne_zero ((stranded_iff budget events subject).2 hstranded).1

/-- A capture that is finished after the session was closed leaves its worker behind. -/
theorem closed_session_keeps_worker :
    let s := after 1000 [.begin 0 Sample.add Sample.live (.populated Sample.before.snapshot), .close,
      .finish 0 (.returned none) Sample.live (.populated Sample.aftermath.snapshot) (.ok ())]
    s.inFlight = 0 ∧ s.sequencer.workerCount = 1 := by
  decide +kernel

end Session

end Reenact
