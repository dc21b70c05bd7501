import Mathlib
import Reenact.Proofs.Isolation
import Reenact.Proofs.Population

/-!
What a session emits. Answers to populations are arbitrary, except that a snapshot that comes back
is what the population has made of the one it was given. Answers of the sink are arbitrary.
-/

namespace Reenact

/-- A snapshot is the answer only of a population that went well, and the one that it left. -/
def Answer.Of (p : Population.Result) (answer : Answer) : Prop :=
  ∀ s, answer = .populated s → p.answer = .ok () ∧ p.snapshot = s

theorem Answer.failure?_eq_none {budget : Nat} {answer : Answer} :
    answer.failure? budget = none ↔ ∃ s, answer = .populated s := by
  cases answer <;> simp [failure?]

/-- What the populations of a session share. -/
structure Setting where
  types : ClassTable
  serializers : SerializerRegistry
  globals : List GlobalRef

namespace Setting

variable (σ : Setting)

def setup (heap : Heap) (live : LiveState) (s : Snapshot) (i : Interner) : Population.Result :=
  Population.setup ⟨heap, σ.types, σ.serializers⟩ σ.globals live s i

def expect (heap : Heap) (c : Capture) (outcome : LiveOutcome) (live : LiveState) (i : Interner) :
    Population.Result :=
  Population.expect ⟨heap, σ.types, σ.serializers⟩ σ.globals live outcome c.inputs c.outputs
    c.snapshot i

end Setting

namespace Session

variable {σ : Setting} {budget : Nat} {events : List Event} {s : Session} {l : Ledger}

def Enabled (σ : Setting) (s : Session) : Event → Prop
  | .begin _ signature live answer =>
    ∃ heap i, answer.Of (σ.setup heap live (.new signature .empty) i)
  | .finish id outcome live answer _ =>
    ∀ c, s.capture? id = some c → ∃ heap i, answer.Of (σ.expect heap c outcome live i)
  | _ => True

inductive Execution (σ : Setting) (budget : Nat) : List Event → Prop where
  | start : Execution σ budget []
  | step {events e} : Execution σ budget events → Enabled σ (after budget events) e →
      Execution σ budget (events ++ [e])

/-- How finishing a capture is answered: with its first failure, if there is one, else with its id. -/
def verdict (budget : Nat) (id : CaptureId) (setup expect : Answer) : Except CaptureError CaptureId :=
  match (setup.failure? budget).or (expect.failure? budget) with
  | some e => .error e
  | none => .ok id

/-- What a finished capture hands over. -/
def Closing.snapshot? (c : Closing) : Option Snapshot :=
  match c.opening.answer, c.answer with
  | .populated _, .populated s => some s
  | _, _ => none

/-- What is logged of a finished capture: the refusal of the snapshot that it handed over. -/
def Closing.refusal? (c : Closing) : Option CaptureError :=
  c.snapshot?.bind fun _ => c.accepted.refusal?

/-- A snapshot as a capture is to hand it over. -/
structure Closing.Fulfilled (globals : List GlobalRef) (c : Closing) (s : Snapshot) : Prop where
  signature : s.signature = c.opening.signature
  valid : s.valid = true
  outcome : s.outcome ≠ .pending
  setup : Population.Complete s.graph globals c.opening.live s.setup
  expect : Population.Complete s.graph globals c.live s.expect
  nodes : s.graph.Contains (s.outcome.roots ++ (s.inputs ++ s.outputs).flatMap CallRecord.roots)

theorem Closing.snapshot?_eq_none {c : Closing}
    (h : c.opening.answer.failure? budget ≠ none ∨ c.answer.failure? budget ≠ none) :
    c.snapshot? = none := by
  unfold snapshot?
  split
  · next hopening hanswer => simp [hopening, hanswer, Answer.failure?] at h
  · rfl

theorem take_failure {c : Capture} (hc : c.failure = none) (answer : Answer) :
    (c.take budget answer).failure = answer.failure? budget := by
  cases answer <;> simp [Capture.take, Capture.fail, Answer.failure?, hc]

theorem capture_failure (o : Opening) : (o.capture budget).failure = o.answer.failure? budget :=
  take_failure rfl o.answer

theorem record_emitted (caller : CallerId) (add : Capture → Capture) :
    (s.record caller add).1.emitted = s.emitted ∧ (s.record caller add).1.refusals = s.refusals := by
  cases htop : s.top? caller with
  | none => rw [record_of_no_top htop]; exact ⟨rfl, rfl⟩
  | some id => rw [record_of_top htop]; exact ⟨rfl, rfl⟩

/-! ### The invariant -/

/-- The snapshot of a capture whose state before the call was captured. -/
def Opening.Captured (globals : List GlobalRef) (o : Opening) (s : Snapshot) : Prop :=
  ∃ g state, Population.Complete g globals o.live state ∧
    s = { Snapshot.new o.signature g with setup := state }

structure Emits (σ : Setting) (s : Session) (l : Ledger) : Prop where
  emitted : s.emitted = l.finished.filterMap fun c => c.snapshot?.map (c.opening.id, ·)
  refusals : s.refusals = l.finished.filterMap fun c => c.refusal?.map (c.opening.id, ·)
  opened : ∀ o ∈ l.unfinished, ∀ snapshot, o.answer = .populated snapshot →
    o.Captured σ.globals snapshot
  closed : ∀ c ∈ l.finished, ∀ snapshot, c.snapshot? = some snapshot →
    c.Fulfilled σ.globals snapshot

theorem captured_of_setup {o : Opening} {heap : Heap} {i : Interner}
    (h : o.answer.Of (σ.setup heap o.live (.new o.signature .empty) i)) {snapshot : Snapshot}
    (ho : o.answer = .populated snapshot) : o.Captured σ.globals snapshot := by
  obtain ⟨hok, rfl⟩ := h snapshot ho
  obtain ⟨g, state, hcomplete, hsnapshot⟩ := Population.setup_ok hok
  exact ⟨g, state, hcomplete, hsnapshot⟩

/-- A valid capture holds what the population before the call has made of it. -/
theorem Opening.Tracks.captured {o : Opening} {c : Capture} (htracks : o.Tracks budget c)
    (ho : ∀ snapshot, o.answer = .populated snapshot → o.Captured σ.globals snapshot)
    (hfailure : c.failure = none) : o.Captured σ.globals c.snapshot := by
  have hsetup : o.answer.failure? budget = none := by rw [← capture_failure, ← hfailure, htracks]
  obtain ⟨before, hbefore⟩ := Answer.failure?_eq_none.1 hsetup
  have hsnapshot : c.snapshot = before := by rw [htracks, Opening.capture, hbefore]; rfl
  exact hsnapshot ▸ ho before hbefore

theorem fulfilled_of_expect {c : Closing} {capture : Capture} {heap : Heap} {i : Interner}
    (ho : c.opening.Captured σ.globals capture.snapshot)
    (h : c.answer.Of (σ.expect heap capture c.outcome c.live i)) {snapshot : Snapshot}
    (hc : c.answer = .populated snapshot) : c.Fulfilled σ.globals snapshot := by
  obtain ⟨hok, rfl⟩ := h snapshot hc
  have hgrown : capture.snapshot.graph.Extended (σ.expect heap capture c.outcome c.live i).snapshot.graph :=
    Population.expect_extended ..
  obtain ⟨a, t, -, hwhole, hsnapshot⟩ := Population.expect_ok hok
  obtain ⟨g₀, state, hcomplete, hstart⟩ := ho
  rw [Setting.expect, hsnapshot, hstart] at hgrown ⊢
  refine ⟨rfl, rfl, hwhole.outcome, hcomplete.mono hgrown, hwhole.state, fun n hn => hwhole.nodes n ?_⟩
  rw [Population.Aftermath.roots, List.append_assoc]
  exact List.mem_append_right _ hn

/-! ### Finishing -/

/-- A capture whose state before the call was captured, if its population went well, hands over the snapshot
that it is to hand over, or its first failure. -/
theorem handOver_closing {c : Capture} {o : Opening} (htracks : o.Tracks budget c)
    (ho : ∀ snapshot, o.answer = .populated snapshot → o.Captured σ.globals snapshot)
    {outcome : LiveOutcome} {live : LiveState} {answer : Answer} (accepted : Accepted) {heap : Heap}
    {i : Interner} (hanswer : answer.Of (σ.expect heap c outcome live i)) :
    let d : Closing := ⟨o, outcome, live, answer, accepted⟩
    (∃ e, handOver budget c answer = .error e ∧ verdict budget o.id o.answer answer = .error e ∧
      d.snapshot? = none) ∨
    ∃ snapshot, handOver budget c answer = .ok snapshot ∧ verdict budget o.id o.answer answer = .ok o.id ∧
      d.snapshot? = some snapshot ∧ d.Fulfilled σ.globals snapshot := by
  intro d
  have hfailure : c.failure = o.answer.failure? budget := by
    rw [htracks]
    exact capture_failure o
  unfold handOver verdict
  rw [hfailure]
  cases hsetup : o.answer.failure? budget with
  | some e =>
    exact .inl ⟨e, rfl, rfl, Closing.snapshot?_eq_none (.inl (ne_of_eq_of_ne hsetup (Option.some_ne_none e)))⟩
  | none =>
    obtain ⟨before, hbefore⟩ := Answer.failure?_eq_none.1 hsetup
    rw [take_failure (hfailure.trans hsetup), Option.none_or]
    cases hexpect : answer.failure? budget with
    | some e =>
      exact .inl ⟨e, rfl, rfl, Closing.snapshot?_eq_none (.inr (ne_of_eq_of_ne hexpect (Option.some_ne_none e)))⟩
    | none =>
      obtain ⟨snapshot, hpopulated⟩ := Answer.failure?_eq_none.1 hexpect
      have hfulfilled : d.Fulfilled σ.globals snapshot :=
        fulfilled_of_expect (c := d) (htracks.captured ho (hfailure.trans hsetup)) hanswer hpopulated
      have htake : (c.take budget answer).snapshot = snapshot := by rw [hpopulated]; rfl
      have hsome : d.snapshot? = some snapshot := by
        unfold Closing.snapshot?
        simp only [d, hbefore, hpopulated]
      refine .inr ⟨snapshot, ?_, rfl, hsome, hfulfilled⟩
      simp only [htake, hfulfilled.valid, if_true]

/-- What finishing a capture does: it is answered by the verdict, and what the capture hands over is
emitted. -/
structure Finishing (σ : Setting) (s s' : Session) (reply : Except CaptureError CaptureId) (c : Closing) :
    Prop where
  reply : reply = verdict s.budget c.opening.id c.opening.answer c.answer
  emitted : s'.emitted = s.emitted ++ (c.snapshot?.map (c.opening.id, ·)).toList
  refusals : s'.refusals = s.refusals ++ (c.refusal?.map (c.opening.id, ·)).toList
  fulfilled : ∀ snapshot, c.snapshot? = some snapshot → c.Fulfilled σ.globals snapshot

theorem finish_finishing {id : CaptureId} {c : Capture} {o : Opening} (hc : s.capture? id = some c)
    (htracks : o.Tracks s.budget c)
    (ho : ∀ snapshot, o.answer = .populated snapshot → o.Captured σ.globals snapshot)
    {outcome : LiveOutcome} {live : LiveState} {answer : Answer} {accepted : Accepted}
    (he : Enabled σ s (.finish id outcome live answer accepted)) :
    Finishing σ s (s.finish id answer accepted).1 (s.finish id answer accepted).2
      ⟨o, outcome, live, answer, accepted⟩ := by
  obtain ⟨heap, i, hanswer⟩ := he c hc
  obtain ⟨hemitted, hrefusals, hreply⟩ := finish_spec hc answer accepted
  rw [htracks.id] at hemitted hrefusals hreply
  rcases handOver_closing htracks ho accepted hanswer with
    ⟨e, hhanded, hverdict, hnone⟩ | ⟨snapshot, hhanded, hverdict, hsome, hfulfilled⟩
  · rw [hhanded] at hemitted hrefusals hreply
    constructor
    · exact hreply.trans hverdict.symm
    · rw [hemitted, hnone]
      rfl
    · rw [hrefusals, Closing.refusal?, hnone]
      rfl
    · intro snapshot hsome
      cases hnone.symm.trans hsome
  · rw [hhanded] at hemitted hrefusals hreply
    constructor
    · exact hreply.trans hverdict.symm
    · rw [hemitted, hsome]
      rfl
    · rw [hrefusals, Closing.refusal?, hsome, ← Option.toList_map]
      rfl
    · intro snapshot' hsome'
      cases hsome.symm.trans hsome'
      exact hfulfilled

/-! ### Runs -/

theorem step_emits (hmirrors : Mirrors s l) (hids : (l.unfinished.map (·.id)).Nodup)
    (h : Emits σ s l) {e : Event} (he : Enabled σ s e) : Emits σ (s.next e) (l.enter e) := by
  have hrecord (caller : CallerId) (add : Capture → Capture) : Emits σ (s.record caller add).1 l :=
    { h with
      emitted := (record_emitted caller add).1.trans h.emitted
      refusals := (record_emitted caller add).2.trans h.refusals }
  cases e with
  | begin caller signature live answer =>
    obtain ⟨heap, i, hanswer⟩ := he
    rw [next, begin_eq, Ledger.enter]
    refine ⟨h.emitted, h.refusals, fun o ho snapshot hpopulated => ?_, h.closed⟩
    rcases List.mem_append.1 ho with ho | hnew
    · exact h.opened o ho snapshot hpopulated
    · cases List.mem_singleton.1 hnew
      exact captured_of_setup hanswer hpopulated
  | input caller call => exact hrecord caller _
  | output caller call => exact hrecord caller _
  | finish id outcome live answer accepted =>
    cases hc : s.capture? id with
    | none =>
      rw [hmirrors.enter_finish_of_none hc, next, finish_of_none hc]
      exact h
    | some c =>
      obtain ⟨o, ho, -, htracks, henter⟩ := hmirrors.enter_finish hids hc
      have hfinishing := finish_finishing hc htracks (h.opened o ho) he
      rw [henter]
      refine ⟨?_, ?_, fun o' ho' => h.opened o' (List.mem_filter.1 ho').1, fun c' hc' => ?_⟩
      · rw [next, hfinishing.emitted, h.emitted, List.filterMap_append, List.filterMap_cons, List.filterMap_nil]
        cases Closing.snapshot? ⟨o, outcome, live, answer, accepted⟩ <;> rfl
      · rw [next, hfinishing.refusals, h.refusals, List.filterMap_append, List.filterMap_cons,
          List.filterMap_nil]
        cases Closing.refusal? ⟨o, outcome, live, answer, accepted⟩ <;> rfl
      · rcases List.mem_append.1 hc' with hc' | hnew
        · exact h.closed c' hc'
        · cases List.mem_singleton.1 hnew
          exact hfinishing.fulfilled
  | release subject => exact { h with }
  | close => exact { h with }

theorem execution_emits (h : Execution σ budget events) :
    Emits σ (after budget events) (.ofEvents events) := by
  induction h with
  | start =>
    exact ⟨rfl, rfl, fun _ ho => absurd ho List.not_mem_nil, fun _ hc => absurd hc List.not_mem_nil⟩
  | @step events e _ he ih =>
    rw [after_concat, Ledger.ofEvents_concat]
    exact step_emits (after_mirrors budget events) (List.nodup_append.1 (Ledger.ids_nodup events)).1 ih he

theorem verdict_ok {id : CaptureId} {setup expect : Answer} :
    verdict budget id setup expect = .ok id ↔ ∃ s t, setup = .populated s ∧ expect = .populated t := by
  unfold verdict
  cases setup <;> cases expect <;> simp [Answer.failure?]

/-- Of what finished captures leave behind, one has left what it leaves. -/
theorem filter_left {α : Type} {cs : List Closing} (hids : (cs.map (·.opening.id)).Nodup)
    (left : Closing → Option α) {c : Closing} (hc : c ∈ cs) :
    ((cs.filterMap fun c => (left c).map (c.opening.id, ·)).filter (·.1 = c.opening.id)).map (·.2) =
      (left c).toList := by
  have hone : cs.filter (·.opening.id = c.opening.id) = [c] := filter_eq_singleton hids hc
  have hswap : (cs.filterMap fun c => (left c).map (c.opening.id, ·)).filter (·.1 = c.opening.id) =
      (cs.filter (·.opening.id = c.opening.id)).filterMap fun c => (left c).map (c.opening.id, ·) := by
    rw [List.filter_filterMap, List.filterMap_filter]
    congr 1
    funext d
    by_cases hd : d.opening.id = c.opening.id <;> cases left d <;> simp [hd]
  rw [hswap, hone, List.filterMap_cons]
  cases left c <;> rfl

/-- A capture is emitted once, with a snapshot of both its moments, if both its populations were
answered with one; else never. Finishing it is answered with its id, whatever the sink answers: that a
snapshot was refused is logged. -/
theorem emitted_exactly_once (h : Execution σ budget events) :
    let s := after budget events
    let l := Ledger.ofEvents events
    (∀ o ∈ l.unfinished, (∀ e ∈ s.emitted, e.1 ≠ o.id) ∧ ∀ outcome live answer accepted,
      Enabled σ s (.finish o.id outcome live answer accepted) →
        (s.finish o.id answer accepted).2 = verdict budget o.id o.answer answer) ∧
    (∀ c ∈ l.finished, (s.emitted.filter (·.1 = c.opening.id)).map (·.2) = c.snapshot?.toList ∧
      (s.refusals.filter (·.1 = c.opening.id)).map (·.2) = c.refusal?.toList ∧
      (c.snapshot?.isSome ↔
        verdict budget c.opening.id c.opening.answer c.answer = .ok c.opening.id) ∧
      ∀ snapshot, c.snapshot? = some snapshot → c.Fulfilled σ.globals snapshot) ∧
    ∀ id events', AgreeBut id events events' →
      (∀ other, other ≠ id → s.capture? other = (after budget events').capture? other) ∧
      s.emitted.filter (·.1 ≠ id) = (after budget events').emitted.filter (·.1 ≠ id) ∧
      s.refusals.filter (·.1 ≠ id) = (after budget events').refusals.filter (·.1 ≠ id) := by
  intro s l
  have hmirrors : Mirrors s l := after_mirrors budget events
  have hemits : Emits σ s l := execution_emits h
  have hids : l.ids.Nodup := Ledger.ids_nodup events
  obtain ⟨hunfinished, hfinished, hapart⟩ := List.nodup_append.1 hids
  have hbudget : s.budget = budget := after_budget budget events
  refine ⟨fun o ho => ⟨fun e he heq => ?_, fun outcome live answer accepted he => ?_⟩, fun c hc => ?_, ?_⟩
  · rw [hemits.emitted] at he
    obtain ⟨c, hc, hsnapshot⟩ := List.mem_filterMap.1 he
    obtain ⟨snapshot, -, rfl⟩ := Option.map_eq_some_iff.1 hsnapshot
    exact hapart o.id (List.mem_map_of_mem ho) _ (List.mem_map.2 ⟨c, hc, rfl⟩) heq.symm
  · obtain ⟨c, hc, htracks⟩ := hmirrors.capture hunfinished ho
    rw [(finish_finishing hc htracks (hemits.opened o ho) he).reply, hbudget]
  · refine ⟨?_, ?_, ?_, hemits.closed c hc⟩
    · rw [hemits.emitted]
      exact filter_left hfinished Closing.snapshot? hc
    · rw [hemits.refusals]
      exact filter_left hfinished Closing.refusal? hc
    · rw [verdict_ok]
      unfold Closing.snapshot?
      cases c.opening.answer <;> cases c.answer <;> simp
  · intro id events' hagree
    have halike := agree_alike budget hagree
    exact ⟨fun other hother => halike.capture?_eq hother, halike.emitted, halike.refusals⟩

/-! ### A call that reads a value, and a sink that is full -/

namespace Sample

def setting : Setting := ⟨.empty, Serialization.standard, []⟩

def add : Signature := ⟨.ofClass "List", "add", [.object], .primitive .bool⟩

def live : LiveState := ⟨some (.object 0), [.null], []⟩

def reading : LiveCall := ⟨.ofClass "Store", "next", [], [], some .null⟩

def subject : Subject := .receiver 0

def before : Population.Result :=
  setting.setup ⟨#[⟨.ofClass "ArrayList", .list [], false⟩]⟩ live (.new add .empty) .empty

def capture : Capture := ⟨0, 0, subject, before.snapshot, none, [reading], []⟩

def aftermath : Population.Result :=
  setting.expect ⟨#[⟨.ofClass "ArrayList", .list [.null], false⟩]⟩ capture
    (.returned (some (.scalar (.bool true)))) live before.interner

def steps : List Event :=
  [.begin 0 add live (.populated before.snapshot), .input 0 reading,
    .finish 0 (.returned (some (.scalar (.bool true)))) live (.populated aftermath.snapshot)
      (.error "full")]

theorem execution : Execution setting 1000 steps := by
  have hbegun : Enabled setting (after 1000 []) (.begin 0 add live (.populated before.snapshot)) :=
    ⟨_, _, fun s hs => by cases hs; exact ⟨by decide +kernel, rfl⟩⟩
  have hread : Execution setting 1000 _ := .step (.step .start hbegun) (e := .input 0 reading) trivial
  refine .step hread (e := .finish 0 _ live (.populated aftermath.snapshot) (.error "full")) ?_
  intro c hc
  obtain rfl : capture = c := Option.some.inj hc
  exact ⟨_, _, fun s hs => by cases hs; exact ⟨by decide +kernel, rfl⟩⟩

end Sample

theorem sample_emitted_once :
    (((after 1000 Sample.steps).emitted.filter (·.1 = 0)).map (·.2)).map (·.inputs.length) = [1] ∧
      ((after 1000 Sample.steps).refusals.filter (·.1 = 0)).map (·.2) = [.refused "full"] := by
  have hfinished := (emitted_exactly_once Sample.execution).2.1
    ⟨⟨0, 0, Sample.add, Sample.live, .populated Sample.before.snapshot⟩,
      .returned (some (.scalar (.bool true))), Sample.live, .populated Sample.aftermath.snapshot,
      .error "full"⟩
    (List.mem_singleton.2 rfl)
  rw [hfinished.1, hfinished.2.1]
  exact ⟨by decide +kernel, by decide +kernel⟩

end Session

end Reenact
