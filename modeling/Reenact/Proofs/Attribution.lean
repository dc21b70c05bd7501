import Reenact.Proofs.Emission
import Reenact.Proofs.Phases

/-!
Attribution of nested calls. A call that is recorded goes to the capture on top of its caller's
stack, and it turns up in that capture's snapshot, in order, and in no other.
-/

namespace Reenact

/-- Nested calls are recorded as what the observed code reads, or as what it does. -/
inductive Side where
  | input | output
  deriving DecidableEq

def Capture.calls (c : Capture) : Side → List LiveCall
  | .input => c.inputs
  | .output => c.outputs

def Snapshot.records (s : Snapshot) : Side → List CallRecord
  | .input => s.inputs
  | .output => s.outputs

def Capture.push (side : Side) (call : LiveCall) (c : Capture) : Capture :=
  match side with
  | .input => { c with inputs := c.inputs ++ [call] }
  | .output => { c with outputs := c.outputs ++ [call] }

theorem Capture.calls_push (side side' : Side) (call : LiveCall) (c : Capture) :
    (c.push side' call).calls side = c.calls side ++ if side = side' then [call] else [] := by
  cases side <;> cases side' <;> simp [push, calls]

@[simp]
theorem Capture.push_id (side : Side) (call : LiveCall) (c : Capture) : (c.push side call).id = c.id := by
  cases side <;> rfl

namespace Session

variable {σ : Setting} {budget : Nat} {events : List Event} {s : Session}

def Event.call? (side : Side) : Event → Option (CallerId × LiveCall)
  | .input caller call => if side = .input then some (caller, call) else none
  | .output caller call => if side = .output then some (caller, call) else none
  | _ => none

def answers (s : Session) (caller : CallerId) (call : LiveCall) : Side → Bool
  | .input => (s.recordInput caller call).2
  | .output => (s.recordOutput caller call).2

/-- The call that a step records in a capture: the capture is on top of the caller's stack, and
valid. -/
def recordedBy (side : Side) (s : Session) (id : CaptureId) (e : Event) : Option LiveCall :=
  match e.call? side with
  | some (caller, call) =>
    if s.top? caller = some id ∧ (s.capture? id).any (·.isValid) then some call else none
  | none => none

/-- The calls that are recorded in a capture, with the positions of their steps. -/
def recordedIn (side : Side) (budget : Nat) (events : List Event) (id : CaptureId) :
    List (Nat × LiveCall) :=
  (List.range events.length).filterMap fun n =>
    (events[n]?.bind (recordedBy side (after budget (events.take n)) id)).map (n, ·)

theorem recordedIn_concat (side : Side) (budget : Nat) (events : List Event) (id : CaptureId) (e : Event) :
    recordedIn side budget (events ++ [e]) id = recordedIn side budget events id ++
      ((recordedBy side (after budget events) id e).map (events.length, ·)).toList := by
  have hold : ∀ n ∈ List.range events.length,
      ((events ++ [e])[n]?.bind (recordedBy side (after budget ((events ++ [e]).take n)) id)).map (n, ·) =
        (events[n]?.bind (recordedBy side (after budget (events.take n)) id)).map (n, ·) := by
    intro n hn
    have hlt := List.mem_range.1 hn
    rw [List.getElem?_append_left hlt, List.take_append_of_le_length hlt.le]
  unfold recordedIn
  rw [List.length_append, List.length_singleton, List.range_succ, List.filterMap_append,
    List.filterMap_congr hold]
  congr 1
  simp only [List.filterMap_cons, List.filterMap_nil, List.getElem?_concat_length, Option.bind_some,
    List.take_left]
  cases recordedBy side (after budget events) id e <;> rfl

theorem record_reply (s : Session) (caller : CallerId) (add : Capture → Capture) :
    (s.record caller add).2 = true ↔
      ∃ id, s.top? caller = some id ∧ (s.capture? id).any (·.isValid) := by
  cases htop : s.top? caller with
  | none => simp [record_of_no_top htop]
  | some id =>
    unfold record
    rw [htop, Option.bind_some]
    cases hc : s.capture? id with
    | none => simp [hc]
    | some c => by_cases hvalid : c.isValid <;> simp [hc, hvalid]

/-- A call is recorded exactly if some capture records it. -/
theorem answers_iff (s : Session) (caller : CallerId) (call : LiveCall) (side : Side) :
    s.answers caller call side = true ↔
      ∃ id, s.top? caller = some id ∧ (s.capture? id).any (·.isValid) := by
  cases side
  · exact record_reply s caller _
  · exact record_reply s caller _

/-! ### Calls of unfinished captures -/

theorem mem_active_record {caller : CallerId} {call : LiveCall} {c' : Capture} (side' : Side)
    (h : c' ∈ (s.record caller (Capture.push side' call)).1.active) :
    ∃ c ∈ s.active, c'.id = c.id ∧ ∀ side, c'.calls side = c.calls side ++
      if side = side' ∧ s.top? caller = some c.id ∧ (s.capture? c.id).any (·.isValid) then [call]
      else [] := by
  cases htop : s.top? caller with
  | none =>
    rw [record_of_no_top htop] at h
    exact ⟨c', h, rfl, by simp⟩
  | some id =>
    rw [record_of_top htop] at h
    obtain ⟨c, hc, rfl⟩ := List.mem_map.1 h
    refine ⟨c, hc, ?_⟩
    by_cases hid : c.id = id
    · subst hid
      rw [if_pos rfl]
      by_cases hvalid : (s.capture? c.id).any (·.isValid) = true
      · simp [hvalid, Capture.calls_push]
      · simp [hvalid]
    · rw [if_neg hid]
      simp [Ne.symm hid]

theorem recordedBy_input (side : Side) (s : Session) (id : CaptureId) (caller : CallerId)
    (call : LiveCall) : recordedBy side s id (.input caller call) =
      if side = .input ∧ s.top? caller = some id ∧ (s.capture? id).any (·.isValid) then some call
      else none := by
  cases side <;> simp [recordedBy, Event.call?]

theorem recordedBy_output (side : Side) (s : Session) (id : CaptureId) (caller : CallerId)
    (call : LiveCall) : recordedBy side s id (.output caller call) =
      if side = .output ∧ s.top? caller = some id ∧ (s.capture? id).any (·.isValid) then some call
      else none := by
  cases side <;> simp [recordedBy, Event.call?]

/-- A step adds to the calls of an unfinished capture what it records there. -/
theorem mem_active_next {e : Event} {c' : Capture} (side : Side) (h : c' ∈ (s.next e).active) :
    (∃ c ∈ s.active, c'.id = c.id ∧
      c'.calls side = c.calls side ++ (recordedBy side s c.id e).toList) ∨
    c'.id = s.begun ∧ c'.calls side = [] ∧ recordedBy side s s.begun e = none := by
  cases e with
  | begin caller signature live answer =>
    rw [next, begin_eq] at h
    rcases List.mem_append.1 h with hold | hnew
    · exact .inl ⟨c', hold, rfl, (List.append_nil _).symm⟩
    · rw [List.mem_singleton.1 hnew]
      refine .inr ⟨take_id .., ?_, rfl⟩
      cases answer <;> cases side <;> rfl
  | input caller call =>
    obtain ⟨c, hc, hid, hcalls⟩ := mem_active_record .input h
    refine .inl ⟨c, hc, hid, ?_⟩
    rw [hcalls side, recordedBy_input]
    split <;> rfl
  | output caller call =>
    obtain ⟨c, hc, hid, hcalls⟩ := mem_active_record .output h
    refine .inl ⟨c, hc, hid, ?_⟩
    rw [hcalls side, recordedBy_output]
    split <;> rfl
  | finish id outcome live answer accepted =>
    refine .inl ⟨c', ?_, rfl, (List.append_nil _).symm⟩
    rw [next] at h
    cases hc : s.capture? id with
    | none => rwa [finish_of_none hc] at h
    | some c =>
      rw [finish_eq hc] at h
      exact (List.mem_filter.1 h).1
  | release subject => exact .inl ⟨c', h, rfl, (List.append_nil _).symm⟩
  | close => exact .inl ⟨c', h, rfl, (List.append_nil _).symm⟩

theorem Mirrors.top_mem {l : Ledger} (h : Mirrors s l) {caller : CallerId} {id : CaptureId}
    (htop : s.top? caller = some id) : ∃ o ∈ l.unfinished, o.id = id ∧ o.caller = caller := by
  rw [top?, h.nesting, List.head?_reverse] at htop
  obtain ⟨o, ho, hid⟩ := List.mem_map.1 (List.mem_of_getLast? htop)
  obtain ⟨hmem, hcaller⟩ := List.mem_filter.1 ho
  exact ⟨o, hmem, hid, of_decide_eq_true hcaller⟩

theorem recordedBy_eq_none {l : Ledger} (h : Mirrors s l) {id : CaptureId}
    (hid : id ∉ l.unfinished.map (·.id)) (side : Side) (e : Event) : recordedBy side s id e = none := by
  unfold recordedBy
  split
  · refine if_neg fun hcond => hid ?_
    obtain ⟨o, ho, heq, -⟩ := h.top_mem hcond.1
    exact List.mem_map.2 ⟨o, ho, heq⟩
  · rfl

theorem recordedIn_eq_nil (side : Side) {id : CaptureId} (hid : (Ledger.ofEvents events).begun ≤ id) :
    recordedIn side budget events id = [] := by
  induction events using List.reverseRecOn with
  | nil => rfl
  | append_singleton events e ih =>
    rw [Ledger.ofEvents_concat] at hid
    have hle := (Ledger.begun_le_enter _ e).trans hid
    have hnone : recordedBy side (after budget events) id e = none := by
      refine recordedBy_eq_none (after_mirrors budget events) (fun hmem => ?_) side e
      exact absurd (Ledger.lt_begun (List.mem_append_left _ hmem)) (not_lt.2 hle)
    rw [recordedIn_concat, ih hle, hnone]
    rfl

theorem active_calls (side : Side) (budget : Nat) (events : List Event) {c : Capture}
    (hc : c ∈ (after budget events).active) :
    c.calls side = (recordedIn side budget events c.id).map (·.2) := by
  induction events using List.reverseRecOn generalizing c with
  | nil => cases hc
  | append_singleton events e ih =>
    rw [after_concat] at hc
    rw [recordedIn_concat, List.map_append]
    rcases mem_active_next side hc with ⟨c₀, hc₀, hid, hcalls⟩ | ⟨hid, hcalls, hnone⟩
    · rw [hcalls, hid, ih hc₀]
      congr 1
      cases recordedBy side (after budget events) c₀.id e <;> rfl
    · have hbegun := (after_mirrors budget events).begun
      rw [hcalls, hid, hnone, recordedIn_eq_nil side hbegun.ge]
      rfl

/-! ### Records of emitted snapshots -/

theorem handOver_ok {c : Capture} {answer : Answer} {snapshot : Snapshot}
    (h : handOver budget c answer = .ok snapshot) :
    c.failure = none ∧ answer = .populated snapshot := by
  unfold handOver at h
  split at h
  · cases h
  · next hnone =>
    obtain ⟨hc, htake⟩ := Option.or_eq_none_iff.1 hnone
    rw [take_failure hc] at htake
    obtain ⟨s, rfl⟩ := Answer.failure?_eq_none.1 htake
    split at h
    · exact ⟨hc, congrArg Answer.populated (Except.ok.inj h)⟩
    · cases h

theorem mem_emitted_next {e : Event} {n : CaptureId × Snapshot} (h : n ∈ (s.next e).emitted) :
    n ∈ s.emitted ∨ ∃ c outcome live accepted, e = .finish c.id outcome live (.populated n.2) accepted ∧
      s.capture? c.id = some c ∧ c.failure = none ∧ n.1 = c.id := by
  cases e with
  | begin caller signature live answer =>
    rw [next, begin_eq] at h
    exact .inl h
  | input caller call => exact .inl ((record_emitted caller _).1 ▸ h)
  | output caller call => exact .inl ((record_emitted caller _).1 ▸ h)
  | finish id outcome live answer accepted =>
    rw [next] at h
    cases hc : s.capture? id with
    | none =>
      rw [finish_of_none hc] at h
      exact .inl h
    | some c =>
      have hid : c.id = id := id_of_capture? hc
      rw [(finish_spec hc answer accepted).emitted] at h
      refine (List.mem_append.1 h).imp_right fun hnew => ?_
      obtain ⟨snapshot, hsnapshot, rfl⟩ := List.mem_map.1 hnew
      cases hover : handOver s.budget c answer with
      | error e => rw [hover] at hsnapshot; cases hsnapshot
      | ok handed =>
        rw [hover] at hsnapshot
        obtain rfl := List.mem_singleton.1 hsnapshot
        obtain ⟨hfailure, rfl⟩ := handOver_ok hover
        exact ⟨c, outcome, live, accepted, by rw [hid], hid ▸ hc, hfailure, rfl⟩
  | release subject => exact .inl h
  | close => exact .inl h

/-- The snapshot of a finished capture tells of these calls, of each of them once, and in order. -/
structure Closing.Tells (σ : Setting) (heap : Heap) (c : Closing) (calls : Side → List LiveCall)
    (s : Snapshot) : Prop where
  /-- The population after the call was run on the calls, and on no others. -/
  run : ∃ g i a t, Population.aftermath ⟨heap, σ.types, σ.serializers⟩ c.opening.signature σ.globals c.live
    c.outcome (calls .input) (calls .output) (.start g i) = (.ok a, t) ∧
      s.graph = t.graph ∧ s.inputs = a.inputs ∧ s.outputs = a.outputs
  each : ∀ side, List.Forall₂ (Population.Recorded ⟨heap, σ.types, σ.serializers⟩ s.graph) (calls side)
    (s.records side)
  /-- Each record of the default serializers shows what was passed in its call. Objects in calls out of the
  observed code have the nodes that they have in the state after the call. -/
  retold : ∀ fallback, σ.serializers = Serialization.defaults fallback →
    ∃ met : Side → ObjectId → NodeId → Prop, (∀ side, Captured heap σ.types s.graph (met side) ∧
      List.Forall₂ (Population.Retells s.graph (met side)) (calls side) (s.records side)) ∧
      Population.Portrays s.graph (met .output) σ.globals c.live s.expect

theorem tells_of_expect {d : Closing} {c : Capture} {heap : Heap} {i : Interner}
    (ho : d.opening.Captured σ.globals c.snapshot) {snapshot : Snapshot}
    (h : (Answer.populated snapshot).Of (σ.expect heap c d.outcome d.live i)) :
    d.Tells σ heap c.calls snapshot := by
  obtain ⟨hok, rfl⟩ := h snapshot rfl
  obtain ⟨g₀, state, -, hstart⟩ := ho
  unfold Setting.expect at hok ⊢
  rw [hstart] at hok ⊢
  constructor
  · obtain ⟨a, t, hrun, -, hsnapshot⟩ := Population.expect_ok hok
    rw [hsnapshot]
    exact ⟨_, i, a, t, hrun, rfl, rfl, rfl⟩
  · obtain ⟨a, t, -, hwhole, hsnapshot⟩ := Population.expect_ok hok
    rw [hsnapshot]
    intro side
    cases side with
    | input => exact hwhole.inputs
    | output => exact hwhole.outputs
  · intro fallback hdefaults
    rw [hdefaults] at hok ⊢
    obtain ⟨a, g, met, met', last, hsnapshot, hcaptures⟩ := Population.expect_captures hok
    rw [hsnapshot]
    refine ⟨fun side => match side with | .input => met' | .output => met, fun side => ?_, hcaptures.state⟩
    cases side with
    | input => exact ⟨hcaptures.captured'.captured, hcaptures.inputs⟩
    | output => exact ⟨hcaptures.captured.captured, hcaptures.outputs⟩

theorem Ledger.finished_subset_enter (l : Ledger) (e : Event) : l.finished ⊆ (l.enter e).finished := by
  cases e with
  | finish => exact List.subset_append_left _ _
  | _ => exact List.Subset.refl _

theorem emitted_tells (h : Execution σ budget events) :
    ∀ e ∈ (after budget events).emitted, ∃ c ∈ (Ledger.ofEvents events).finished, c.opening.id = e.1 ∧
      ∃ heap, c.Tells σ heap (fun side => (recordedIn side budget events e.1).map (·.2)) e.2 := by
  induction h with
  | start => exact fun e he => absurd he List.not_mem_nil
  | @step events e hrun he ih =>
    have hmirrors := after_mirrors budget events
    have hemits := execution_emits hrun
    obtain ⟨hunfinished, -, hapart⟩ := List.nodup_append.1 (Ledger.ids_nodup events)
    intro n hn
    -- what the last step adds to the calls of the capture
    suffices htells : ∃ c ∈ ((Ledger.ofEvents events).enter e).finished, c.opening.id = n.1 ∧ ∃ heap,
        c.Tells σ heap (fun side => (recordedIn side budget events n.1).map (·.2)) n.2 ∧
          ∀ side, recordedBy side (after budget events) n.1 e = none by
      obtain ⟨c, hc, hid, heap, htold, hnothing⟩ := htells
      rw [Ledger.ofEvents_concat]
      refine ⟨c, hc, hid, heap, ?_⟩
      have hsame : ∀ side, recordedIn side budget (events ++ [e]) n.1 = recordedIn side budget events n.1 := by
        intro side
        rw [recordedIn_concat, hnothing side]
        exact List.append_nil _
      simpa only [hsame] using htold
    rw [after_concat] at hn
    rcases mem_emitted_next hn with hold | ⟨c, outcome, live, accepted, rfl, hc, hfailure, hid⟩
    · -- a capture that is emitted records nothing any more
      obtain ⟨d, hd, hdid, heap, htold⟩ := ih n hold
      have hgone : n.1 ∉ (Ledger.ofEvents events).unfinished.map (·.id) :=
        fun hmem => hapart _ hmem _ (List.mem_map.2 ⟨d, hd, hdid⟩) rfl
      exact ⟨d, Ledger.finished_subset_enter _ e hd, hdid, heap, htold,
        fun side => recordedBy_eq_none hmirrors hgone side e⟩
    · obtain ⟨o, ho, hoid, htracks, henter⟩ := hmirrors.enter_finish hunfinished hc
      obtain ⟨heap, i, hanswer⟩ := he c hc
      have htold := tells_of_expect (d := ⟨o, outcome, live, .populated n.2, accepted⟩)
        (htracks.captured (hemits.opened o ho) hfailure) hanswer
      have hcalls : c.calls = fun side => (recordedIn side budget events n.1).map (·.2) := by
        funext side
        rw [active_calls side budget events (List.mem_of_find?_eq_some hc), hid]
      rw [hcalls] at htold
      rw [henter]
      exact ⟨_, List.mem_append_right _ (List.mem_singleton_self _), hoid.trans hid.symm, heap, htold,
        fun _ => rfl⟩

theorem mem_recordedIn {side : Side} {id : CaptureId} {n : Nat} {call : LiveCall} :
    (n, call) ∈ recordedIn side budget events id ↔
      ∃ caller, events[n]?.bind (Event.call? side) = some (caller, call) ∧
        (after budget (events.take n)).top? caller = some id ∧
        ((after budget (events.take n)).capture? id).any (·.isValid) := by
  have hrecorded (e : Event) (s : Session) : recordedBy side s id e = some call ↔
      ∃ caller, e.call? side = some (caller, call) ∧ s.top? caller = some id ∧
        (s.capture? id).any (·.isValid) := by
    unfold recordedBy
    cases e.call? side with
    | none => simp
    | some at' => obtain ⟨caller, call'⟩ := at'; simp; tauto
  unfold recordedIn
  rw [List.mem_filterMap]
  constructor
  · rintro ⟨m, -, hm⟩
    obtain ⟨call', hcall, heq⟩ := Option.map_eq_some_iff.1 hm
    cases heq
    obtain ⟨e, he, hrec⟩ := Option.bind_eq_some_iff.1 hcall
    obtain ⟨caller, hcaller, hcond⟩ := (hrecorded e _).1 hrec
    exact ⟨caller, by rw [he, Option.bind_some, hcaller], hcond⟩
  · rintro ⟨caller, hcaller, hcond⟩
    obtain ⟨e, he, hcall⟩ := Option.bind_eq_some_iff.1 hcaller
    have hlt : n < events.length := (List.getElem?_eq_some_iff.1 he).1
    refine ⟨n, List.mem_range.2 hlt, ?_⟩
    rw [he, Option.bind_some, (hrecorded e _).2 ⟨caller, hcall, hcond⟩]
    rfl

/-- Every call that is recorded goes to one capture, on top of the stack of the caller, and the emitted
snapshot of a finished capture tells of the calls that went to it, of each of them once, and in order. -/
theorem calls_attributed_once (h : Execution σ budget events) :
    (∀ e ∈ (after budget events).emitted, ∃ c ∈ (Ledger.ofEvents events).finished, c.opening.id = e.1 ∧
      ∃ heap, c.Tells σ heap (fun side => (recordedIn side budget events e.1).map (·.2)) e.2) ∧
    (∀ side n caller call, events[n]?.bind (Event.call? side) = some (caller, call) →
      ((after budget (events.take n)).answers caller call side = true ↔
        ∃! id, (n, call) ∈ recordedIn side budget events id)) ∧
    ∀ side id n call, (n, call) ∈ recordedIn side budget events id →
      ∃ o ∈ (Ledger.ofEvents (events.take n)).unfinished, o.id = id ∧
        events[n]?.bind (Event.call? side) = some (o.caller, call) := by
  refine ⟨emitted_tells h, fun side n caller call hcall => ?_, fun side id n call hmem => ?_⟩
  · rw [answers_iff]
    constructor
    · rintro ⟨id, htop, hvalid⟩
      refine ⟨id, mem_recordedIn.2 ⟨caller, hcall, htop, hvalid⟩, fun id' hid' => ?_⟩
      obtain ⟨caller', hcall', htop', -⟩ := mem_recordedIn.1 hid'
      cases hcall.symm.trans hcall'
      exact Option.some.inj (htop'.symm.trans htop)
    · rintro ⟨id, hid, -⟩
      obtain ⟨caller', hcall', hcond⟩ := mem_recordedIn.1 hid
      cases hcall.symm.trans hcall'
      exact ⟨id, hcond⟩
  · obtain ⟨caller, hcall, htop, -⟩ := mem_recordedIn.1 hmem
    obtain ⟨o, ho, hid, hcaller⟩ := (after_mirrors budget (events.take n)).top_mem htop
    exact ⟨o, ho, hid, hcaller ▸ hcall⟩

theorem sample_reading_attributed : ∃ e ∈ (after 1000 Sample.steps).emitted, ∃ heap met,
    Captured heap .empty e.2.graph met ∧
      List.Forall₂ (Population.Retells e.2.graph met) [Sample.reading] e.2.inputs := by
  have hall : (after 1000 Sample.steps).emitted = [(0, Sample.aftermath.snapshot)] :=
    (execution_emits Sample.execution).emitted
  have hemitted : (0, Sample.aftermath.snapshot) ∈ (after 1000 Sample.steps).emitted :=
    hall ▸ List.mem_singleton_self _
  obtain ⟨c, -, -, heap, htold⟩ := (calls_attributed_once Sample.execution).1 _ hemitted
  have hcalls : recordedIn .input 1000 Sample.steps 0 = [(1, Sample.reading)] := by decide +kernel
  obtain ⟨met, hmet, -⟩ := htold.retold true rfl
  obtain ⟨hcaptured, hretells⟩ := hmet .input
  rw [hcalls] at hretells
  exact ⟨_, hemitted, heap, met .input, hcaptured, hretells⟩

end Session

end Reenact
