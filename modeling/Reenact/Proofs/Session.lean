import Reenact.Capture.Session
import Reenact.Proofs.Assoc

/-!
Sessions over whole sequences of events. A ledger is kept of the events alone: which captures have
begun, and which of them are finished. What a session holds of its captures is what the ledger says.
-/

namespace Reenact

open scoped List

namespace Session

/-- A step of a session, with the answers that it gets: to the population that belongs to it, and to the
snapshot that it may hand over. -/
inductive Event where
  | begin (caller : CallerId) (signature : Signature) (live : LiveState) (answer : Answer)
  | input (caller : CallerId) (call : LiveCall)
  | output (caller : CallerId) (call : LiveCall)
  | finish (id : CaptureId) (outcome : LiveOutcome) (live : LiveState) (answer : Answer)
    (accepted : Accepted)
  | release (subject : Subject)
  | close

def next (s : Session) : Event → Session
  | .begin caller signature live answer =>
    (s.begin caller signature (.ofCall live.receiver signature.declaring) answer).1
  | .input caller call => (s.recordInput caller call).1
  | .output caller call => (s.recordOutput caller call).1
  | .finish id _ _ answer accepted => (s.finish id answer accepted).1
  | .release subject => (s.release subject).1
  | .close => s.close

def after (budget : Nat) (events : List Event) : Session := events.foldl next (.start budget)

theorem filter_eq_singleton {α : Type} {f : α → ℕ} {xs : List α} {x : α} (hxs : (xs.map f).Nodup)
    (hx : x ∈ xs) : xs.filter (f · = f x) = [x] := by
  induction xs with
  | nil => cases hx
  | cons y ys ih =>
    rw [List.map_cons, List.nodup_cons] at hxs
    rcases List.mem_cons.1 hx with rfl | hx
    · have hrest : ys.filter (f · = f x) = [] :=
        List.filter_eq_nil_iff.2 fun y hy heq =>
          hxs.1 (List.mem_map.2 ⟨y, hy, of_decide_eq_true heq⟩)
      rw [List.filter_cons_of_pos (by simp), hrest]
    · have hne : f y ≠ f x := fun heq => hxs.1 (heq ▸ List.mem_map_of_mem hx)
      rw [List.filter_cons_of_neg (by simpa using hne), ih hxs.2 hx]

/-! ### The ledger -/

/-- How a capture began. -/
structure Opening where
  id : CaptureId
  caller : CallerId
  signature : Signature
  live : LiveState
  answer : Answer

/-- How a capture was finished. -/
structure Closing where
  opening : Opening
  outcome : LiveOutcome
  live : LiveState
  answer : Answer
  accepted : Accepted

/-- The captures of a sequence of events, in the order in which they began and were finished. -/
structure Ledger where
  begun : Nat
  unfinished : List Opening
  finished : List Closing

namespace Ledger

def enter (l : Ledger) : Event → Ledger
  | .begin caller signature live answer =>
    { l with
      begun := l.begun + 1
      unfinished := l.unfinished ++ [⟨l.begun, caller, signature, live, answer⟩] }
  | .finish id outcome live answer accepted =>
    { l with
      unfinished := l.unfinished.filter (·.id ≠ id)
      finished := l.finished ++
        (l.unfinished.filter (·.id = id)).map fun o => ⟨o, outcome, live, answer, accepted⟩ }
  | _ => l

def ofEvents (events : List Event) : Ledger := events.foldl enter ⟨0, [], []⟩

def ids (l : Ledger) : List CaptureId :=
  l.unfinished.map (·.id) ++ l.finished.map (·.opening.id)

/-- The unfinished captures of a caller, in the order in which they began. -/
def openedBy (l : Ledger) (caller : CallerId) : List Opening :=
  l.unfinished.filter (·.caller = caller)

end Ledger

variable {budget : Nat} {events : List Event} {s : Session} {l : Ledger}

@[simp]
theorem after_concat (e : Event) : after budget (events ++ [e]) = (after budget events).next e := by
  rw [after, List.foldl_append]
  rfl

@[simp]
theorem Ledger.ofEvents_concat (e : Event) :
    Ledger.ofEvents (events ++ [e]) = (Ledger.ofEvents events).enter e := by
  rw [ofEvents, List.foldl_append]
  rfl

theorem Ledger.begun_le_enter (l : Ledger) (e : Event) : l.begun ≤ (l.enter e).begun := by
  cases e with
  | begin => exact Nat.le_succ _
  | _ => exact le_rfl

/-- Every capture begun is either unfinished or finished, and only once. -/
theorem Ledger.ids_perm (events : List Event) :
    (ofEvents events).ids.Perm (List.range (ofEvents events).begun) := by
  induction events using List.reverseRecOn with
  | nil => exact .refl _
  | append_singleton events e ih =>
    rw [ofEvents_concat]
    generalize ofEvents events = l at ih
    cases e with
    | begin caller signature live answer =>
      have hlast : (l.enter (.begin caller signature live answer)).ids.Perm (l.ids ++ [l.begun]) := by
        simp only [enter, ids, List.map_append, List.map_cons, List.map_nil, List.append_assoc]
        exact List.perm_append_comm.append_left _
      have hrange : (l.enter (.begin caller signature live answer)).begun = l.begun + 1 := rfl
      rw [hrange, List.range_succ]
      exact hlast.trans (ih.append_right _)
    | finish id outcome live answer accepted =>
      have hsplit := (List.filter_append_perm (fun o : Opening => decide (o.id = id)) l.unfinished).map
        (·.id)
      have hids : (l.enter (.finish id outcome live answer accepted)).ids =
          (l.unfinished.filter (·.id ≠ id)).map (·.id) ++ (l.finished.map (·.opening.id) ++
            (l.unfinished.filter (·.id = id)).map (·.id)) := by
        simp [enter, ids]
      rw [hids]
      refine List.Perm.trans ?_ ih
      calc
        _ ~ _ ++ _ := List.perm_append_comm
        _ = l.finished.map (·.opening.id) ++ ((l.unfinished.filter (·.id = id)).map (·.id) ++
            (l.unfinished.filter (·.id ≠ id)).map (·.id)) := List.append_assoc ..
        _ ~ l.finished.map (·.opening.id) ++ l.unfinished.map (·.id) := by
          refine List.Perm.append_left _ ?_
          simpa using hsplit
        _ ~ l.ids := List.perm_append_comm
    | _ => exact ih

theorem Ledger.openedBy_finish (hids : (l.unfinished.map (·.id)).Nodup) (id : CaptureId)
    (outcome : LiveOutcome) (live : LiveState) (answer : Answer) (accepted : Accepted) (k : CallerId) :
    (((l.enter (.finish id outcome live answer accepted)).openedBy k).map (·.id)).reverse =
      ((l.openedBy k).map (·.id)).reverse.erase id := by
  have hnodup : ((l.openedBy k).map (·.id)).reverse.Nodup :=
    List.nodup_reverse.2 ((List.filter_sublist.map _).nodup hids)
  rw [hnodup.erase_eq_filter, List.filter_reverse, List.filter_map, enter, openedBy, openedBy,
    List.filter_filter, List.filter_filter]
  congr 3
  funext o
  simp [Bool.and_comm, bne, BEq.beq]

theorem Ledger.ids_nodup (events : List Event) : (ofEvents events).ids.Nodup :=
  (ids_perm events).nodup_iff.2 List.nodup_range

theorem Ledger.lt_begun {id : CaptureId} (hid : id ∈ (ofEvents events).ids) :
    id < (ofEvents events).begun :=
  List.mem_range.1 ((ids_perm events).mem_iff.1 hid)

/-! ### What a step leaves alone -/

theorem id_of_capture? {id : CaptureId} {c : Capture} (hc : s.capture? id = some c) : c.id = id := by
  simpa using List.find?_some hc

@[simp]
theorem take_id (answer : Answer) (c : Capture) : (c.take budget answer).id = c.id := by
  cases answer <;> rfl

@[simp]
theorem take_caller (answer : Answer) (c : Capture) : (c.take budget answer).caller = c.caller := by
  cases answer <;> rfl

theorem employ_eq (s : Session) (subject : Subject) (id : CaptureId) (answer : Answer) :
    s.employ subject id answer =
      { s with sequencer := (s.employ subject id answer).sequencer } := by
  cases answer <;> rfl

theorem begin_eq (s : Session) (caller : CallerId) (signature : Signature) (subject : Subject)
    (answer : Answer) :
    (s.begin caller signature subject answer).1 = { s with
      active := s.active ++ [Capture.take s.budget answer
        ⟨s.begun, caller, subject, .new signature .empty, none, [], []⟩]
      nesting := putEntry caller (s.begun :: (findValue? caller s.nesting).getD []) s.nesting
      unfinished := (s.begin caller signature subject answer).1.unfinished
      sequencer := (s.begin caller signature subject answer).1.sequencer
      begun := s.begun + 1 } := by
  unfold Session.begin
  simp only
  rw [employ_eq]

theorem settle_eq (s : Session) (subject : Subject) :
    s.settle subject = { s with
      unfinished := (s.settle subject).unfinished
      sequencer := (s.settle subject).sequencer } := by
  unfold settle
  split
  · rfl
  · split <;> rfl

theorem emit_eq (s : Session) (c : Capture) (answer : Answer) (accepted : Accepted) :
    (s.emit c answer accepted).1 = { s with
      sequencer := (s.emit c answer accepted).1.sequencer
      emitted := (s.emit c answer accepted).1.emitted
      refusals := (s.emit c answer accepted).1.refusals } := by
  unfold emit
  split
  · rfl
  · simp only
    rw [employ_eq]
    split
    · rfl
    · split <;> rfl

theorem finish_eq {id : CaptureId} {c : Capture} (hc : s.capture? id = some c) (answer : Answer)
    (accepted : Accepted) :
    (s.finish id answer accepted).1 = { s.deactivate c with
      unfinished := (s.finish id answer accepted).1.unfinished
      sequencer := (s.finish id answer accepted).1.sequencer
      emitted := ((s.deactivate c).emit c answer accepted).1.emitted
      refusals := ((s.deactivate c).emit c answer accepted).1.refusals } := by
  unfold finish
  rw [hc]
  simp only
  rw [settle_eq, emit_eq]

theorem finish_of_none {id : CaptureId} (hc : s.capture? id = none) (answer : Answer)
    (accepted : Accepted) : s.finish id answer accepted = (s, .error .cancelled) := by
  unfold finish
  rw [hc]

/-- What comes of emitting a capture: its snapshot, or its first failure. -/
def handOver (budget : Nat) (c : Capture) (answer : Answer) : Except CaptureError Snapshot :=
  match c.failure.or (c.take budget answer).failure with
  | some e => .error e
  | none =>
    if (c.take budget answer).snapshot.valid then .ok (c.take budget answer).snapshot
    else .error .cancelled

/-- What emitting a capture does: its snapshot is handed to the sink, whose refusal is logged, and its id is
the answer; or nothing is handed over, and the failure is the answer. -/
structure Emitting (s s' : Session) (reply : Except CaptureError CaptureId) (c : Capture) (answer : Answer)
    (accepted : Accepted) : Prop where
  emitted : s'.emitted = s.emitted ++ (handOver s.budget c answer).toOption.toList.map (c.id, ·)
  refusals : s'.refusals = s.refusals ++
    ((handOver s.budget c answer).toOption.bind fun _ => accepted.refusal?).toList.map (c.id, ·)
  reply : reply = (handOver s.budget c answer).map fun _ => c.id

theorem emit_spec (s : Session) (c : Capture) (answer : Answer) (accepted : Accepted) :
    Emitting s (s.emit c answer accepted).1 (s.emit c answer accepted).2 c answer accepted := by
  unfold emit
  cases hc : c.failure with
  | some e => constructor <;> simp [handOver, hc, Except.toOption, Except.map]
  | none =>
    simp only
    rw [employ_eq]
    cases htake : (c.take s.budget answer).failure with
    | some e => constructor <;> simp [handOver, hc, htake, Except.toOption, Except.map]
    | none =>
      by_cases hvalid : (c.take s.budget answer).snapshot.valid = true <;> constructor <;>
        simp [handOver, hc, htake, hvalid, Except.toOption, Except.map]

theorem finish_spec {id : CaptureId} {c : Capture} (hc : s.capture? id = some c) (answer : Answer)
    (accepted : Accepted) :
    Emitting s (s.finish id answer accepted).1 (s.finish id answer accepted).2 c answer accepted := by
  have hreply : (s.finish id answer accepted).2 = ((s.deactivate c).emit c answer accepted).2 := by
    unfold finish
    rw [hc]
  rw [hreply, finish_eq hc]
  exact { emit_spec (s.deactivate c) c answer accepted with }

theorem modifyCapture_self (s : Session) (id : CaptureId) :
    s.modifyCapture id (fun c => c) = s := by
  simp [modifyCapture]

theorem record_of_top {caller : CallerId} {id : CaptureId} (htop : s.top? caller = some id)
    (add : Capture → Capture) :
    (s.record caller add).1 =
      s.modifyCapture id (if (s.capture? id).any (·.isValid) then add else fun c => c) := by
  unfold record
  rw [htop, Option.bind_some]
  cases hc : s.capture? id with
  | none => simp [modifyCapture_self]
  | some c =>
    have hid : c.id = id := id_of_capture? hc
    by_cases hvalid : c.isValid
    · simp [hvalid, hid]
    · simp [hvalid, modifyCapture_self]

theorem record_of_no_top {caller : CallerId} (htop : s.top? caller = none) (add : Capture → Capture) :
    s.record caller add = (s, false) := by
  unfold record
  rw [htop, Option.bind_none]

theorem next_budget (s : Session) (e : Event) : (s.next e).budget = s.budget := by
  have hrecord (caller : CallerId) (add : Capture → Capture) :
      (s.record caller add).1.budget = s.budget := by
    cases htop : s.top? caller with
    | none => rw [record_of_no_top htop]
    | some id => rw [record_of_top htop]; rfl
  cases e with
  | begin caller signature live answer => rw [next, begin_eq]
  | input caller call => exact hrecord caller _
  | output caller call => exact hrecord caller _
  | finish id outcome live answer accepted =>
    rw [next]
    cases hc : s.capture? id with
    | none => rw [finish_of_none hc]
    | some c => rw [finish_eq hc]; rfl
  | release subject => rfl
  | close => rfl

theorem after_budget (budget : Nat) (events : List Event) : (after budget events).budget = budget := by
  induction events using List.reverseRecOn with
  | nil => rfl
  | append_singleton events e ih => rw [after_concat, next_budget, ih]

/-! ### Stacks -/

theorem findValue?_unstack (c : Capture) (hkeys : (s.nesting.map (·.1)).Nodup) (k : CallerId) :
    (findValue? k (s.unstack c)).getD [] =
      if k = c.caller then ((findValue? k s.nesting).getD []).erase c.id
      else (findValue? k s.nesting).getD [] := by
  unfold unstack
  by_cases hk : k = c.caller
  · subst hk
    rw [if_pos rfl]
    cases hstack : findValue? c.caller s.nesting with
    | none => simp [hstack]
    | some stack =>
      simp only [Option.getD_some]
      split
      · next hrest => rw [findValue?_dropEntry hkeys, if_pos rfl, hrest]; rfl
      · rw [findValue?_putEntry, if_pos rfl]; rfl
  · rw [if_neg hk]
    split
    · rfl
    · split
      · rw [findValue?_dropEntry hkeys, if_neg hk]
      · rw [findValue?_putEntry, if_neg hk]

theorem unstack_ne_nil (c : Capture) (hkeys : (s.nesting.map (·.1)).Nodup)
    (hne : ∀ k, findValue? k s.nesting ≠ some []) (k : CallerId) :
    findValue? k (s.unstack c) ≠ some [] := by
  unfold unstack
  split
  · exact hne k
  · split
    · rw [findValue?_dropEntry hkeys]
      split
      · exact Option.some_ne_none _ ∘ Eq.symm
      · exact hne k
    · next hrest =>
      rw [findValue?_putEntry]
      split
      · exact fun heq => hrest (Option.some.inj heq)
      · exact hne k

theorem unstack_nodup (c : Capture) (hkeys : (s.nesting.map (·.1)).Nodup) :
    ((s.unstack c).map (·.1)).Nodup := by
  unfold unstack
  split
  · exact hkeys
  · split
    · exact nodup_dropEntry _ hkeys
    · exact nodup_putEntry hkeys

/-! ### What a session holds -/

/-- The capture that an opening leads to, up to the calls recorded since. -/
def Opening.capture (budget : Nat) (o : Opening) : Capture :=
  Capture.take budget o.answer ⟨o.id, o.caller, .ofCall o.live.receiver o.signature.declaring,
    .new o.signature .empty, none, [], []⟩

def Opening.Tracks (budget : Nat) (o : Opening) (c : Capture) : Prop :=
  c = { o.capture budget with inputs := c.inputs, outputs := c.outputs }

structure Mirrors (s : Session) (l : Ledger) : Prop where
  begun : s.begun = l.begun
  active : List.Forall₂ (Opening.Tracks s.budget) l.unfinished s.active
  nesting : ∀ k, (findValue? k s.nesting).getD [] = ((l.openedBy k).map (·.id)).reverse
  nonempty : ∀ k, findValue? k s.nesting ≠ some []
  keys : (s.nesting.map (·.1)).Nodup

theorem Opening.Tracks.id {o : Opening} {c : Capture} (h : o.Tracks budget c) : c.id = o.id := by
  rw [h]
  exact take_id ..

theorem Opening.Tracks.caller {o : Opening} {c : Capture} (h : o.Tracks budget c) :
    c.caller = o.caller := by
  rw [h]
  exact take_caller ..

theorem Mirrors.capture? (h : Mirrors s l) (id : CaptureId) :
    Option.Rel (Opening.Tracks s.budget) (l.unfinished.find? (·.id = id)) (s.capture? id) := by
  have hactive := h.active
  unfold Session.capture?
  generalize s.active = active, l.unfinished = unfinished at hactive
  induction hactive with
  | nil => exact .none
  | @cons o c _ _ htracks _ ih =>
    rw [List.find?_cons, List.find?_cons, htracks.id]
    by_cases hid : o.id = id
    · simpa [hid] using Option.Rel.some htracks
    · rw [beq_false_of_ne hid, decide_eq_false hid]
      exact ih

theorem Mirrors.opening (h : Mirrors s l) {id : CaptureId} {c : Capture} (hc : s.capture? id = some c) :
    ∃ o, l.unfinished.find? (·.id = id) = some o ∧ o.Tracks s.budget c := by
  have hfound := h.capture? id
  rw [hc] at hfound
  exact rel_some_right hfound

theorem Mirrors.capture (h : Mirrors s l) (hids : (l.unfinished.map (·.id)).Nodup) {o : Opening}
    (ho : o ∈ l.unfinished) : ∃ c, s.capture? o.id = some c ∧ o.Tracks s.budget c := by
  have hfind : l.unfinished.find? (·.id = o.id) = some o := by
    rw [← List.head?_filter, filter_eq_singleton hids ho, List.head?_cons]
  have hfound := h.capture? o.id
  rw [hfind] at hfound
  exact rel_some_left hfound

theorem Mirrors.enter_finish_of_none (h : Mirrors s l) {id : CaptureId} (hc : s.capture? id = none)
    (outcome : LiveOutcome) (live : LiveState) (answer : Answer) (accepted : Accepted) :
    l.enter (.finish id outcome live answer accepted) = l := by
  have hnone : ∀ o ∈ l.unfinished, o.id ≠ id := by
    have hfound := h.capture? id
    rw [hc] at hfound
    simpa using rel_none_right hfound
  have hkeep : l.unfinished.filter (·.id ≠ id) = l.unfinished := by simpa using hnone
  have hdrop : l.unfinished.filter (·.id = id) = [] := by simpa using hnone
  rw [Ledger.enter, hkeep, hdrop, List.map_nil, List.append_nil]

theorem Mirrors.enter_finish (h : Mirrors s l) (hids : (l.unfinished.map (·.id)).Nodup) {id : CaptureId}
    {c : Capture} (hc : s.capture? id = some c) :
    ∃ o ∈ l.unfinished, o.id = id ∧ o.Tracks s.budget c ∧ ∀ outcome live answer accepted,
      l.enter (.finish id outcome live answer accepted) =
        { l with
          unfinished := l.unfinished.filter (·.id ≠ id)
          finished := l.finished ++ [⟨o, outcome, live, answer, accepted⟩] } := by
  obtain ⟨o, ho, htracks⟩ := h.opening hc
  have hid : o.id = id := by simpa using List.find?_some ho
  have hmem := List.mem_of_find?_eq_some ho
  refine ⟨o, hmem, hid, htracks, fun outcome live answer accepted => ?_⟩
  have hone : l.unfinished.filter (·.id = id) = [o] := hid ▸ filter_eq_singleton hids hmem
  rw [Ledger.enter, hone]
  rfl

theorem start_mirrors (budget : Nat) : Mirrors (.start budget) (.ofEvents []) where
  begun := rfl
  active := .nil
  nesting _ := rfl
  nonempty _ := Option.some_ne_none _ ∘ Eq.symm
  keys := List.nodup_nil

theorem Mirrors.begin (h : Mirrors s l) (caller : CallerId) (signature : Signature) (live : LiveState)
    (answer : Answer) :
    Mirrors (s.next (.begin caller signature live answer))
      (l.enter (.begin caller signature live answer)) := by
  rw [next, begin_eq, Ledger.enter]
  refine ⟨congrArg (· + 1) h.begun, ?_, ?_, ?_, nodup_putEntry h.keys⟩
  · refine List.rel_append h.active (.cons ?_ .nil)
    rw [Opening.Tracks, Opening.capture, h.begun]
  · intro k
    simp only [findValue?_putEntry, Ledger.openedBy, List.filter_append, List.map_append,
      List.reverse_append]
    by_cases hk : k = caller
    · subst hk
      simp [h.nesting, h.begun, Ledger.openedBy]
    · simpa [hk, Ne.symm hk, Ledger.openedBy] using h.nesting k
  · intro k
    simp only [findValue?_putEntry]
    split
    · exact fun heq => List.cons_ne_nil _ _ (Option.some.inj heq)
    · exact h.nonempty k

theorem Mirrors.record (h : Mirrors s l) (caller : CallerId) {add : Capture → Capture}
    (hadd : ∀ {o c}, Opening.Tracks s.budget o c → Opening.Tracks s.budget o (add c)) :
    Mirrors (s.record caller add).1 l := by
  unfold Session.record
  split
  · split
    · refine { h with active := List.forall₂_map_right_iff.2 (h.active.imp fun o c htracks => ?_) }
      split
      · exact hadd htracks
      · exact htracks
    · exact h
  · exact h

theorem Mirrors.finish (h : Mirrors s l) (hids : (l.unfinished.map (·.id)).Nodup) (id : CaptureId)
    (outcome : LiveOutcome) (live : LiveState) (answer : Answer) (accepted : Accepted) :
    Mirrors (s.next (.finish id outcome live answer accepted))
      (l.enter (.finish id outcome live answer accepted)) := by
  cases hc : s.capture? id with
  | none =>
    rw [h.enter_finish_of_none hc, next, finish_of_none hc]
    exact h
  | some c =>
    obtain ⟨o, ho, hid, htracks, -⟩ := h.enter_finish hids hc
    have hcid : c.id = id := htracks.id.trans hid
    simp only [next, Ledger.enter]
    rw [finish_eq hc]
    constructor
    · exact h.begun
    · refine List.rel_filter (fun o' c' htracks' => ?_) h.active
      simp [htracks'.id, hcid]
    · intro k
      have hstack := findValue?_unstack c h.keys k
      rw [h.nesting, htracks.caller, hcid] at hstack
      refine hstack.trans (Eq.trans ?_ (Ledger.openedBy_finish hids id outcome live answer accepted k).symm)
      split
      · rfl
      · next hk =>
        -- only the caller that began the capture has it on its stack
        refine (List.erase_of_not_mem fun hmem => hk ?_).symm
        obtain ⟨o', ho', hid'⟩ := List.mem_map.1 (List.mem_reverse.1 hmem)
        obtain ⟨hmem', hcaller⟩ := List.mem_filter.1 ho'
        have hsame : o' = o := List.inj_on_of_nodup_map hids hmem' ho (hid'.trans hid.symm)
        rw [← hsame]
        exact (of_decide_eq_true hcaller).symm
    · exact unstack_ne_nil c h.keys h.nonempty
    · exact unstack_nodup c h.keys

theorem step_mirrors (h : Mirrors s l) (hids : (l.unfinished.map (·.id)).Nodup) (e : Event) :
    Mirrors (s.next e) (l.enter e) := by
  cases e with
  | begin caller signature live answer => exact h.begin caller signature live answer
  | input caller call => exact h.record caller fun htracks => by rw [Opening.Tracks, htracks]
  | output caller call => exact h.record caller fun htracks => by rw [Opening.Tracks, htracks]
  | finish id outcome live answer accepted => exact h.finish hids id outcome live answer accepted
  | release subject => exact { h with }
  | close => exact { h with }

theorem after_mirrors (budget : Nat) (events : List Event) :
    Mirrors (after budget events) (.ofEvents events) := by
  induction events using List.reverseRecOn with
  | nil => exact start_mirrors budget
  | append_singleton events e ih =>
    rw [after_concat, Ledger.ofEvents_concat]
    exact step_mirrors ih (List.nodup_append.1 (Ledger.ids_nodup events)).1 e

theorem Mirrors.mem_nesting (h : Mirrors s l) (k : CallerId) :
    k ∈ s.nesting.map (·.1) ↔ l.openedBy k ≠ [] := by
  have hstack := h.nesting k
  constructor
  · intro hk hnone
    obtain ⟨stack, hfound⟩ := Option.ne_none_iff_exists'.1 (mt findValue?_eq_none.1 (not_not.2 hk))
    rw [hfound, hnone] at hstack
    exact h.nonempty k (hfound.trans (congrArg some hstack))
  · intro hsome
    by_contra hk
    rw [findValue?_eq_none.2 hk] at hstack
    exact hsome (List.map_eq_nil_iff.1 (List.reverse_eq_nil_iff.1 hstack.symm))

/-- The capture on top of a caller's stack is the one it began last of those that are not finished,
and only callers with unfinished captures have a stack. -/
theorem stacks_mirror_unfinished (budget : Nat) (events : List Event) :
    let s := after budget events
    let l := Ledger.ofEvents events
    (∀ k, s.top? k = (l.openedBy k).getLast?.map (·.id)) ∧
      s.inFlight = l.unfinished.length ∧
      ∀ k, k ∈ s.nesting.map (·.1) ↔ l.openedBy k ≠ [] := by
  intro s l
  have h : Mirrors s l := after_mirrors budget events
  refine ⟨fun k => ?_, h.active.length_eq.symm, h.mem_nesting⟩
  rw [top?, h.nesting, List.head?_reverse, List.getLast?_map]

end Session

end Reenact
