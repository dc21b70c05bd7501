import Reenact.Proofs.Session

/-!
Captures do not touch each other: how the populations of one and its snapshot are answered shows in no
other.
-/

namespace Reenact

namespace Session

/-- The two sequences differ at most in how the populations of one capture and its snapshot are answered.
-/
inductive AgreeBut (n : CaptureId) : List Event → List Event → Prop where
  | start : AgreeBut n [] []
  | step {events events'} (e : Event) : AgreeBut n events events' →
      AgreeBut n (events ++ [e]) (events' ++ [e])
  | begin {events events'} (caller : CallerId) (signature : Signature) (live : LiveState)
      (answer answer' : Answer) : AgreeBut n events events' → (Ledger.ofEvents events).begun = n →
      AgreeBut n (events ++ [.begin caller signature live answer])
        (events' ++ [.begin caller signature live answer'])
  | finish {events events'} (outcome : LiveOutcome) (live : LiveState) (answer answer' : Answer)
      (accepted accepted' : Accepted) : AgreeBut n events events' →
      AgreeBut n (events ++ [.finish n outcome live answer accepted])
        (events' ++ [.finish n outcome live answer' accepted'])

variable {n : CaptureId} {s s' : Session} {events events' : List Event}

structure SameBut (n : CaptureId) (c c' : Capture) : Prop where
  id : c.id = c'.id
  caller : c.caller = c'.caller
  other : c.id ≠ n → c = c'

structure AlikeBut (n : CaptureId) (s s' : Session) : Prop where
  budget : s.budget = s'.budget
  begun : s.begun = s'.begun
  nesting : s.nesting = s'.nesting
  active : List.Forall₂ (SameBut n) s.active s'.active
  emitted : s.emitted.filter (·.1 ≠ n) = s'.emitted.filter (·.1 ≠ n)
  refusals : s.refusals.filter (·.1 ≠ n) = s'.refusals.filter (·.1 ≠ n)

theorem AlikeBut.capture? (h : AlikeBut n s s') (id : CaptureId) :
    Option.Rel (SameBut n) (s.capture? id) (s'.capture? id) := by
  have hactive := h.active
  unfold Session.capture?
  generalize s.active = active, s'.active = active' at hactive
  induction hactive with
  | nil => exact .none
  | @cons c c' _ _ hsame _ ih =>
    rw [List.find?_cons, List.find?_cons, ← hsame.id]
    by_cases hid : c.id = id
    · simpa [hid] using Option.Rel.some hsame
    · rw [beq_false_of_ne hid]
      exact ih

theorem AlikeBut.capture?_eq (h : AlikeBut n s s') {id : CaptureId} (hid : id ≠ n) :
    s.capture? id = s'.capture? id := by
  have hboth := h.capture? id
  cases hc : s.capture? id with
  | none =>
    rw [hc] at hboth
    exact (rel_none_left hboth).symm
  | some c =>
    have hcid : c.id = id := id_of_capture? hc
    rw [hc] at hboth
    obtain ⟨c', hc', hsame⟩ := rel_some_left hboth
    rw [hc', hsame.other (hcid ▸ hid)]

theorem AlikeBut.begin (h : AlikeBut n s s') (caller : CallerId) (signature : Signature)
    (live : LiveState) {answer answer' : Answer} (hanswer : s.begun ≠ n → answer = answer') :
    AlikeBut n (s.next (.begin caller signature live answer))
      (s'.next (.begin caller signature live answer')) := by
  rw [next, next, begin_eq, begin_eq s', ← h.begun, ← h.budget, ← h.nesting]
  refine ⟨rfl, rfl, rfl, List.rel_append h.active (.cons ⟨?_, ?_, fun hother => ?_⟩ .nil), h.emitted,
    h.refusals⟩
  · simp
  · simp
  · rw [take_id] at hother
    rw [hanswer hother]

theorem AlikeBut.modifyCapture (h : AlikeBut n s s') {id : CaptureId} {f f' : Capture → Capture}
    (hid : ∀ c, (f c).id = c.id ∧ (f' c).id = c.id)
    (hcaller : ∀ c, (f c).caller = c.caller ∧ (f' c).caller = c.caller) (hf : id ≠ n → f = f') :
    AlikeBut n (s.modifyCapture id f) (s'.modifyCapture id f') := by
  refine { h with active := List.forall₂_map_left_iff.2 (List.forall₂_map_right_iff.2
    (h.active.imp fun c c' hsame => ?_)) }
  rw [← hsame.id]
  by_cases hc : c.id = id
  · rw [if_pos hc, if_pos hc]
    refine ⟨?_, ?_, fun hother => ?_⟩
    · rw [(hid c).1, (hid c').2, hsame.id]
    · rw [(hcaller c).1, (hcaller c').2, hsame.caller]
    · rw [(hid c).1] at hother
      rw [hsame.other hother, hf (hc ▸ hother)]
  · rw [if_neg hc, if_neg hc]
    exact hsame

theorem AlikeBut.record (h : AlikeBut n s s') (caller : CallerId) {add : Capture → Capture}
    (hid : ∀ c, (add c).id = c.id) (hcaller : ∀ c, (add c).caller = c.caller) :
    AlikeBut n (s.record caller add).1 (s'.record caller add).1 := by
  have htops : s.top? caller = s'.top? caller := by rw [top?, top?, h.nesting]
  cases htop : s.top? caller with
  | none => rwa [record_of_no_top htop, record_of_no_top (htops.symm.trans htop)]
  | some id =>
    rw [record_of_top htop, record_of_top (htops.symm.trans htop)]
    have hkeeps (b : Bool) (c : Capture) : ((if b then add else fun c => c) c).id = c.id ∧
        ((if b then add else fun c => c) c).caller = c.caller := by
      cases b
      · exact ⟨rfl, rfl⟩
      · exact ⟨hid c, hcaller c⟩
    refine h.modifyCapture (fun c => ⟨(hkeeps _ c).1, (hkeeps _ c).1⟩)
      (fun c => ⟨(hkeeps _ c).2, (hkeeps _ c).2⟩) fun hne => ?_
    rw [h.capture?_eq hne]

theorem AlikeBut.finish (h : AlikeBut n s s') (id : CaptureId) (outcome : LiveOutcome)
    (live : LiveState) {answer answer' : Answer} {accepted accepted' : Accepted}
    (hanswer : id ≠ n → answer = answer' ∧ accepted = accepted') :
    AlikeBut n (s.next (.finish id outcome live answer accepted))
      (s'.next (.finish id outcome live answer' accepted')) := by
  have hboth := h.capture? id
  rw [next, next]
  cases hc : s.capture? id with
  | none =>
    rw [hc] at hboth
    rwa [finish_of_none hc, finish_of_none (rel_none_left hboth)]
  | some c =>
    rw [hc] at hboth
    obtain ⟨c', hc', hsame⟩ := rel_some_left hboth
    have hcid : c.id = id := id_of_capture? hc
    have hemits := emit_spec (s.deactivate c) c answer accepted
    have hemits' := emit_spec (s'.deactivate c') c' answer' accepted'
    rw [finish_eq hc, finish_eq hc', hemits.emitted, hemits'.emitted, hemits.refusals, hemits'.refusals]
    have hnone {α : Type} (hne : c.id = n) (xs : List α) : (xs.map (c.id, ·)).filter (·.1 ≠ n) = [] := by
      simp [hne]
    refine ⟨h.budget, h.begun, ?_, ?_, ?_, ?_⟩
    · simp only [deactivate, unstack, h.nesting, hsame.id, hsame.caller]
    · refine List.rel_filter (fun a a' haa' => ?_) h.active
      simp only [haa'.id, hsame.id]
    · simp only [deactivate, List.filter_append, h.emitted, ← hsame.id, ← h.budget]
      by_cases hne : c.id = n
      · rw [hnone hne, hnone hne]
      · rw [hsame.other hne, (hanswer (hcid ▸ hne)).1]
    · simp only [deactivate, List.filter_append, h.refusals, ← hsame.id, ← h.budget]
      by_cases hne : c.id = n
      · rw [hnone hne, hnone hne]
      · obtain ⟨rfl, rfl⟩ := hanswer (hcid ▸ hne)
        rw [hsame.other hne]

theorem agree_alike (budget : Nat) (h : AgreeBut n events events') :
    AlikeBut n (after budget events) (after budget events') := by
  induction h with
  | start => exact ⟨rfl, rfl, rfl, .nil, rfl, rfl⟩
  | @step events events' e _ ih =>
    rw [after_concat, after_concat]
    cases e with
    | begin caller signature live answer => exact ih.begin caller signature live fun _ => rfl
    | input caller call => exact ih.record caller (fun _ => rfl) fun _ => rfl
    | output caller call => exact ih.record caller (fun _ => rfl) fun _ => rfl
    | finish id outcome live answer accepted => exact ih.finish id outcome live fun _ => ⟨rfl, rfl⟩
    | release subject => exact { ih with }
    | close => exact { ih with }
  | @begin events events' caller signature live answer answer' _ hn ih =>
    rw [after_concat, after_concat]
    exact ih.begin caller signature live fun hne => absurd ((after_mirrors budget events).begun.trans hn) hne
  | finish outcome live answer answer' accepted accepted' _ ih =>
    rw [after_concat, after_concat]
    exact ih.finish n outcome live fun hne => absurd rfl hne

end Session

end Reenact
