import Reenact.Capture.Recorder
import Reenact.Proofs.Emission

/-!
Recorders take their sessions through steps that the session admits. What holds of all executions
of sessions thus holds of the session of every recorder.
-/

namespace Reenact

namespace Recorder

variable {r r' : Recorder}

def setting (r : Recorder) : Setting := ⟨r.types, r.registries.serializers, r.config.globals⟩

/-- What can be asked of a recorder. -/
inductive Step (r : Recorder) : Recorder → Prop where
  | begin (heap caller signature live) : Step r (r.begin heap caller signature live).1
  | input (caller call) : Step r (r.recordInput caller call).1
  | output (caller call) : Step r (r.recordOutput caller call).1
  | finish (heap id outcome live accepted) : Step r (r.finish heap id outcome live accepted).1
  | release (subject) : Step r (r.release subject).1
  | close : Step r r.close

inductive Steps (r : Recorder) : Recorder → Prop where
  | refl : Steps r r
  | tail {r' r''} : Steps r r' → Step r' r'' → Steps r r''

theorem answer_of (p : Population.Result) : (answer p).Of p := by
  intro s hs
  unfold answer at hs
  split at hs
  · next hok => exact ⟨hok, Answer.populated.inj hs⟩
  · cases hs
  · cases hs
  · cases hs

theorem await_answer (r : Recorder) (subject : Subject) (p : Population.Result) :
    (r.await subject p).2.Of p := by
  have hcases : (r.await subject p).2 = answer p ∨ (r.await subject p).2 = .late := ite_eq_or_eq _ _ _
  rcases hcases with hanswer | hlate
  · rw [hanswer]
    exact answer_of p
  · rw [hlate]
    exact fun s hs => nomatch hs

theorem populateEnd_spec (r : Recorder) (heap : Heap) (c : Capture) (outcome : LiveOutcome)
    (live : LiveState) :
    (r.populateEnd heap c outcome live).1.session = r.session ∧
      (r.populateEnd heap c outcome live).1.setting = r.setting ∧
      (r.populateEnd heap c outcome live).2.Of (r.setting.expect heap c outcome live r.interner) := by
  unfold populateEnd
  by_cases hvalid : c.isValid
  · rw [if_pos hvalid]
    exact ⟨rfl, rfl, await_answer r _ _⟩
  · rw [if_neg hvalid]
    exact ⟨rfl, rfl, fun s hs => nomatch hs⟩

theorem Step.enabled (h : Step r r') : r'.setting = r.setting ∧
    ∃ e, Session.Enabled r.setting r.session e ∧ r'.session = r.session.next e := by
  cases h with
  | begin heap caller signature live =>
    exact ⟨rfl, .begin caller signature live _, ⟨heap, r.interner, await_answer r _ _⟩, rfl⟩
  | input caller call => exact ⟨rfl, .input caller call, trivial, rfl⟩
  | output caller call => exact ⟨rfl, .output caller call, trivial, rfl⟩
  | finish heap id outcome live accepted =>
    unfold Recorder.finish
    cases hc : r.session.capture? id with
    | none =>
      refine ⟨rfl, .finish id outcome live .late accepted, fun c hsome => ?_, ?_⟩
      · rw [hc] at hsome
        cases hsome
      · rw [Session.next, Session.finish_of_none hc]
    | some c =>
      obtain ⟨hsession, hsetting, hanswer⟩ := populateEnd_spec r heap c outcome live
      refine ⟨hsetting, .finish id outcome live (r.populateEnd heap c outcome live).2 accepted,
        fun c' hsome => ?_, ?_⟩
      · obtain rfl : c = c' := Option.some.inj (hc.symm.trans hsome)
        exact ⟨heap, r.interner, hanswer⟩
      · rw [Session.next, ← hsession]
  | release subject => exact ⟨rfl, .release subject, trivial, rfl⟩
  | close => exact ⟨rfl, .close, trivial, rfl⟩

theorem start_session {types : ClassTable} {config : CaptureConfig} {catalog : Catalog}
    (h : start types config catalog = .ok r) : r.session = .start r.config.timeout := by
  unfold start at h
  cases hconfig : config.validate with
  | error e => rw [hconfig] at h; cases h
  | ok config =>
    cases hregistries : catalog.resolve config with
    | error e => rw [hconfig] at h; simp [hregistries, bind, Except.bind] at h
    | ok registries =>
      rw [hconfig] at h
      simp only [hregistries, bind, Except.bind, pure, Except.pure, Except.ok.injEq] at h
      rw [← h]

/-- The session of a recorder has been through an execution. -/
theorem Steps.execution {types : ClassTable} {config : CaptureConfig} {catalog : Catalog}
    (hstart : start types config catalog = .ok r) (h : Steps r r') :
    ∃ events, Session.Execution r.setting r.config.timeout events ∧
      r'.session = Session.after r.config.timeout events := by
  suffices hinv : r'.setting = r.setting ∧ ∃ events,
      Session.Execution r.setting r.config.timeout events ∧
        r'.session = Session.after r.config.timeout events from hinv.2
  induction h with
  | refl => exact ⟨rfl, [], .start, start_session hstart⟩
  | tail _ hstep ih =>
    obtain ⟨hsetting, events, hrun, hsession⟩ := ih
    obtain ⟨hsetting', e, he, hnext⟩ := hstep.enabled
    rw [hsetting, hsession] at he
    refine ⟨hsetting'.trans hsetting, events ++ [e], hrun.step he, ?_⟩
    rw [hnext, hsession, Session.after_concat]

end Recorder

end Reenact
