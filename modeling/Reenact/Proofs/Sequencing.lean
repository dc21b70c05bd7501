import Mathlib
import Reenact.Capture.Sequencer
import Reenact.Proofs.Assoc

/-!
Order of the jobs of one subject. A worker runs its jobs in turn; a worker that was released goes on
with those it has, beside the one that takes the jobs submitted later. So two jobs of a subject run in
turn whatever happens later exactly if the first was finished when the second was submitted, or the
subject was not released in between.
-/

namespace Reenact.Sequencer

/-- A step of a sequencer. A job is known by the number of the step that submits it. -/
inductive Event where
  | submitted (subject : Subject)
  | released (subject : Subject)
  | releasedAll
  | started (job : ℕ)
  | finished (job : ℕ)
  deriving DecidableEq

inductive Step (n : ℕ) (s : Sequencer ℕ) : Event → Sequencer ℕ → Prop where
  | submit (subject) : Step n s (.submitted subject) (s.submit subject n).1
  | release (subject) : Step n s (.released subject) (s.release subject).1
  | releaseAll : Step n s .releasedAll s.releaseAll
  | start {w s' job} : s.startJob? w = some (s', job) → Step n s (.started job) s'
  | finish {w s' job} : s.finishJob? w = some (s', job) → Step n s (.finished job) s'

inductive Run : List Event → Sequencer ℕ → Prop where
  | start : Run [] .empty
  | step {history s e s'} : Run history s → Step history.length s e s' → Run (history ++ [e]) s'

def RunningAt (history : List Event) (n job : ℕ) : Prop :=
  .started job ∈ history.take n ∧ .finished job ∉ history.take n

/-- The two jobs never run at the same time, and the first starts first. -/
structure InTurn (history : List Event) (a b : ℕ) : Prop where
  apart : ∀ n, ¬ (RunningAt history n a ∧ RunningAt history n b)
  order : ∀ m, history[m]? = some (.started b) → .started a ∈ history.take m

def Event.Releases (subject : Subject) : Event → Prop
  | .released other => other = subject
  | .releasedAll => True
  | _ => False

/-- The worker of the subject was released after step `a` and before step `b`. -/
def ReleasedBetween (history : List Event) (subject : Subject) (a b : ℕ) : Prop :=
  ∃ k e, a < k ∧ k < b ∧ history[k]? = some e ∧ e.Releases subject

variable {s s' t : Sequencer ℕ} {history rest : List Event} {subject other : Subject} {v w : WorkerId}
  {a b job m n : ℕ} {e : Event}

/-! ### What the operations do to the jobs of the workers -/

def running (s : Sequencer ℕ) (w : WorkerId) : Option ℕ := s.workers[w]?.bind Worker.running

theorem enqueue_spec (hw : w < s.workers.size) (job : ℕ) :
    (∀ v, (s.enqueue w job).pending v = if v = w then s.pending v ++ [job] else s.pending v) ∧
      ∀ v, (s.enqueue w job).running v = s.running v := by
  constructor <;> intro v
  · unfold pending enqueue
    rw [Array.getElem?_modify]
    by_cases hv : v = w
    · subst hv
      rw [if_pos rfl, if_pos rfl, Array.getElem?_eq_getElem hw]
      simp
    · rw [if_neg (Ne.symm hv), if_neg hv]
  · unfold running enqueue
    rw [Array.getElem?_modify]
    split
    · cases s.workers[v]? <;> rfl
    · rfl

/-- A worker that is new has nothing to do yet. -/
theorem push_worker_spec (s : Sequencer ℕ) (subject : Subject) (current : List (Subject × WorkerId)) :
    let u : Sequencer ℕ := ⟨s.workers.push ⟨subject, none, []⟩, current⟩
    (∀ v, u.pending v = s.pending v) ∧ ∀ v, u.running v = s.running v := by
  intro u
  have hworkers : ∀ v, u.workers[v]? = if v = s.workers.size then some ⟨subject, none, []⟩
      else s.workers[v]? := fun v => Array.getElem?_push
  constructor <;> intro v
  · unfold pending
    rw [hworkers]
    by_cases hv : v = s.workers.size
    · rw [if_pos hv, hv, Array.getElem?_eq_none le_rfl]
      rfl
    · rw [if_neg hv]
  · unfold running
    rw [hworkers]
    by_cases hv : v = s.workers.size
    · rw [if_pos hv, hv, Array.getElem?_eq_none le_rfl]
      rfl
    · rw [if_neg hv]

/-- What submitting a job leaves: the job is the last one of the worker that its subject has now, which
is the one that it had, or a new one. -/
structure Submitted (s : Sequencer ℕ) (subject : Subject) (job : ℕ) (s' : Sequencer ℕ) (w : WorkerId) :
    Prop where
  current : findValue? subject s'.current = some w
  others : ∀ {other}, other ≠ subject → findValue? other s'.current = findValue? other s.current
  keys : (s.current.map (·.1)).Nodup → (s'.current.map (·.1)).Nodup
  pending : ∀ v, s'.pending v = if v = w then s.pending v ++ [job] else s.pending v
  running : ∀ v, s'.running v = s.running v
  size_le : s.workers.size ≤ s'.workers.size
  lt_size : w < s'.workers.size
  worker : findValue? subject s.current = some w ∨
    findValue? subject s.current = none ∧ s.pending w = []

theorem submit_spec (hfits : ∀ {w}, findValue? subject s.current = some w → w < s.workers.size) (job : ℕ) :
    Submitted s subject job (s.submit subject job).1 (s.submit subject job).2 := by
  unfold submit worker
  cases hfound : findValue? subject s.current with
  | some w =>
    obtain ⟨hpending, hrunning⟩ := enqueue_spec (hfits hfound) job
    exact ⟨hfound, fun _ => rfl, fun h => h, hpending, hrunning, by simp [enqueue],
      by simpa [enqueue] using hfits hfound, .inl hfound⟩
  | none =>
    obtain ⟨hpending, hrunning⟩ :=
      push_worker_spec s subject (putEntry subject s.workers.size s.current)
    have hnew : s.pending s.workers.size = [] := by
      unfold pending
      rw [Array.getElem?_eq_none le_rfl]
    obtain ⟨hpending', hrunning'⟩ := enqueue_spec
      (s := ⟨s.workers.push ⟨subject, none, []⟩, putEntry subject s.workers.size s.current⟩)
      (w := s.workers.size) (by simp) job
    refine ⟨by simp [enqueue], fun hne => by simp [enqueue, hne], nodup_putEntry, fun v => ?_, fun v => ?_,
      by simp [enqueue], by simp [enqueue], .inr ⟨hfound, hnew⟩⟩
    · rw [← hpending v]
      exact hpending' v
    · rw [← hrunning v]
      exact hrunning' v

theorem Submitted.mem_pending (h : Submitted s subject m s' w) :
    job ∈ s'.pending v ↔ job ∈ s.pending v ∨ v = w ∧ job = m := by
  rw [h.pending]
  by_cases hv : v = w <;> simp [hv]

theorem Submitted.lookup (h : Submitted s subject m s' w) (hv : findValue? other s'.current = some v) :
    other = subject ∧ v = w ∨ findValue? other s.current = some v := by
  by_cases hother : other = subject
  · subst hother
    exact .inl ⟨rfl, Option.some.inj (hv.symm.trans h.current)⟩
  · exact .inr ((h.others hother).symm.trans hv)

/-- Who has a worker keeps it. -/
theorem Submitted.keeps (h : Submitted s subject m s' w) (hv : findValue? other s.current = some v) :
    findValue? other s'.current = some v := by
  by_cases hother : other = subject
  · subst hother
    rcases h.worker with hw | ⟨hnone, -⟩
    · rw [h.current, ← hw, hv]
    · cases hnone.symm.trans hv
  · rw [h.others hother, hv]

theorem startJob?_spec (h : s.startJob? w = some (s', job)) :
    s'.current = s.current ∧ s'.workers.size = s.workers.size ∧ (∀ v, s'.pending v = s.pending v) ∧
      (∃ jobs, s.pending w = job :: jobs) ∧
      ∀ v, s'.running v = if v = w then some job else s.running v := by
  unfold startJob? at h
  split at h
  · next x jobs hx =>
    cases h
    refine ⟨rfl, by simp, fun v => ?_, ⟨jobs, by simp [pending, hx]⟩, fun v => ?_⟩
    · unfold pending
      dsimp only
      rw [Array.getElem?_modify]
      by_cases hv : v = w
      · subst hv
        simp [hx]
      · rw [if_neg (Ne.symm hv)]
    · unfold running
      dsimp only
      rw [Array.getElem?_modify]
      by_cases hv : v = w
      · subst hv
        simp [hx]
      · rw [if_neg (Ne.symm hv), if_neg hv]
  · cases h

theorem finishJob?_spec (h : s.finishJob? w = some (s', job)) :
    s'.current = s.current ∧ s'.workers.size = s.workers.size ∧ s.running w = some job ∧
      s.pending w = job :: s'.pending w ∧ (∀ v, v ≠ w → s'.pending v = s.pending v) ∧
      ∀ v, s'.running v = if v = w then none else s.running v := by
  unfold finishJob? at h
  split at h
  · next x queue hx =>
    cases h
    refine ⟨rfl, by simp, by simp [running, hx], by simp [pending, Array.getElem?_modify, hx],
      fun v hv => ?_, fun v => ?_⟩
    · unfold pending
      dsimp only
      rw [Array.getElem?_modify, if_neg (Ne.symm hv)]
    · unfold running
      dsimp only
      rw [Array.getElem?_modify]
      by_cases hv : v = w
      · subst hv
        simp [hx]
      · rw [if_neg (Ne.symm hv), if_neg hv]
  · cases h

/-- An idle worker can start the first of its jobs. -/
theorem exists_startJob? {jobs : List ℕ} (hidle : s.running w = none) (hjobs : s.pending w = job :: jobs) :
    ∃ s', s.startJob? w = some (s', job) := by
  unfold running at hidle
  unfold pending at hjobs
  unfold startJob?
  cases hx : s.workers[w]? with
  | none => rw [hx] at hjobs; cases hjobs
  | some x =>
    obtain ⟨subject, running, queue⟩ := x
    rw [hx] at hidle hjobs
    cases hidle
    cases hjobs
    exact ⟨_, rfl⟩

/-- A worker can finish the job that it runs. -/
theorem exists_finishJob? (h : s.running w = some job) : ∃ s', s.finishJob? w = some (s', job) := by
  unfold running at h
  unfold finishJob?
  cases hx : s.workers[w]? with
  | none => rw [hx] at h; cases h
  | some x =>
    obtain ⟨subject, running, queue⟩ := x
    rw [hx] at h
    cases h
    exact ⟨_, rfl⟩

/-! ### Histories that grow -/

theorem submitted_concat : (history ++ [e])[a]? = some (.submitted subject) ↔
    history[a]? = some (.submitted subject) ∨ a = history.length ∧ e = .submitted subject := by
  rcases lt_trichotomy a history.length with hlt | rfl | hgt
  · rw [List.getElem?_append_left hlt]
    simp [hlt.ne]
  · rw [List.getElem?_concat_length, List.getElem?_eq_none le_rfl]
    simp
  · rw [List.getElem?_eq_none (by simpa using hgt), List.getElem?_eq_none hgt.le]
    simp [hgt.ne']

theorem releasedBetween_append (hb : b ≤ history.length) :
    ReleasedBetween (history ++ rest) subject a b ↔ ReleasedBetween history subject a b := by
  unfold ReleasedBetween
  constructor
  · rintro ⟨k, e, hak, hkb, hk, he⟩
    exact ⟨k, e, hak, hkb, by rwa [List.getElem?_append_left (hkb.trans_le hb)] at hk, he⟩
  · rintro ⟨k, e, hak, hkb, hk, he⟩
    exact ⟨k, e, hak, hkb, by rwa [List.getElem?_append_left (hkb.trans_le hb)], he⟩

theorem releasedBetween_concat :
    ReleasedBetween (history ++ [e]) subject a (history ++ [e]).length ↔
      ReleasedBetween history subject a history.length ∨ a < history.length ∧ e.Releases subject := by
  rw [List.length_append, List.length_singleton]
  constructor
  · rintro ⟨k, e', hak, hk, he', hreleases⟩
    rcases Nat.lt_succ_iff_lt_or_eq.1 hk with hlt | rfl
    · rw [List.getElem?_append_left hlt] at he'
      exact .inl ⟨k, e', hak, hlt, he', hreleases⟩
    · rw [List.getElem?_concat_length] at he'
      cases he'
      exact .inr ⟨hak, hreleases⟩
  · rintro (⟨k, e', hak, hk, he', hreleases⟩ | ⟨hlt, hreleases⟩)
    · exact ⟨k, e', hak, hk.trans (Nat.lt_succ_self _), by rwa [List.getElem?_append_left hk], hreleases⟩
    · exact ⟨_, e, hlt, Nat.lt_succ_self _, List.getElem?_concat_length, hreleases⟩

theorem releasedBetween_submitted :
    ReleasedBetween (history ++ [.submitted subject]) other a (history ++ [Event.submitted subject]).length ↔
      ReleasedBetween history other a history.length :=
  releasedBetween_concat.trans (or_iff_left fun hnew => hnew.2)

theorem ReleasedBetween.lt (h : ReleasedBetween history subject a b) : a < b := by
  obtain ⟨k, _, hak, hkb, -⟩ := h
  exact hak.trans hkb

theorem Run.at (h : Run history s) (hm : history[m]? = some e) :
    ∃ u u', Run (history.take m) u ∧ Step m u e u' := by
  induction h with
  | start => simp at hm
  | @step history u e' u' hrun hstep ih =>
    rcases lt_trichotomy m history.length with hlt | rfl | hgt
    · rw [List.getElem?_append_left hlt] at hm
      rw [List.take_append_of_le_length hlt.le]
      exact ih hm
    · rw [List.getElem?_concat_length] at hm
      cases hm
      exact ⟨u, u', by rwa [List.take_left], hstep⟩
    · rw [List.getElem?_eq_none (by simpa using hgt)] at hm
      cases hm

/-! ### The invariant -/

/-- The first of the two jobs was finished when the second was submitted, or their subject was not
released in between. -/
def Joined (history : List Event) (subject : Subject) (a b : ℕ) : Prop :=
  .finished a ∈ history.take b ∨ ¬ ReleasedBetween history subject a b

structure Orderly (history : List Event) (s : Sequencer ℕ) : Prop where
  keys : (s.current.map (·.1)).Nodup
  fits : ∀ {subject w}, findValue? subject s.current = some w → w < s.workers.size
  numbered : ∀ {w job}, job ∈ s.pending w → job < history.length
  unique : ∀ {v w job}, job ∈ s.pending v → job ∈ s.pending w → v = w
  nodup : ∀ w, (s.pending w).Nodup
  began : ∀ {w job}, s.running w = some job → .started job ∈ history
  known : ∀ {job}, .started job ∈ history → job < history.length
  ended : ∀ {job}, .finished job ∈ history → .started job ∈ history
  taken : ∀ {subject a}, history[a]? = some (.submitted subject) →
    ¬ ReleasedBetween history subject a history.length →
      .finished a ∈ history ∨ ∃ w, findValue? subject s.current = some w ∧ a ∈ s.pending w
  parted : ∀ {subject a w}, history[a]? = some (.submitted subject) →
    ReleasedBetween history subject a history.length → findValue? subject s.current = some w →
      a ∉ s.pending w
  inOrder : ∀ {subject a b}, a < b → history[a]? = some (.submitted subject) →
    history[b]? = some (.submitted subject) → Joined history subject a b →
      .finished a ∈ history ∨ ∃ w, [a, b].Sublist (s.pending w)

theorem lt_of_submitted (h : history[a]? = some e) : a < history.length :=
  (List.getElem?_eq_some_iff.1 h).1

theorem joined_append (hb : b ≤ history.length) :
    Joined (history ++ rest) subject a b ↔ Joined history subject a b := by
  unfold Joined
  rw [List.take_append_of_le_length hb, releasedBetween_append hb]

theorem start_orderly : Orderly [] .empty where
  keys := List.nodup_nil
  fits h := by cases h
  numbered h := by simp [pending, empty] at h
  unique h := by simp [pending, empty] at h
  nodup w := by simp [pending, empty]
  began h := by simp [running, empty] at h
  known h := by cases h
  ended h := by cases h
  taken h := by simp at h
  parted h := by simp at h
  inOrder _ h := by simp at h

theorem Orderly.fresh (h : Orderly history s) (w : WorkerId) : history.length ∉ s.pending w :=
  fun hmem => lt_irrefl _ (h.numbered hmem)

/-- A job that was parted from its subject's worker is not taken up by the worker for a new job. -/
theorem Orderly.parted_submit (h : Orderly history s) (hs : Submitted s subject history.length s' w)
    (ha : (history ++ [.submitted subject])[a]? = some (.submitted other))
    (hparted : ReleasedBetween history other a history.length) (hv : findValue? other s'.current = some v) :
    a ∉ s'.pending v := by
  intro hmem
  have hlt : a < history.length := hparted.lt
  have hold : history[a]? = some (.submitted other) :=
    (submitted_concat.1 ha).resolve_right fun hnew => hlt.ne hnew.1
  have hmem : a ∈ s.pending v := (hs.mem_pending.1 hmem).resolve_right fun hnew => hlt.ne hnew.2
  rcases hs.lookup hv with ⟨rfl, rfl⟩ | hv
  · rcases hs.worker with hv | ⟨-, hnew⟩
    · exact h.parted hold hparted hv hmem
    · rw [hnew] at hmem
      cases hmem
  · exact h.parted hold hparted hv hmem

/-- The new job meets an unfinished one of its subject at the worker that the subject has, behind it. -/
theorem Orderly.behind_submit (h : Orderly history s) (hs : Submitted s subject history.length s' w)
    (ha : history[a]? = some (.submitted subject)) (hjoined : Joined history subject a history.length) :
    .finished a ∈ history ∨ ∃ v, [a, history.length].Sublist (s'.pending v) := by
  rw [Joined, List.take_length] at hjoined
  refine (hjoined.elim .inl (h.taken ha)).imp_right ?_
  rintro ⟨v, hv, hmem⟩
  obtain rfl : v = w := Option.some.inj ((hs.keeps hv).symm.trans hs.current)
  refine ⟨v, ?_⟩
  rw [hs.pending, if_pos rfl]
  exact (List.singleton_sublist.2 hmem).append (.refl [history.length])

/-- A job that is submitted goes behind the unfinished ones of its subject, unless these were released. -/
theorem Orderly.submit (h : Orderly history s) (hs : Submitted s subject history.length s' w) :
    Orderly (history ++ [.submitted subject]) s' where
  keys := hs.keys h.keys
  fits hv := by
    rcases hs.lookup hv with ⟨-, rfl⟩ | hv
    · exact hs.lt_size
    · exact (h.fits hv).trans_le hs.size_le
  numbered hjob := by
    rw [List.length_append, List.length_singleton]
    rcases hs.mem_pending.1 hjob with hjob | ⟨-, rfl⟩
    · exact (h.numbered hjob).trans (Nat.lt_succ_self _)
    · exact Nat.lt_succ_self _
  unique {v v' job} hv hv' := by
    rcases hs.mem_pending.1 hv with hv | ⟨rfl, rfl⟩
    · rcases hs.mem_pending.1 hv' with hv' | ⟨-, rfl⟩
      · exact h.unique hv hv'
      · exact absurd hv (h.fresh v)
    · exact ((hs.mem_pending.1 hv').resolve_left (h.fresh v')).1.symm
  nodup v := by
    rw [hs.pending]
    split
    · exact List.concat_eq_append ▸ (h.nodup v).concat (h.fresh v)
    · exact h.nodup v
  began hv := by
    rw [hs.running] at hv
    exact List.mem_append_left _ (h.began hv)
  known {job} hjob := by
    have hold : .started job ∈ history := by simpa using hjob
    rw [List.length_append]
    exact Nat.lt_add_right _ (h.known hold)
  ended {job} hjob := by
    have hold : .finished job ∈ history := by simpa using hjob
    exact List.mem_append_left _ (h.ended hold)
  taken ha hno := by
    rw [releasedBetween_submitted] at hno
    rcases submitted_concat.1 ha with hold | ⟨rfl, heq⟩
    · refine (h.taken hold hno).imp (List.mem_append_left _) ?_
      rintro ⟨v, hv, hmem⟩
      exact ⟨v, hs.keeps hv, hs.mem_pending.2 (.inl hmem)⟩
    · cases heq
      exact .inr ⟨w, hs.current, hs.mem_pending.2 (.inr ⟨rfl, rfl⟩)⟩
  parted ha hparted hv := h.parted_submit hs ha (releasedBetween_submitted.1 hparted) hv
  inOrder {other a b} hab ha hb hjoined := by
    have hbounded : b < history.length + 1 := by simpa using lt_of_submitted hb
    have hold : history[a]? = some (.submitted other) :=
      (submitted_concat.1 ha).resolve_right fun hnew => by omega
    rcases submitted_concat.1 hb with hb | ⟨rfl, heq⟩
    · rw [joined_append (lt_of_submitted hb).le] at hjoined
      refine (h.inOrder hab hold hb hjoined).imp (List.mem_append_left _) ?_
      rintro ⟨v, hv⟩
      refine ⟨v, ?_⟩
      rw [hs.pending]
      split
      · exact hv.trans (List.sublist_append_left _ _)
      · exact hv
    · cases heq
      rw [joined_append le_rfl] at hjoined
      exact (h.behind_submit hs hold hjoined).imp_left (List.mem_append_left _)

/-- What every other step leaves: workers lose at most the job that is finished, and subjects only the
workers that are released. -/
structure Proceeds (history : List Event) (s : Sequencer ℕ) (e : Event) (s' : Sequencer ℕ) : Prop where
  job : ∀ subject, e ≠ .submitted subject
  keys : (s.current.map (·.1)).Nodup → (s'.current.map (·.1)).Nodup
  size : s'.workers.size = s.workers.size
  released : ∀ {subject}, (s.current.map (·.1)).Nodup → e.Releases subject →
    findValue? subject s'.current = none
  kept : ∀ {subject}, ¬ e.Releases subject →
    findValue? subject s'.current = findValue? subject s.current
  pending : ∀ v, s'.pending v = s.pending v ∨ ∃ job, e = .finished job ∧ s.pending v = job :: s'.pending v
  running : ∀ {v job}, s'.running v = some job → s.running v = some job ∨ e = .started job
  known : ∀ {job}, e = .started job → ∃ v, job ∈ s.pending v
  ended : ∀ {job}, e = .finished job → .started job ∈ history

theorem Proceeds.mem_pending (h : Proceeds history s e s') (hjob : job ∈ s'.pending v) :
    job ∈ s.pending v := by
  rcases h.pending v with heq | ⟨head, -, heq⟩
  · exact heq ▸ hjob
  · exact heq ▸ List.mem_cons_of_mem _ hjob

theorem Proceeds.sublist {jobs : List ℕ} (h : Proceeds history s e s') (hjobs : (job :: jobs).Sublist (s.pending v)) :
    e = .finished job ∨ (job :: jobs).Sublist (s'.pending v) := by
  rcases h.pending v with heq | ⟨head, rfl, heq⟩
  · exact .inr (heq ▸ hjobs)
  · rw [heq] at hjobs
    cases hjobs with
    | cons _ hrest => exact .inr hrest
    | cons_cons _ _ => exact .inl rfl

/-- Who has a worker had it before, and it was not released. -/
theorem Proceeds.lookup (h : Proceeds history s e s') (hkeys : (s.current.map (·.1)).Nodup)
    (hv : findValue? subject s'.current = some v) :
    findValue? subject s.current = some v ∧ ¬ e.Releases subject := by
  have hno : ¬ e.Releases subject := by
    intro hreleases
    cases (h.released hkeys hreleases).symm.trans hv
  exact ⟨(h.kept hno).symm.trans hv, hno⟩

theorem Proceeds.submitted (h : Proceeds history s e s') (ha : (history ++ [e])[a]? = some (.submitted subject)) :
    history[a]? = some (.submitted subject) :=
  (submitted_concat.1 ha).resolve_right fun hnew => h.job subject hnew.2

/-- No step but the submission of a job brings a job out of order. -/
theorem Orderly.proceed (h : Orderly history s) (hs : Proceeds history s e s') :
    Orderly (history ++ [e]) s' where
  keys := hs.keys h.keys
  fits hv := by
    rw [hs.size]
    exact h.fits (hs.lookup h.keys hv).1
  numbered hjob := by
    rw [List.length_append, List.length_singleton]
    exact (h.numbered (hs.mem_pending hjob)).trans (Nat.lt_succ_self _)
  unique hv hv' := h.unique (hs.mem_pending hv) (hs.mem_pending hv')
  nodup v := by
    rcases hs.pending v with heq | ⟨job, -, heq⟩
    · exact heq ▸ h.nodup v
    · have hnodup := h.nodup v
      rw [heq, List.nodup_cons] at hnodup
      exact hnodup.2
  began hv := by
    rcases hs.running hv with hold | rfl
    · exact List.mem_append_left _ (h.began hold)
    · exact List.mem_append_right _ (List.mem_singleton_self _)
  known hjob := by
    rw [List.length_append]
    apply Nat.lt_add_right
    rcases List.mem_append.1 hjob with hold | hnew
    · exact h.known hold
    · obtain ⟨v, hmem⟩ := hs.known (List.mem_singleton.1 hnew).symm
      exact h.numbered hmem
  ended hjob := by
    rcases List.mem_append.1 hjob with hold | hnew
    · exact List.mem_append_left _ (h.ended hold)
    · exact List.mem_append_left _ (hs.ended (List.mem_singleton.1 hnew).symm)
  taken {subject a} ha hno := by
    rw [releasedBetween_concat, not_or] at hno
    have hold := hs.submitted ha
    have hkept : ¬ e.Releases subject := fun hreleases => hno.2 ⟨lt_of_submitted hold, hreleases⟩
    rcases h.taken hold hno.1 with hdone | ⟨v, hv, hmem⟩
    · exact .inl (List.mem_append_left _ hdone)
    · rcases hs.sublist (List.singleton_sublist.2 hmem) with rfl | hmem
      · exact .inl (List.mem_append_right _ (List.mem_singleton_self _))
      · exact .inr ⟨v, (hs.kept hkept).trans hv, List.singleton_sublist.1 hmem⟩
  parted ha hparted hv hmem := by
    obtain ⟨hv, hno⟩ := hs.lookup h.keys hv
    rw [releasedBetween_concat, or_iff_left fun hnew => hno hnew.2] at hparted
    exact h.parted (hs.submitted ha) hparted hv (hs.mem_pending hmem)
  inOrder hab ha hb hjoined := by
    have hb := hs.submitted hb
    rw [joined_append (lt_of_submitted hb).le] at hjoined
    rcases h.inOrder hab (hs.submitted ha) hb hjoined with hdone | ⟨v, hv⟩
    · exact .inl (List.mem_append_left _ hdone)
    · rcases hs.sublist hv with rfl | hv
      · exact .inl (List.mem_append_right _ (List.mem_singleton_self _))
      · exact .inr ⟨v, hv⟩

theorem release_proceeds (s : Sequencer ℕ) (subject : Subject) :
    Proceeds history s (.released subject) (s.release subject).1 where
  job _ := Event.noConfusion
  keys := nodup_dropEntry subject
  size := rfl
  released := by
    rintro other hkeys rfl
    exact (findValue?_dropEntry hkeys).trans (if_pos rfl)
  kept hne := findValue?_dropEntry_of_ne (Ne.symm hne) _
  pending _ := .inl rfl
  running := .inl
  known := nofun
  ended := nofun

theorem releaseAll_proceeds (s : Sequencer ℕ) : Proceeds history s .releasedAll s.releaseAll where
  job _ := Event.noConfusion
  keys _ := List.nodup_nil
  size := rfl
  released _ _ := rfl
  kept hno := absurd trivial hno
  pending _ := .inl rfl
  running := .inl
  known := nofun
  ended := nofun

theorem start_proceeds (h : s.startJob? w = some (s', job)) : Proceeds history s (.started job) s' := by
  obtain ⟨hcurrent, hsize, hpending, ⟨jobs, hjobs⟩, hrunning⟩ := startJob?_spec h
  refine { job := fun _ => Event.noConfusion, keys := fun hkeys => by rwa [hcurrent], size := hsize,
           released := fun _ hreleases => hreleases.elim, kept := fun _ => by rw [hcurrent],
           pending := fun v => .inl (hpending v), running := ?_, known := ?_,
           ended := nofun }
  · intro v other hv
    rw [hrunning] at hv
    split at hv
    · exact .inr (congrArg Event.started (Option.some.inj hv))
    · exact .inl hv
  · intro other heq
    cases heq
    exact ⟨w, hjobs ▸ List.mem_cons_self⟩

theorem finish_proceeds (hbegan : ∀ {w job}, s.running w = some job → .started job ∈ history)
    (h : s.finishJob? w = some (s', job)) : Proceeds history s (.finished job) s' := by
  obtain ⟨hcurrent, hsize, hran, hhead, hpending, hrunning⟩ := finishJob?_spec h
  refine { job := fun _ => Event.noConfusion, keys := fun hkeys => by rwa [hcurrent], size := hsize,
           released := fun _ hreleases => hreleases.elim, kept := fun _ => by rw [hcurrent],
           pending := fun v => ?_, running := ?_, known := nofun, ended := ?_ }
  · by_cases hv : v = w
    · exact .inr ⟨job, rfl, hv ▸ hhead⟩
    · exact .inl (hpending v hv)
  · intro v other hv
    rw [hrunning] at hv
    split at hv
    · cases hv
    · exact .inl hv
  · intro other heq
    cases heq
    exact hbegan hran

theorem step_orderly (h : Orderly history s) (hstep : Step history.length s e s') :
    Orderly (history ++ [e]) s' := by
  cases hstep with
  | submit subject => exact h.submit (submit_spec h.fits _)
  | release subject => exact h.proceed (release_proceeds s subject)
  | releaseAll => exact h.proceed (releaseAll_proceeds s)
  | start hstart => exact h.proceed (start_proceeds hstart)
  | finish hfinish => exact h.proceed (finish_proceeds h.began hfinish)

theorem run_orderly (h : Run history s) : Orderly history s := by
  induction h with
  | start => exact start_orderly
  | step _ hstep ih => exact step_orderly ih hstep

/-! ### Jobs that run in turn -/

theorem finished_of_started (h : Run history s) (hab : a < b) (ha : history[a]? = some (.submitted subject))
    (hb : history[b]? = some (.submitted subject)) (hjoined : Joined history subject a b)
    (hm : history[m]? = some (.started b)) : .finished a ∈ history.take m := by
  obtain ⟨u, u', hrun, hstep⟩ := h.at hm
  have hu := run_orderly hrun
  cases hstep with
  | @start w _ _ hstart =>
    obtain ⟨-, -, -, ⟨jobs, hjobs⟩, -⟩ := startJob?_spec hstart
    have hhead : b ∈ u.pending w := hjobs ▸ List.mem_cons_self
    have hbm : b < m := (hu.numbered hhead).trans_le (List.length_take_le _ _)
    have hlen : b ≤ (history.take m).length := (hu.numbered hhead).le
    rw [← List.take_append_drop m history, joined_append hlen] at hjoined
    refine (hu.inOrder hab ?_ ?_ hjoined).resolve_right ?_
    · rwa [List.getElem?_take_of_lt (hab.trans hbm)]
    · rwa [List.getElem?_take_of_lt hbm]
    · rintro ⟨v, hv⟩
      -- the first job stands before the second at its worker, which has the second at its head
      obtain rfl := hu.unique (hv.subset (by simp)) hhead
      have hnodup := hu.nodup v
      rw [hjobs] at hv hnodup
      cases hv with
      | cons _ hv => exact (List.nodup_cons.1 hnodup).1 (hv.subset (by simp))
      | cons_cons _ _ => exact lt_irrefl _ hab

theorem in_turn_of_joined (h : Run history s) (hab : a < b) (ha : history[a]? = some (.submitted subject))
    (hb : history[b]? = some (.submitted subject)) (hjoined : Joined history subject a b) :
    InTurn history a b := by
  constructor
  · rintro n ⟨⟨-, hopen⟩, hstarted, -⟩
    obtain ⟨m, hm⟩ := List.mem_iff_getElem?.1 hstarted
    have hmn : m < n := (lt_of_submitted hm).trans_le (List.length_take_le _ _)
    rw [List.getElem?_take_of_lt hmn] at hm
    exact hopen (List.take_subset_take_left _ hmn.le (finished_of_started h hab ha hb hjoined hm))
  · intro m hm
    obtain ⟨u, u', hrun, -⟩ := h.at hm
    exact (run_orderly hrun).ended (finished_of_started h hab ha hb hjoined hm)

/-- A worker can finish the first of its jobs with no job of another worker being touched. -/
theorem exists_finished {jobs : List ℕ} (h : Run history s) (hjobs : s.pending w = job :: jobs) :
    ∃ rest t, Run (history ++ rest) t ∧ t.pending w = jobs ∧
      ∀ other, .started other ∈ rest ∨ .finished other ∈ rest → other = job := by
  cases hrunning : s.running w with
  | none =>
    obtain ⟨u, hstart⟩ := exists_startJob? hrunning hjobs
    obtain ⟨-, -, hpending, -, hran⟩ := startJob?_spec hstart
    have hran : u.running w = some job := (hran w).trans (if_pos rfl)
    obtain ⟨t, hfinish⟩ := exists_finishJob? hran
    obtain ⟨-, -, -, hhead, -, -⟩ := finishJob?_spec hfinish
    refine ⟨[.started job, .finished job], t, ?_, ?_, by simp⟩
    · have hrun := (h.step (.start hstart)).step (.finish hfinish)
      rwa [List.append_assoc] at hrun
    · rw [hpending, hjobs] at hhead
      exact (List.cons.inj hhead).2.symm
  | some head =>
    obtain ⟨t, hfinish⟩ := exists_finishJob? hrunning
    obtain ⟨-, -, -, hhead, -, -⟩ := finishJob?_spec hfinish
    obtain ⟨rfl, rfl⟩ := List.cons.inj (hjobs.symm.trans hhead)
    exact ⟨[.finished job], t, h.step (.finish hfinish), rfl, by simp⟩

theorem exists_drained {jobs later : List ℕ} (h : Run history s) (hjobs : s.pending w = jobs ++ later) :
    ∃ rest t, Run (history ++ rest) t ∧ t.pending w = later ∧
      ∀ job, .started job ∈ rest ∨ .finished job ∈ rest → job ∈ jobs := by
  induction jobs generalizing history s with
  | nil => exact ⟨[], s, by rwa [List.append_nil], hjobs, by simp⟩
  | cons job jobs ih =>
    obtain ⟨first, u, hrun, hpending, hfirst⟩ := exists_finished h hjobs
    obtain ⟨rest, t, hrun, hlater, hrest⟩ := ih hrun hpending
    refine ⟨first ++ rest, t, by rwa [← List.append_assoc], hlater, fun other hother => ?_⟩
    simp only [List.mem_append] at hother
    by_cases hmem : .started other ∈ rest ∨ .finished other ∈ rest
    · exact List.mem_cons_of_mem _ (hrest other hmem)
    · have heq := hfirst other (by tauto)
      exact heq ▸ List.mem_cons_self

/-- The worker that a subject has now can come to a job of its own while one that it never took on is
still to be finished. -/
theorem exists_out_of_turn (h : Run history s) (hb : b ∈ s.pending w) (ha : a ∉ s.pending w)
    (hopen : .finished a ∉ history) (hnew : .started b ∉ history) :
    ∃ rest t, Run (history ++ rest) t ∧ ¬ InTurn (history ++ rest) a b := by
  obtain ⟨jobs, later, hsplit⟩ := List.append_of_mem hb
  obtain ⟨rest, u, hrun, hpending, hrest⟩ := exists_drained h hsplit
  have hnodup := (run_orderly h).nodup w
  rw [hsplit] at ha hnodup
  have hbjobs : b ∉ jobs := fun hmem => (List.nodup_append.1 hnodup).2.2 b hmem b List.mem_cons_self rfl
  have hwaiting : Event.started b ∉ history ++ rest := by
    intro hmem
    rcases List.mem_append.1 hmem with hmem | hmem
    · exact hnew hmem
    · exact hbjobs (hrest b (.inl hmem))
  have hopen : Event.finished a ∉ history ++ rest := by
    intro hmem
    rcases List.mem_append.1 hmem with hmem | hmem
    · exact hopen hmem
    · exact ha (List.mem_append_left _ (hrest a (.inr hmem)))
  have hu := run_orderly hrun
  have hidle : u.running w = none := by
    cases hrunning : u.running w with
    | none => rfl
    | some head =>
      obtain ⟨t, hfinish⟩ := exists_finishJob? hrunning
      obtain ⟨-, -, -, hhead, -, -⟩ := finishJob?_spec hfinish
      obtain ⟨rfl, -⟩ := List.cons.inj (hpending.symm.trans hhead)
      exact absurd (hu.began hrunning) hwaiting
  obtain ⟨t, hstart⟩ := exists_startJob? hidle hpending
  refine ⟨rest ++ [.started b], t, ?_, fun hturn => ?_⟩
  · rw [← List.append_assoc]
    exact hrun.step (.start hstart)
  · rw [← List.append_assoc] at hturn
    have hstarted : Event.started a ∈ history ++ rest := by
      have hmem := hturn.order _ List.getElem?_concat_length
      rwa [List.take_left] at hmem
    refine hturn.apart (history ++ rest ++ [Event.started b]).length ?_
    rw [RunningAt, RunningAt, List.take_length]
    refine ⟨⟨List.mem_append_left _ hstarted, ?_⟩, by simp, ?_⟩
    · simpa using hopen
    · intro hmem
      exact hwaiting (hu.ended (by simpa using hmem))

/-- Two jobs of a subject are sure to run in turn exactly if the first was finished when the second was
submitted, or the subject was not released in between. -/
theorem in_turn_iff (h : Run history s) (ha : history[a]? = some (.submitted subject)) :
    (∀ rest t, Run (history ++ .submitted subject :: rest) t →
        InTurn (history ++ .submitted subject :: rest) a history.length) ↔
      .finished a ∈ history ∨ ¬ ReleasedBetween history subject a history.length := by
  have hlt := lt_of_submitted ha
  constructor
  · intro hturn
    by_contra hparted
    rw [not_or, not_not] at hparted
    have hs : Submitted s subject history.length _ _ := submit_spec (run_orderly h).fits history.length
    have hrun := h.step (.submit subject)
    have hnext := run_orderly hrun
    obtain ⟨rest, t, hrest, hno⟩ := exists_out_of_turn (a := a) (b := history.length) hrun
      (hs.mem_pending.2 (.inr ⟨rfl, rfl⟩)) (hnext.parted (submitted_concat.2 (.inl ha))
        (releasedBetween_concat.2 (.inl hparted.2)) hs.current) (by simpa using hparted.1)
      (fun hmem => lt_irrefl _ ((run_orderly h).known (by simpa using hmem)))
    rw [List.append_assoc] at hrest hno
    exact hno (hturn rest t hrest)
  · intro hjoined rest t hrun
    have hfirst : (history ++ .submitted subject :: rest)[a]? = some (.submitted subject) := by
      rwa [List.getElem?_append_left hlt]
    have hsecond : (history ++ .submitted subject :: rest)[history.length]? = some (.submitted subject) := by simp
    refine in_turn_of_joined hrun hlt hfirst hsecond ?_
    rw [joined_append le_rfl, Joined, List.take_length]
    exact hjoined

theorem waiting_job_in_turn :
    InTurn [.submitted (.receiver 0), .submitted (.receiver 0), .started 0, .finished 0, .started 1] 0 1 := by
  have hrun := Run.start.step (.submit (.receiver 0))
  have hrest := (((hrun.step (.submit (.receiver 0))).step (.start (w := 0) rfl)).step
    (.finish (w := 0) rfl)).step (.start (w := 0) rfl)
  refine (in_turn_iff hrun rfl).2 (.inr ?_) [.started 0, .finished 0, .started 1] _ hrest
  rintro ⟨k, e, hpos, hlt, -⟩
  exact absurd hlt (Nat.not_lt.2 hpos)

/-- A job that was running when its subject was released overlaps the next one of the subject. -/
theorem released_job_overlaps :
    (∃ s, Run [.submitted (.receiver 0), .started 0, .released (.receiver 0), .submitted (.receiver 0),
      .started 3] s) ∧
    ¬ InTurn [.submitted (.receiver 0), .started 0, .released (.receiver 0), .submitted (.receiver 0),
      .started 3] 0 3 := by
  constructor
  · exact ⟨_, ((((Run.start.step (.submit (.receiver 0))).step (.start (w := 0) rfl)).step
      (.release (.receiver 0))).step (.submit (.receiver 0))).step (.start (w := 1) rfl)⟩
  · intro hturn
    exact hturn.apart 5 ⟨⟨by decide, by decide⟩, by decide, by decide⟩

end Reenact.Sequencer
