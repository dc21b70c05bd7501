import Mathlib
import Reenact.Proofs.Asserted
import Reenact.Proofs.GeneratedTest
import Reenact.Proofs.Unchanged

/-!
What a test leaves out. Each moment of a call is captured in nodes of its own, and the live values
decide: what is deeply equal before the call and after it is not asserted, and everything else is.
-/

namespace Reenact

/-- Whether a value of one moment is deeply different from one of a later moment. -/
def Heap.differ (types : ClassTable) (before after : Heap) (v w : Value) : Bool :=
  !DeepEquality.equals (before.structure types) (after.structure types) v w

/-- A node that is compared by what it shows is equal to itself. -/
theorem Graph.equal_self {g : Graph} {n : NodeId} {x : Node} (hx : g.get? n = some x)
    (hplain : x.isReference = false) : g.equal n g n = true := by
  have hidentity : g.identity n = none := by simp [Graph.identity, hx, hplain]
  have hshown : ∃ p, g.inspect n = .plain p := by
    unfold Graph.inspect
    rw [hx]
    cases x with
    | atom content => cases content <;> exact ⟨_, rfl⟩
    | constant => exact ⟨_, rfl⟩
    | composite => cases hplain
  refine DeepEquality.equals_of_bisimulation (R := fun _ _ => False)
    ⟨fun _ _ h => h.elim, fun _ _ h => h.elim⟩ ?_
  have hnone : ¬ ((g.structure.identity n).isSome ∧ (g.structure.identity n).isSome) := by
    simp [Graph.structure, hidentity]
  rw [DeepEquality.Agree, if_neg hnone]
  exact hshown.imp fun p hp => ⟨hp, hp⟩

namespace TestGenerator

open Serialization (standard view_captured)

variable {types : ClassTable} {before after : Heap} {g : Graph} {met met' : ObjectId → NodeId → Prop}

/-! ### Verdicts on live values -/

/-- A node that stands for values of both moments shows a plain value. -/
theorem plain_of_shared (hc : Captured before types g met) (hapart : ∀ {a b n}, met a n → ¬ met' b n)
    {v w : Value} {n : NodeId} (hv : Shows g met v n) (hw : Shows g met' w n) :
    ∃ x, g.get? n = some x ∧ x.isReference = false := by
  cases hv with
  | null hn => exact ⟨_, hn, rfl⟩
  | scalar hn => exact ⟨_, hn, rfl⟩
  | constant hn => exact ⟨_, hn, rfl⟩
  | object hm =>
    obtain ⟨o, slots, declared, content, -, -, hn, -⟩ := hc.holds hm
    cases hw with
    | null hn' => cases hn.symm.trans hn'
    | scalar hn' => cases hn.symm.trans hn'
    | constant hn' => cases hn.symm.trans hn'
    | object hm' => exact (hapart hm hm').elim

theorem changed_eq_differ (hc : Captured before types g met) (hc' : Captured after types g met')
    (hapart : ∀ {a b n}, met a n → ¬ met' b n) {v w : Value} {n k : NodeId} (hv : Shows g met v n)
    (hw : Shows g met' w k) : changed g n k = Heap.differ types before after v w := by
  have hverdict : DeepEquality.equals (before.structure types) (after.structure types) v w = g.equal n g k :=
    DeepEquality.equals_eq_of_views (view_captured hc) (view_captured hc') hv hw
  unfold changed Heap.differ
  rw [hverdict]
  by_cases heq : n = k
  · subst heq
    obtain ⟨x, hx, hplain⟩ := plain_of_shared hc hapart hv hw
    rw [Graph.equal_self hx hplain, bne_self_eq_false, Bool.false_and, Bool.not_true]
  · rw [bne_iff_ne.2 heq, Bool.true_and]

/-! ### From live values to their nodes -/

section

variable {α β : Type} {r r' : α → β → Prop}

/-- Two moments related part by part. -/
structure Moment.Rel (r : α → β → Prop) (m : Moment α) (n : Moment β) : Prop where
  receiver : Option.Rel r m.receiver n.receiver
  args : List.Forall₂ r m.args n.args
  globals : List.Forall₂ r m.globals n.globals

/-- The same code for related things. -/
structure Watched.Rel (r r' : α → β → Prop) (w : Watched α) (x : Watched β) : Prop where
  code : w.code = x.code
  before : r w.before x.before
  after : r' w.after x.after

theorem watch_rel (code : List Expr) {vs vs' : List α} {ns ns' : List β} (hbefore : List.Forall₂ r vs ns)
    (hafter : List.Forall₂ r' vs' ns') :
    List.Forall₂ (Watched.Rel r r') (watch code vs vs') (watch code ns ns') := by
  unfold watch
  rw [List.forall₂_map_left_iff, List.forall₂_map_right_iff]
  induction code generalizing vs ns vs' ns' with
  | nil => exact .nil
  | cons e code ih =>
    cases hbefore with
    | nil => exact .nil
    | cons hv hbefore =>
      cases hafter with
      | nil => exact .nil
      | cons hw hafter => exact .cons ⟨rfl, hv, hw⟩ (ih hbefore hafter)

theorem unsettled_rel (sig : Signature) {ws : List (Watched α)} {xs : List (Watched β)}
    (h : List.Forall₂ (Watched.Rel r r') ws xs) :
    List.Forall₂ (Watched.Rel r r') (unsettled sig ws) (unsettled sig xs) := by
  have hnumbered : ∀ k, List.Forall₂ (fun w x => Watched.Rel r r' w.1 x.1 ∧ w.2 = x.2) (ws.zipIdx k) (xs.zipIdx k) := by
    induction h with
    | nil => exact fun _ => .nil
    | cons hw _ ih => exact fun k => .cons ⟨hw, rfl⟩ (ih (k + 1))
  unfold unsettled
  rw [List.forall₂_map_left_iff, List.forall₂_map_right_iff]
  refine (List.rel_filter (fun w x hwx => ?_) (hnumbered 0)).imp fun _ _ => And.left
  simp only [hwx.1.code, hwx.2]

theorem watched_rel (sig : Signature) (target : Option Expr) (args : List Expr) (globals : List GlobalRef)
    {m m' : Moment α} {n n' : Moment β} (hbefore : m.Rel r n) (hafter : m'.Rel r' n') :
    List.Forall₂ (Watched.Rel r r') (watched sig target args globals m m') (watched sig target args globals n n') :=
  List.rel_append
    (List.rel_append (watch_rel _ (forall₂_toList hbefore.receiver) (forall₂_toList hafter.receiver))
      (unsettled_rel sig (watch_rel args hbefore.args hafter.args)))
    (watch_rel _ hbefore.globals hafter.globals)

/-- Where one verdict is given on related things, the same code is left. -/
theorem differing_rel {differ : α → α → Bool} {differ' : β → β → Bool}
    (hverdict : ∀ v n w k, r v n → r' w k → differ v w = differ' n k) {ws : List (Watched α)}
    {xs : List (Watched β)} (h : List.Forall₂ (Watched.Rel r r') ws xs) :
    List.Forall₂ (Watched.Rel r r') (differing differ ws) (differing differ' xs) := by
  refine List.rel_filter (fun w x hwx => ?_) h
  exact Bool.eq_iff_iff.1 (hverdict _ _ _ _ hwx.before hwx.after)

theorem map_code_of_rel {ws : List (Watched α)} {xs : List (Watched β)}
    (h : List.Forall₂ (Watched.Rel r r') ws xs) : ws.map (·.code) = xs.map (·.code) := by
  rw [← List.forall₂_eq_eq_eq, List.forall₂_map_left_iff, List.forall₂_map_right_iff]
  exact h.imp fun _ _ => Watched.Rel.code

end

/-- The live values of one moment. -/
def Moment.live (l : LiveState) : Moment Value := ⟨l.receiver, l.args, l.globals⟩

theorem rel_of_portrays {globals : List GlobalRef} {live : LiveState} {p : PhaseState}
    (hsupplied : live.globals.length = globals.length) (h : Population.Portrays g met globals live p) :
    (Moment.live live).Rel (Shows g met) (moment p) where
  receiver := h.receiver
  args := h.args
  globals := by
    have hvalues : List.Forall₂ (Shows g met) ((globals.zip live.globals).map (·.2)) (p.globals.map (·.value)) := by
      rw [List.forall₂_map_left_iff, List.forall₂_map_right_iff]
      exact h.globals.imp fun _ _ => And.right
    rwa [List.map_snd_zip hsupplied.le] at hvalues

/-! ### Values that are left alone -/

section

variable {α : Type} {w : Watched α}

theorem mem_watch_self {code : List Expr} {vs : List α} (hw : w ∈ watch code vs vs) :
    w.before = w.after ∧ w.before ∈ vs := by
  obtain ⟨⟨e, v, v'⟩, hmem, rfl⟩ := List.mem_map.1 hw
  have hpair := (List.of_mem_zip hmem).2
  exact ⟨List.forall₂_zip (List.forall₂_refl vs) hpair, (List.of_mem_zip hpair).1⟩

theorem mem_of_mem_unsettled {sig : Signature} {ws : List (Watched α)} (hw : w ∈ unsettled sig ws) : w ∈ ws := by
  obtain ⟨x, hx, rfl⟩ := List.mem_map.1 hw
  exact List.fst_mem_of_mem_zipIdx (List.mem_filter.1 hx).1

/-- What is watched in a state that stays is one of its values, before the call and after it. -/
theorem mem_watched_self {sig : Signature} {target : Option Expr} {args : List Expr} {globals : List GlobalRef}
    {live : LiveState} {w : Watched Value}
    (hw : w ∈ watched sig target args globals (.live live) (.live live)) :
    w.before = w.after ∧ w.before ∈ live.values := by
  unfold LiveState.values
  simp only [watched, List.mem_append] at hw ⊢
  rcases hw with (hw | hw) | hw
  · exact (mem_watch_self hw).imp_right fun hv => .inl (.inl hv)
  · exact (mem_watch_self (mem_of_mem_unsettled hw)).imp_right fun hv => .inl (.inr hv)
  · exact (mem_watch_self hw).imp_right .inr

end

/-- Nothing differs in a state whose objects have all stayed as they were. -/
theorem differing_of_unchanged (hfields : types.FieldsDistinct) {live : LiveState}
    (hdistinct : ∀ v ∈ live.values, before.KeysDistinct v) (hsame : ∀ v ∈ live.values, before.Unchanged after v)
    (sig : Signature) (target : Option Expr) (args : List Expr) (globals : List GlobalRef) :
    differing (Heap.differ types before after)
      (watched sig target args globals (.live live) (.live live)) = [] := by
  refine List.filter_eq_nil_iff.2 fun w hw => ?_
  obtain ⟨heq, hmem⟩ := mem_watched_self hw
  rw [Heap.differ, ← heq, DeepEquality.equals_of_unchanged hfields (hdistinct _ hmem) (hsame _ hmem)]
  exact Bool.false_ne_true

/-! ### The test of a call -/

section

open Population (Portrays Reported)

variable {sig : Signature} {globals : List GlobalRef} {live live' : LiveState} {outcome : LiveOutcome}
  {s : Snapshot}

/-- What a snapshot holds of a call: the live values before it and after it, in nodes of their own. -/
structure Compares (types : ClassTable) (before after : Heap) (globals : List GlobalRef) (live live' : LiveState)
    (s : Snapshot) : Prop where
  globals : s.expect.globals.map (·.global) = globals
  verdict : ∃ r r' : Value → NodeId → Prop, (Moment.live live).Rel r (moment s.setup) ∧
    (Moment.live live').Rel r' (moment s.expect) ∧
    ∀ v n w k, r v n → r' w k → Heap.differ types before after v w = changed s.graph n k

variable (types) in
theorem populated_compares (hlive : ∀ v ∈ live.values, before.Readable v)
    (hlive' : ∀ v ∈ live'.values, after.Readable v) (hsupplied : live.globals.length = globals.length)
    (hsupplied' : live'.globals.length = globals.length) (houtcome : ∀ v ∈ outcome.values, after.Readable v)
    {inputs outputs : List LiveCall} (hcalls : ∀ call ∈ inputs ++ outputs, ∀ v ∈ call.values, after.Readable v)
    (sig : Signature) (g₀ : Graph) (i i' : Interner) :
    let first := Population.setup ⟨before, types, standard⟩ globals live (.new sig g₀) i
    let second := Population.expect ⟨after, types, standard⟩ globals live' outcome inputs outputs first.snapshot i'
    first.answer = .ok () ∧ second.answer = .ok () ∧ second.snapshot.signature = sig ∧
      Compares types before after globals live live' second.snapshot ∧
      ((∃ v, outcome = .returned v) → ∃ r, second.snapshot.outcome = .returned r) ∧
      (outputs = [] → second.snapshot.outputs = []) := by
  intro first second
  obtain ⟨state, t, j, elapsed, hsetup, htidy, hc, hportrays⟩ :=
    Population.setup_portrays types hlive hsupplied sig g₀ i
  obtain ⟨a, g, j', elapsed', met', hexpect, hwhole, hkept, hnew, hc', hportrays', hreported⟩ :=
    Population.expect_portrays types hlive' hsupplied' houtcome
      (fun call hcall => hcalls call (List.mem_append_left _ hcall))
      (fun call hcall => hcalls call (List.mem_append_right _ hcall)) first.snapshot i'
  rw [show first = _ from hsetup] at hkept hnew hreported
  rw [show second = _ from hexpect, show first = _ from hsetup]
  have hapart : ∀ {a b n}, t.Met a n → ¬ met' b n := fun hm hm' => (htidy.lt_size hm).not_ge (hnew hm')
  have hshown : Portrays g t.Met globals live state :=
    hportrays.mono fun hv => hv.mono (fun hx _ => hkept hx) fun hm => hm
  refine ⟨rfl, rfl, rfl, ⟨hwhole.state.globals, Shows g t.Met, Shows g met', ?_, ?_, ?_⟩, ?_, ?_⟩
  · exact rel_of_portrays hsupplied hshown
  · exact rel_of_portrays hsupplied' hportrays'
  · exact fun _ _ _ _ hv hw => (changed_eq_differ (hc.mono hkept) hc' hapart hv hw).symm
  · rintro ⟨v, rfl⟩
    exact hreported.returned
  · rintro rfl
    exact List.forall₂_nil_left_iff.1 hwhole.outputs

/-- There is code for the receiver, if there is one, and for each argument. -/
theorem arrange_code {c : Reconstruction.Context} {st built : Reconstruction.State} {target : Option Expr}
    {es : List Expr} (h : arrange c s st = (.ok (target, es), built)) :
    target.isSome = s.setup.receiver.isSome ∧ es.length = s.setup.args.length := by
  have hrest : ∀ {receiver st'}, (do
      let args ← s.setup.args.zipIdx.mapM fun a => Reconstruction.valueFor c a.1 (s.signature.param a.2)
      s.setup.globals.forM (setGlobal c)
      s.inputs.forM (stubInput c)
      return (receiver, args) : Reconstruction.Build (Option Expr × List Expr)) st' = (.ok (target, es), built) →
      receiver = target ∧ es.length = s.setup.args.length := by
    intro receiver st' hrun
    obtain ⟨args, _, hargs, hrun⟩ := Effect.bind_ok.1 hrun
    obtain ⟨_, _, -, hrun⟩ := Effect.bind_ok.1 hrun
    obtain ⟨_, _, -, hpure⟩ := Effect.bind_ok.1 hrun
    cases hpure
    exact ⟨rfl, by rw [← (Effect.forall₂_of_mapM hargs).length_eq, List.length_zipIdx]⟩
  unfold arrange at h
  cases hroot : s.setup.receiver with
  | none =>
    rw [hroot] at h
    obtain ⟨receiver, _, hreceiver, hrun⟩ := Effect.bind_ok.1 h
    cases hreceiver
    obtain ⟨rfl, hlength⟩ := hrest hrun
    exact ⟨rfl, hlength⟩
  | some id =>
    rw [hroot] at h
    obtain ⟨receiver, _, hreceiver, hrun⟩ := Effect.bind_ok.1 h
    obtain ⟨e, -, rfl⟩ := Effect.map_ok.1 hreceiver
    obtain ⟨rfl, hlength⟩ := hrest hrun
    exact ⟨rfl, hlength⟩

/-- The code of the test, and what it has code for. -/
structure Codes (gen : TestGenerator) (s : Snapshot) (unit : TestUnit) (live : LiveState) (target : Option Expr)
    (es : List Expr) : Prop where
  arrange : ∃ built, arrange ⟨s.graph, gen.types, gen.setup⟩ s (.start .empty) = (.ok (target, es), built) ∧
    unit.arrange = .comment ("captured " ++ s.signature.text) :: built.statements
  act : act gen.types s (callExpr s.signature target es) = .ok unit.act
  receiver : target.isSome = live.receiver.isSome
  args : es.length = live.args.length

theorem Compares.asserted (h : Compares types before after globals live live' s) {gen gen' : TestGenerator}
    {unit : TestUnit} (hgenerate : gen.generate s = (gen', .ok unit)) :
    ∃ target es, Codes gen s unit live target es ∧
      let changes := differing (before.differ types after)
        (watched s.signature target es globals (.live live) (.live live'))
      unit.subjects = outcomeSubjects s.signature s.outcome ++ changes.map (·.code) ∧
        (s.signature.isVoid → (∃ r, s.outcome = .returned r) → s.outputs = [] → changes = [] → unit.check = []) := by
  obtain ⟨target, es, built, acts, state, harrange, hact, hassert, harranges, rfl, hcheck⟩ := generate_ok hgenerate
  obtain ⟨r, r', hbefore, hafter, hverdict⟩ := h.verdict
  obtain ⟨hreceiver, hargs⟩ := arrange_code harrange
  have hchanges := differing_rel hverdict (watched_rel s.signature target es globals hbefore hafter)
  refine ⟨target, es, ⟨⟨built, harrange, harranges⟩, hact, ?_, ?_⟩, ?_, ?_⟩
  · rw [hreceiver]
    exact (isSome_of_rel hbefore.receiver).symm
  · rw [hargs]
    exact hbefore.args.length_eq.symm
  · rw [map_code_of_rel hchanges, ← h.globals]
    obtain ⟨emitted, hemitted, hsubjects⟩ := assertAll_asserts target es _ _ _ hassert
    rw [TestUnit.subjects, hcheck, hemitted]
    exact hsubjects
  · intro hvoid hreturned houtputs hnone
    rw [hnone, ← h.globals] at hchanges
    have hidle : assertAll ⟨s.graph, gen.types, gen.matchers⟩ s target es = pure () :=
      assertAll_idle hvoid hreturned houtputs (List.forall₂_nil_left_iff.1 hchanges)
    rw [hidle] at hassert
    cases hassert
    exact hcheck

/-- With the standard serializers, a call on readable values can be captured, and each test that comes
about asserts the outcome and then exactly what is deeply different after the call: the receiver, the
arguments that are not settled, and the static fields, in this order. So a call that returns nothing,
calls nothing out and leaves every object and static field as it was has nothing to assert. -/
theorem only_changes_asserted (types : ClassTable) (sig : Signature) {receiver : Option Value}
    {args gs gs' : List Value} {inputs outputs : List LiveCall}
    (hbefore : ∀ v ∈ LiveState.values ⟨receiver, args, gs⟩, before.Readable v)
    (hafter : ∀ v ∈ LiveState.values ⟨receiver, args, gs'⟩, after.Readable v)
    (houtcome : ∀ v ∈ outcome.values, after.Readable v)
    (hcalls : ∀ call ∈ inputs ++ outputs, ∀ v ∈ call.values, after.Readable v)
    (hsupplied : gs.length = globals.length) (hsupplied' : gs'.length = globals.length) (g₀ : Graph)
    (i i' : Interner) :
    let live : LiveState := ⟨receiver, args, gs⟩
    let live' : LiveState := ⟨receiver, args, gs'⟩
    let first := Population.setup ⟨before, types, standard⟩ globals live (.new sig g₀) i
    let second := Population.expect ⟨after, types, standard⟩ globals live' outcome inputs outputs first.snapshot i'
    first.answer = .ok () ∧ second.answer = .ok () ∧
      ∀ gen gen' unit, gen.generate second.snapshot = (gen', .ok unit) →
        ∃ target es, Codes gen second.snapshot unit live target es ∧
          let differ := before.differ types after
          let changes := differing differ (watch target.toList receiver.toList receiver.toList) ++
            differing differ (unsettled sig (watch es args args)) ++
            differing differ (watch (globals.map globalCode) gs gs')
          unit.subjects = outcomeSubjects sig second.snapshot.outcome ++ changes.map (·.code) ∧
            (sig.isVoid → (∃ v, outcome = .returned v) → outputs = [] → changes = [] → unit.check = []) ∧
            (types.FieldsDistinct → (∀ v ∈ live.values, before.KeysDistinct v) → gs' = gs →
              (∀ v ∈ live.values, before.Unchanged after v) → changes = []) := by
  intro live live' first second
  obtain ⟨hfirst, hsecond, hsig, hcompares, hreturned, hnone⟩ := populated_compares types hbefore hafter hsupplied
    hsupplied' houtcome hcalls sig g₀ i i'
  refine ⟨hfirst, hsecond, fun gen gen' unit hgenerate => ?_⟩
  obtain ⟨target, es, hcodes, hsubjects, hidle⟩ := hcompares.asserted hgenerate
  rw [hsig] at hsubjects hidle
  have hparts : differing (before.differ types after) (watched sig target es globals (.live live) (.live live')) =
      differing (before.differ types after) (watch target.toList receiver.toList receiver.toList) ++
        differing (before.differ types after) (unsettled sig (watch es args args)) ++
        differing (before.differ types after) (watch (globals.map globalCode) gs gs') := by
    unfold differing watched
    rw [List.filter_append, List.filter_append]
    rfl
  rw [hparts] at hsubjects hidle
  refine ⟨target, es, hcodes, hsubjects, fun hvoid hout hno hchanges => ?_, fun hfields hdistinct hgs hsame => ?_⟩
  · exact hidle hvoid (hreturned hout) (hnone hno) hchanges
  · subst hgs
    exact hparts.symm.trans (differing_of_unchanged hfields hdistinct hsame sig target es globals)

/-- An element is added to a list and a static field is set; the other list is left as it was. -/
theorem added_element_asserted :
    let o : Obj := ⟨.ofClass "ArrayList", .list [], false⟩
    let h : Heap := ⟨#[o, o]⟩
    let h' := (h.push 0 (.object 1)).1
    let sig : Signature := ⟨.ofClass "List", "add", [.object], .void⟩
    let last : GlobalRef := ⟨"app::Audit", "last", .object⟩
    let first := Population.setup ⟨h, .builtin, standard⟩ [last] ⟨some (.object 0), [.object 1], [.null]⟩
      (.new sig .empty) .empty
    let second := Population.expect ⟨h', .builtin, standard⟩ [last] ⟨some (.object 0), [.object 1], [.object 1]⟩
      (.returned none) [] [] first.snapshot first.interner
    ∃ gen unit target, (TestGenerator.new .builtin Reconstruction.standard Verification.standard).generate
        second.snapshot = (gen, .ok unit) ∧ unit.subjects = [target, globalCode last] := by
  intro o h h' sig last first second
  have hbefore : ∀ v ∈ LiveState.values ⟨some (.object 0), [.object 1], [.null]⟩, h.Readable v := by decide +kernel
  have hafter : ∀ v ∈ LiveState.values ⟨some (.object 0), [.object 1], [.object 1]⟩, h'.Readable v := by
    decide +kernel
  have houtcome : ∀ v ∈ (LiveOutcome.returned none).values, h'.Readable v := by decide +kernel
  have hcalls : ∀ call ∈ ([] : List LiveCall) ++ [], ∀ v ∈ call.values, h'.Readable v := by decide +kernel
  have hsupplied : [Value.null].length = [last].length := rfl
  obtain ⟨-, -, hunit⟩ := only_changes_asserted .builtin sig hbefore hafter houtcome hcalls hsupplied rfl .empty
    .empty first.interner
  cases hgenerate : (TestGenerator.new .builtin Reconstruction.standard Verification.standard).generate
    second.snapshot with
  | mk gen answer =>
  have hok : answer.toOption.isSome = true := by
    rw [← show (_, _).2 = answer from congrArg Prod.snd hgenerate]
    decide +kernel
  cases answer with
  | error e => cases hok
  | ok unit =>
    obtain ⟨target, es, hcodes, hsubjects, -⟩ := hunit _ gen unit hgenerate
    obtain ⟨t, rfl⟩ := Option.isSome_iff_exists.1 hcodes.receiver
    obtain ⟨e, rfl⟩ := List.length_eq_one_iff.1 hcodes.args
    have hreceiver : h.differ .builtin h' (.object 0) (.object 0) = true := by decide +kernel
    have harg : h.differ .builtin h' (.object 1) (.object 1) = false := by decide +kernel
    have hglobal : h.differ .builtin h' .null (.object 1) = true := by decide +kernel
    have hnothing : outcomeSubjects sig second.snapshot.outcome = [] := by decide +kernel
    have hsettled : differing (h.differ .builtin h') (unsettled sig (watch [e] [.object 1] [.object 1])) = [] := by
      refine List.filter_eq_nil_iff.2 fun w hw => ?_
      obtain ⟨heq, hmem⟩ := mem_watch_self (mem_of_mem_unsettled hw)
      rw [← heq, List.mem_singleton.1 hmem, harg]
      exact Bool.false_ne_true
    refine ⟨gen, unit, t, rfl, hsubjects.trans ?_⟩
    rw [hnothing, hsettled]
    simp [differing, watch, hreceiver, hglobal]

/-- A call without result throws before it has changed anything; the error is asserted. -/
theorem thrown_error_asserted :
    let h : Heap := ⟨#[⟨.ofClass "ArrayList", .list [], false⟩]⟩
    let sig : Signature := ⟨.ofClass "List", "clear", [], .void⟩
    let live : LiveState := ⟨some (.object 0), [], []⟩
    let first := Population.setup ⟨h, .builtin, standard⟩ [] live (.new sig .empty) .empty
    let second := Population.expect ⟨h, .builtin, standard⟩ [] live (.threw (.scalar (.str "refused"))) [] []
      first.snapshot first.interner
    sig.isVoid ∧ ClassTable.builtin.FieldsDistinct ∧ h.KeysDistinct (.object 0) ∧
      first.answer = .ok () ∧ second.answer = .ok () ∧ second.snapshot.outputs = [] ∧
      ∃ gen unit, (TestGenerator.new .builtin Reconstruction.standard Verification.standard).generate
        second.snapshot = (gen, .ok unit) ∧ unit.check ≠ [] := by
  intro h sig live first second
  have hrun : (match (TestGenerator.new .builtin Reconstruction.standard Verification.standard).generate
        second.snapshot with
      | (_, .ok unit) => !unit.check.isEmpty
      | _ => false) = true := by
    decide +kernel
  refine ⟨by decide, by decide +kernel, by decide +kernel, by decide +kernel, by decide +kernel, by decide +kernel, ?_⟩
  split at hrun
  · next gen unit hgenerate =>
    exact ⟨gen, unit, hgenerate, by simpa using hrun⟩
  · cases hrun

end

end TestGenerator

end Reenact
