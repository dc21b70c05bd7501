import Mathlib
import Reenact.Capture.Population
import Reenact.Proofs.Additions

/-!
Populating a snapshot with the state around a call: with the standard serializers it succeeds on
every readable state, and the nodes it stores show the live values of their moment.
-/

namespace Reenact

def LiveState.values (l : LiveState) : List Value := l.receiver.toList ++ l.args ++ l.globals

def LiveOutcome.values : LiveOutcome → List Value
  | .returned result => result.toList
  | .threw error => [error]

def LiveCall.values (c : LiveCall) : List Value := c.args ++ c.result.toList

end Reenact

namespace Reenact.Population

open Serialization

/-! ### Populations that go well -/

/-- There is a node of the graph for everything observed at one moment. -/
structure Complete (g : Graph) (globals : List GlobalRef) (live : LiveState) (p : PhaseState) : Prop where
  receiver : p.receiver.isSome = live.receiver.isSome
  args : p.args.length = live.args.length
  globals : p.globals.map (·.global) = globals
  nodes : g.Contains p.roots

theorem Complete.mono {g g' : Graph} {globals : List GlobalRef} {live : LiveState} {p : PhaseState}
    (h : Complete g globals live p) (hg : g.Extended g') : Complete g' globals live p :=
  { h with nodes := h.nodes.mono hg }

/-- The record is what serializing the call gave, in a graph that has only grown since. -/
def Recorded (c : Context) (g : Graph) (call : LiveCall) (r : CallRecord) : Prop :=
  ∃ s t, callRecord c call s = (.ok r, t) ∧ t.graph.Extended g

section

variable {c : Context} {sig : Signature} {globals : List GlobalRef} {live : LiveState}
  {outcome : LiveOutcome} {inputs outputs : List LiveCall} {st st' : State}

private theorem optionalNode_isSome {v : Option Value} {declared : Ty} {n : Option NodeId}
    (h : optionalNode c v declared st = (.ok n, st')) : n.isSome = v.isSome := by
  cases v with
  | none => cases h; rfl
  | some v =>
    obtain ⟨n, -, rfl⟩ := Effect.map_ok.1 h
    rfl

private theorem argNodes_length {params : List Ty} {args : List Value} {ns : List NodeId}
    (h : argNodes c params args st = (.ok ns, st')) : ns.length = args.length := by
  rw [← (Effect.forall₂_of_mapM h).length_eq, List.length_zipIdx]

theorem phaseState_complete {phase : Phase} {p : PhaseState} (hst : st.Bounded)
    (h : phaseState c phase sig globals live st = (.ok p, st')) :
    Complete st'.graph globals live p := by
  obtain ⟨-, -, hnodes⟩ := phaseState_adds c phase sig globals live st _ st' hst h
  unfold phaseState at h
  simp only at h
  split at h
  · cases h
  · next hsupplied =>
    obtain ⟨receiver, _, hreceiver, h⟩ := Effect.bind_ok.1 h
    obtain ⟨args, _, hargs, h⟩ := Effect.bind_ok.1 h
    obtain ⟨gs, _, hglobals, hpure⟩ := Effect.bind_ok.1 h
    cases hpure
    refine ⟨optionalNode_isSome hreceiver, argNodes_length hargs, ?_, hnodes _ rfl⟩
    have hpairs := Effect.forall₂_of_mapM hglobals
    have hfirst : List.Forall₂ (· = ·) ((globals.zip live.globals).map (·.1)) (gs.map (·.global)) := by
      refine List.forall₂_map_left_iff.2 (List.forall₂_map_right_iff.2 (hpairs.imp ?_))
      rintro a b ⟨u, v, hrun⟩
      obtain ⟨n, _, -, hpure⟩ := Effect.bind_ok.1 hrun
      cases hpure
      rfl
    rw [List.forall₂_eq_eq_eq] at hfirst
    rw [← hfirst, List.map_fst_zip (not_not.1 hsupplied).ge]

private theorem outcomeNodes_ne_pending {o : Outcome}
    (h : outcomeNodes c sig outcome st = (.ok o, st')) : o ≠ .pending := by
  cases outcome with
  | returned result =>
    rw [outcomeNodes] at h
    by_cases hvoid : sig.isVoid
    · rw [if_pos hvoid] at h
      cases h
      exact Outcome.noConfusion
    · rw [if_neg hvoid] at h
      obtain ⟨n, -, rfl⟩ := Effect.map_ok.1 h
      exact Outcome.noConfusion
  | threw error =>
    obtain ⟨n, -, rfl⟩ := Effect.map_ok.1 h
    exact Outcome.noConfusion

/-- What was stored of the moment after a call: nodes of the graph for all of it, and a record of every
nested call, in order. -/
structure Aftermath.Whole (c : Context) (g : Graph) (globals : List GlobalRef) (live : LiveState)
    (inputs outputs : List LiveCall) (a : Aftermath) : Prop where
  state : Complete g globals live a.state
  outcome : a.outcome ≠ .pending
  inputs : List.Forall₂ (Recorded c g) inputs a.inputs
  outputs : List.Forall₂ (Recorded c g) outputs a.outputs
  nodes : g.Contains a.roots

/-- The steps after a call, each from where the one before it ended. -/
theorem aftermath_ok {a : Aftermath}
    (h : aftermath c sig globals live outcome inputs outputs st = (.ok a, st')) :
    ∃ t u v : State, phaseState c .expect sig globals live st = (.ok a.state, t) ∧
      outcomeNodes c sig outcome t = (.ok a.outcome, u) ∧
      outputs.mapM (callRecord c) u = (.ok a.outputs, v) ∧
      inputs.mapM (callRecord c) { v with identities := [] } = (.ok a.inputs, st') := by
  obtain ⟨state, t, hstate, h⟩ := Effect.bind_ok.1 h
  obtain ⟨o, u, houtcome, h⟩ := Effect.bind_ok.1 h
  obtain ⟨outs, v, houtputs, h⟩ := Effect.bind_ok.1 h
  obtain ⟨_, w, hreset, h⟩ := Effect.bind_ok.1 h
  obtain ⟨ins, x, hinputs, hpure⟩ := Effect.bind_ok.1 h
  cases hreset
  cases hpure
  exact ⟨t, u, v, hstate, houtcome, houtputs, hinputs⟩

theorem aftermath_whole {a : Aftermath} (hst : st.Bounded)
    (h : aftermath c sig globals live outcome inputs outputs st = (.ok a, st')) :
    a.Whole c st'.graph globals live inputs outputs := by
  obtain ⟨-, -, hnodes⟩ := aftermath_adds c sig globals live outcome inputs outputs st _ st' hst h
  obtain ⟨t, u, v, hstate, houtcome, houtputs, hinputs⟩ := aftermath_ok h
  obtain ⟨-, ht, -⟩ := phaseState_adds c .expect sig globals live st _ t hst hstate
  obtain ⟨htu, hu, -⟩ := outcomeNodes_adds c sig outcome t _ u ht houtcome
  obtain ⟨huv, -, -⟩ := callRecords_adds c outputs u _ v hu houtputs
  have hforgotten : State.Bounded { v with identities := [] } := fun _ _ hm => nomatch hm
  obtain ⟨hvx, -, -⟩ := callRecords_adds c inputs _ _ st' hforgotten hinputs
  refine ⟨(phaseState_complete hst hstate).mono (htu.trans (huv.trans hvx)),
    outcomeNodes_ne_pending houtcome, Adds.forall₂ (callRecord_adds c) hforgotten hinputs, ?_, hnodes _ rfl⟩
  exact (Adds.forall₂ (callRecord_adds c) hu houtputs).imp
    fun _ _ ⟨s, s', hrun, hgrown⟩ => ⟨s, s', hrun, hgrown.trans hvx⟩

theorem run_ok {α : Type} {s : Snapshot} {i : Interner} {body : Serialize α}
    {store : α → Snapshot → Snapshot} (h : (run s i body store).answer = .ok ()) :
    ∃ a t, body (.start s.graph i) = (.ok a, t) ∧
      (run s i body store).snapshot = store a { s with graph := t.graph } := by
  cases hrun : body (.start s.graph i) with
  | mk answer t =>
    cases answer with
    | ok a => exact ⟨a, t, rfl, congrArg Result.snapshot (run_of_ok hrun)⟩
    | error e =>
      rw [run_of_error hrun] at h
      cases h

theorem setup_ok {s : Snapshot} {i : Interner} (h : (setup c globals live s i).answer = .ok ()) :
    ∃ g state, Complete g globals live state ∧
      (setup c globals live s i).snapshot = { s with graph := g, setup := state } := by
  obtain ⟨state, t, hrun, hsnapshot⟩ := run_ok h
  exact ⟨t.graph, state, phaseState_complete (start_bounded s.graph i) hrun, hsnapshot⟩

theorem expect_ok {s : Snapshot} {i : Interner}
    (h : (expect c globals live outcome inputs outputs s i).answer = .ok ()) :
    ∃ a t, aftermath c s.signature globals live outcome inputs outputs (.start s.graph i) = (.ok a, t) ∧
      a.Whole c t.graph globals live inputs outputs ∧
      (expect c globals live outcome inputs outputs s i).snapshot = { s with
        graph := t.graph
        expect := a.state
        outcome := a.outcome
        inputs := s.inputs ++ a.inputs
        outputs := s.outputs ++ a.outputs } := by
  obtain ⟨a, t, hrun, hsnapshot⟩ := run_ok h
  exact ⟨a, t, hrun, aftermath_whole (start_bounded s.graph i) hrun, hsnapshot⟩

end

/-! ### Populations of readable states -/

section

variable {h : Heap} {types : ClassTable}

variable (types) in
private theorem node_succeeds (v : Value) (declared : Ty) (hv : h.Readable v) :
    Succeeds h types (h.size + 1) (node ⟨h, types, standard⟩ v declared) fun t n =>
      Shows t.graph t.Met v n :=
  valueAt_succeeds v declared hv

variable (types) in
private theorem optionalNode_succeeds {v : Option Value} (declared : Ty) (hv : ∀ w ∈ v.toList, h.Readable w) :
    Succeeds h types (h.size + 1) (optionalNode ⟨h, types, standard⟩ v declared) fun t n =>
      Option.Rel (Shows t.graph t.Met) v n := by
  cases v with
  | none => exact .pure fun _ => .none
  | some v => exact (node_succeeds types v declared (hv v (by simp))).map fun _ _ hn => .some hn

variable (types) in
private theorem argNodes_succeed (params : List Ty) {args : List Value} (hargs : ∀ v ∈ args, h.Readable v) :
    Succeeds h types (h.size + 1) (argNodes ⟨h, types, standard⟩ params args) fun t ns =>
      List.Forall₂ (Shows t.graph t.Met) args ns := by
  have hall : Succeeds h types (h.size + 1) (argNodes ⟨h, types, standard⟩ params args) fun t ns =>
      List.Forall₂ (fun (a : Value × Nat) n => Shows t.graph t.Met a.1 n) args.zipIdx ns :=
    .mapM (fun hst hv => hst.shows hv) fun a ha =>
      node_succeeds types a.1 _ (hargs a.1 (List.fst_mem_of_mem_zipIdx ha))
  intro s hs hd
  obtain ⟨ns, t, hrun, hgrows, ht, hns⟩ := hall s hs hd
  refine ⟨ns, t, hrun, hgrows, ht, ?_⟩
  rw [← List.forall₂_map_left_iff, List.zipIdx_map_fst] at hns
  exact hns

/-- The nodes of one moment show its values. -/
structure Portrays (g : Graph) (met : ObjectId → NodeId → Prop) (globals : List GlobalRef)
    (live : LiveState) (p : PhaseState) : Prop where
  receiver : Option.Rel (Shows g met) live.receiver p.receiver
  args : List.Forall₂ (Shows g met) live.args p.args
  globals : List.Forall₂ (fun e n => n.global = e.1 ∧ Shows g met e.2 n.value)
    (globals.zip live.globals) p.globals

theorem Portrays.mono {g g' : Graph} {met met' : ObjectId → NodeId → Prop} {globals : List GlobalRef}
    {live : LiveState} {p : PhaseState} (h : Portrays g met globals live p)
    (hshows : ∀ {v n}, Shows g met v n → Shows g' met' v n) : Portrays g' met' globals live p where
  receiver := rel_imp hshows h.receiver
  args := h.args.imp fun _ _ => hshows
  globals := h.globals.imp fun _ _ => And.imp_right hshows

variable (types) in
private theorem phaseState_succeeds (phase : Phase) (sig : Signature) {globals : List GlobalRef}
    {live : LiveState} (hlive : ∀ v ∈ live.values, h.Readable v)
    (hsupplied : live.globals.length = globals.length) :
    Succeeds h types (h.size + 1) (phaseState ⟨h, types, standard⟩ phase sig globals live) fun t p =>
      Portrays t.graph t.Met globals live p := by
  have hvalue : ∀ v, v ∈ live.receiver.toList ∨ v ∈ live.args ∨ v ∈ live.globals → h.Readable v := by
    intro v hv
    refine hlive v ?_
    rw [LiveState.values, List.append_assoc, List.mem_append, List.mem_append]
    exact hv
  unfold phaseState
  simp only [ne_eq, hsupplied, not_true_eq_false, if_false]
  refine (optionalNode_succeeds types sig.declaring fun v hv => hvalue v (.inl hv)).bind fun receiver => ?_
  refine (argNodes_succeed types sig.params fun v hv => hvalue v (.inr (.inl hv))).bind fun args => ?_
  refine Succeeds.bind (?_ : Succeeds h types (h.size + 1) _ fun t ns => List.Forall₂
    (fun (e : GlobalRef × Value) (n : CapturedGlobal) => n.global = e.1 ∧ Shows t.graph t.Met e.2 n.value)
    (globals.zip live.globals) ns) fun ns => ?_
  · refine .mapM (fun hst hv => ⟨hv.1, hst.shows hv.2⟩) fun e he => ?_
    have hreadable := hvalue e.2 (.inr (.inr (List.of_mem_zip he).2))
    exact (node_succeeds types e.2 e.1.type hreadable).bind fun n =>
      .pure fun _ _ hst hn => ⟨rfl, hst.shows hn⟩
  · exact .pure fun _ _ htu hglobals _ hsu hargs _ hru hreceiver =>
      ⟨rel_imp hru.shows hreceiver, hargs.imp fun _ _ => hsu.shows,
        hglobals.imp fun _ _ => And.imp_right htu.shows⟩

/-- What is stored of an outcome. A call without result returns nothing. -/
inductive Reported (sig : Signature) (g : Graph) (met : ObjectId → NodeId → Prop) :
    LiveOutcome → Outcome → Prop where
  | void {result} : sig.isVoid → Reported sig g met (.returned result) (.returned none)
  | value {result n} : sig.isVoid = false → Option.Rel (Shows g met) result n →
      Reported sig g met (.returned result) (.returned n)
  | error {e n} : Shows g met e n → Reported sig g met (.threw e) (.threw n)

theorem Reported.mono {sig : Signature} {g g' : Graph} {met met' : ObjectId → NodeId → Prop}
    {outcome : LiveOutcome} {o : Outcome} (h : Reported sig g met outcome o)
    (hshows : ∀ {v n}, Shows g met v n → Shows g' met' v n) : Reported sig g' met' outcome o := by
  cases h with
  | void hvoid => exact .void hvoid
  | value hvalue hresult => exact .value hvalue (rel_imp hshows hresult)
  | error he => exact .error (hshows he)

theorem Reported.returned {sig : Signature} {g : Graph} {met : ObjectId → NodeId → Prop} {v : Option Value}
    {o : Outcome} (h : Reported sig g met (.returned v) o) : ∃ r, o = .returned r := by
  cases h with
  | void => exact ⟨none, rfl⟩
  | value => exact ⟨_, rfl⟩

variable (types) in
private theorem outcomeNodes_succeeds (sig : Signature) {outcome : LiveOutcome}
    (houtcome : ∀ v ∈ outcome.values, h.Readable v) :
    Succeeds h types (h.size + 1) (outcomeNodes ⟨h, types, standard⟩ sig outcome) fun t o =>
      Reported sig t.graph t.Met outcome o := by
  cases outcome with
  | returned result =>
    rw [outcomeNodes]
    by_cases hvoid : sig.isVoid
    · rw [if_pos hvoid]
      exact .pure fun _ => .void hvoid
    · rw [if_neg hvoid]
      exact (optionalNode_succeeds types sig.result houtcome).map fun _ _ hn => .value (by simpa using hvoid) hn
  | threw e =>
    exact (node_succeeds types e .object (houtcome e (List.mem_singleton_self e))).map fun _ _ hn => .error hn

variable (types) in
private theorem callRecords_succeed {calls : List LiveCall}
    (hcalls : ∀ call ∈ calls, ∀ v ∈ call.values, h.Readable v) :
    Succeeds h types (h.size + 1) (calls.mapM (callRecord ⟨h, types, standard⟩)) fun _ rs =>
      List.Forall₂ (fun _ _ => True) calls rs := by
  refine .mapM (fun _ _ => trivial) fun call hcall => ?_
  have hvalues := hcalls call hcall
  refine (argNodes_succeed types call.params fun v hv => hvalues v (List.mem_append_left _ hv)).bind fun _ => ?_
  refine (optionalNode_succeeds types .object fun v hv => hvalues v (List.mem_append_right _ hv)).bind fun _ => ?_
  exact .pure fun _ _ _ _ _ _ _ => trivial

theorem start_tidy (g : Graph) (i : Interner) : Tidy (.start g i) := tidy_of_identities_eq_nil rfl

theorem unmet_lt (s : State) : (unmet h s).card < h.size + 1 :=
  Nat.lt_succ_of_le ((Finset.card_filter_le _ _).trans_eq (Finset.card_range h.size))

variable (types) in
/-- The state before a call is captured whatever the graph holds already. -/
theorem setup_portrays {globals : List GlobalRef} {live : LiveState} (hlive : ∀ v ∈ live.values, h.Readable v)
    (hsupplied : live.globals.length = globals.length) (sig : Signature) (g₀ : Graph) (i : Interner) :
    ∃ state, ∃ t : State, ∃ i' elapsed, setup ⟨h, types, standard⟩ globals live (.new sig g₀) i =
        ⟨{ Snapshot.new sig t.graph with setup := state }, i', elapsed, .ok ()⟩ ∧
      Tidy t ∧ Captured h types t.graph t.Met ∧ Portrays t.graph t.Met globals live state := by
  obtain ⟨state, t, hrun, hgrows, ht, hportrays⟩ :=
    phaseState_succeeds types .setup sig hlive hsupplied _ (start_tidy g₀ i) (unmet_lt _)
  refine ⟨state, t, t.interner, t.elapsed, ?_, ht, hgrows.captured rfl ht, hportrays⟩
  exact run_of_ok hrun

variable (types) in
/-- The state after a call is captured apart from that before, in nodes that are new. -/
theorem expect_portrays {globals : List GlobalRef} {live : LiveState} {outcome : LiveOutcome}
    {inputs outputs : List LiveCall} (hlive : ∀ v ∈ live.values, h.Readable v)
    (hsupplied : live.globals.length = globals.length) (houtcome : ∀ v ∈ outcome.values, h.Readable v)
    (hinputs : ∀ call ∈ inputs, ∀ v ∈ call.values, h.Readable v)
    (houtputs : ∀ call ∈ outputs, ∀ v ∈ call.values, h.Readable v) (s : Snapshot) (i : Interner) :
    ∃ a : Aftermath, ∃ g i' elapsed, ∃ met : ObjectId → NodeId → Prop,
      expect ⟨h, types, standard⟩ globals live outcome inputs outputs s i =
        ⟨{ s with
            graph := g
            expect := a.state
            outcome := a.outcome
            inputs := s.inputs ++ a.inputs
            outputs := s.outputs ++ a.outputs }, i', elapsed, .ok ()⟩ ∧
      a.Whole ⟨h, types, standard⟩ g globals live inputs outputs ∧
      (∀ {n x}, s.graph.get? n = some x → g.get? n = some x) ∧
      (∀ {b n}, met b n → s.graph.size ≤ n) ∧ Captured h types g met ∧
      Portrays g met globals live a.state ∧ Reported s.signature g met outcome a.outcome := by
  have hfresh : (State.start s.graph i).identities = [] := rfl
  obtain ⟨state, t, hrun, hst, ht, hportrays⟩ :=
    phaseState_succeeds types .expect s.signature hlive hsupplied _ (start_tidy s.graph i) (unmet_lt _)
  obtain ⟨o, u, hrun', htu, hu, hreported⟩ :=
    outcomeNodes_succeeds types s.signature houtcome t ht (unmet_lt _)
  obtain ⟨outs, w, hrun'', huw, hw, -⟩ := callRecords_succeed types houtputs u hu (unmet_lt _)
  -- calls into the observed code are captured apart from all others
  obtain ⟨ins, x, hrun''', hwx, -, -⟩ := callRecords_succeed types hinputs { w with identities := [] }
    (tidy_of_identities_eq_nil rfl) (unmet_lt _)
  have hall : aftermath ⟨h, types, standard⟩ s.signature globals live outcome inputs outputs
      (.start s.graph i) = (.ok ⟨state, o, ins, outs⟩, x) := by
    unfold aftermath
    have hreset : resetIdentities w = (.ok ⟨⟩, { w with identities := [] }) := rfl
    rw [Effect.bind_of_ok hrun, Effect.bind_of_ok hrun', Effect.bind_of_ok hrun'', Effect.bind_of_ok hreset,
      Effect.bind_of_ok hrun''']
    rfl
  have hgrows := (hst.trans htu).trans huw
  have hkept : ∀ {n x'}, w.graph.get? n = some x' → x.graph.get? n = some x' := hwx.node
  have hshows : ∀ {v n}, Shows w.graph w.Met v n → Shows x.graph w.Met v n :=
    fun hv => hv.mono (fun hx _ => hkept hx) fun hm => hm
  have hwhole := aftermath_whole (start_bounded s.graph i) hall
  refine ⟨⟨state, o, ins, outs⟩, x.graph, x.interner, x.elapsed, w.Met, ?_, hwhole, ?_, ?_,
    (hgrows.captured hfresh hw).mono hkept, ?_, ?_⟩
  · exact run_of_ok hall
  · exact fun hx => hkept (hgrows.node hx)
  · intro b n hm
    rcases hgrows.new hm with hold | ⟨hle, -⟩
    · cases hold
    · exact hle
  · exact hportrays.mono fun hv => hshows ((htu.trans huw).shows hv)
  · exact hreported.mono fun hv => hshows (huw.shows hv)

end


/-! ### Calls without watched fields -/

section

/-- The receiver and the arguments of a call, where no static fields are watched. -/
def observed (receiver : Value) (args : List Value) : LiveState := ⟨some receiver, args, []⟩

/-- The nodes of one moment show the receiver and the arguments. -/
structure Pictures (g : Graph) (met : ObjectId → NodeId → Prop) (receiver : Value) (args : List Value)
    (p : PhaseState) : Prop where
  receiver : ∃ n, p.receiver = some n ∧ Shows g met receiver n
  args : List.Forall₂ (Shows g met) args p.args
  globals : p.globals = []

theorem Pictures.mono {g g' : Graph} {met met' : ObjectId → NodeId → Prop} {receiver : Value}
    {args : List Value} {p : PhaseState} (h : Pictures g met receiver args p)
    (hshows : ∀ {v n}, Shows g met v n → Shows g' met' v n) : Pictures g' met' receiver args p where
  receiver := h.receiver.imp fun _ hn => hn.imp_right hshows
  args := h.args.imp fun _ _ => hshows
  globals := h.globals

theorem Portrays.pictures {g : Graph} {met : ObjectId → NodeId → Prop} {receiver : Value} {args : List Value}
    {p : PhaseState} (h : Portrays g met [] (observed receiver args) p) : Pictures g met receiver args p where
  receiver := by
    generalize hn : p.receiver = n
    have hreceiver := h.receiver
    rw [hn] at hreceiver
    cases hreceiver with
    | some hshows => exact ⟨_, rfl, hshows⟩
  args := h.args
  globals := List.forall₂_nil_left_iff.1 h.globals

/-- What is stored of a call that returned. -/
inductive Stored (sig : Signature) (g : Graph) (met : ObjectId → NodeId → Prop) (result : Value) :
    Outcome → Prop where
  | void : sig.isVoid → Stored sig g met result (.returned none)
  | value {n} : sig.isVoid = false → Shows g met result n → Stored sig g met result (.returned (some n))

theorem Stored.returned {sig : Signature} {g : Graph} {met : ObjectId → NodeId → Prop} {result : Value}
    {o : Outcome} (h : Stored sig g met result o) : ∃ r, o = .returned r := by
  cases h with
  | void => exact ⟨none, rfl⟩
  | value => exact ⟨some _, rfl⟩

/-- The outcome that is reported for a call that returned the value. -/
def Reports (sig : Signature) (result : Value) (outcome : LiveOutcome) : Prop :=
  outcome = .returned (some result) ∨ sig.isVoid ∧ outcome = .returned none

theorem Reported.stored {sig : Signature} {g : Graph} {met : ObjectId → NodeId → Prop} {result : Value}
    {outcome : LiveOutcome} {o : Outcome} (h : Reported sig g met outcome o) (hreports : Reports sig result outcome) :
    Stored sig g met result o := by
  rcases hreports with rfl | ⟨hvoid, rfl⟩
  · cases h with
    | void hvoid => exact .void hvoid
    | value hvalue hresult =>
      cases hresult with
      | some hshows => exact .value hvalue hshows
  · cases h with
    | void => exact .void hvoid
    | value hvalue => exact absurd hvoid (by simp [hvalue])

/-! ### Snapshots -/

variable {h : Heap} {types : ClassTable} {receiver result : Value} {args : List Value} {sig : Signature}
  {outcome : LiveOutcome}

/-- What a snapshot holds of a call that returned: the live values before it and after it. -/
structure Observes (types : ClassTable) (before after : Heap) (met met' : ObjectId → NodeId → Prop)
    (receiver : Value) (args : List Value) (result : Value) (s : Snapshot) : Prop where
  before : Captured before types s.graph met
  after : Captured after types s.graph met'
  setup : Pictures s.graph met receiver args s.setup
  expect : Pictures s.graph met' receiver args s.expect
  outcome : Stored s.signature s.graph met' result s.outcome
  inputs : s.inputs = []
  outputs : s.outputs = []

variable (types) in
/-- One population before a call and one after it succeed, if what they look at can be read. -/
theorem observes_call {h' : Heap} (hbefore : ∀ v ∈ receiver :: args, h.Readable v)
    (hafter : ∀ v ∈ receiver :: result :: args, h'.Readable v) (hreports : Reports sig result outcome)
    (g₀ : Graph) (i : Interner) :
    let before := setup ⟨h, types, standard⟩ [] (observed receiver args) (.new sig g₀) i
    let after := expect ⟨h', types, standard⟩ [] (observed receiver args) outcome [] [] before.snapshot
      before.interner
    before.answer = .ok () ∧ after.answer = .ok () ∧ after.snapshot.signature = sig ∧
      after.snapshot.setup = before.snapshot.setup ∧
      (∀ {n x}, before.snapshot.graph.get? n = some x → after.snapshot.graph.get? n = some x) ∧
      ∃ met met', Captured h types before.snapshot.graph met ∧
        Pictures before.snapshot.graph met receiver args before.snapshot.setup ∧
        Observes types h h' met met' receiver args result after.snapshot := by
  intro before after
  have hvalues : (observed receiver args).values = receiver :: args := by
    rw [LiveState.values, observed, Option.toList_some, List.append_nil, List.singleton_append]
  have houtcome : ∀ v ∈ outcome.values, h'.Readable v := by
    rcases hreports with rfl | ⟨-, rfl⟩
    · exact fun v hv => hafter v (List.mem_cons_of_mem _ (List.mem_cons.2 (.inl (List.mem_singleton.1 hv))))
    · exact fun v hv => (List.not_mem_nil hv).elim
  have hlive' : ∀ v ∈ receiver :: args, h'.Readable v := fun v hv =>
    hafter v (List.mem_cons.2 ((List.mem_cons.1 hv).imp_right (List.mem_cons_of_mem _)))
  rw [← hvalues] at hbefore hlive'
  have hsupplied : (observed receiver args).globals.length = ([] : List GlobalRef).length := rfl
  have hnocalls : ∀ call ∈ ([] : List LiveCall), ∀ v ∈ call.values, h'.Readable v := by simp
  obtain ⟨state, t, i', elapsed, hsetup, -, hc, hportrays⟩ := setup_portrays types hbefore hsupplied sig g₀ i
  obtain ⟨a, g, i'', elapsed', met', hexpect, hwhole, hkept, -, hc', hportrays', hreported⟩ :=
    expect_portrays types hlive' hsupplied houtcome hnocalls hnocalls before.snapshot before.interner
  rw [show before = _ from hsetup] at hkept hreported
  rw [show after = _ from hexpect, show before = _ from hsetup]
  refine ⟨rfl, rfl, rfl, rfl, hkept, t.Met, met', hc, hportrays.pictures, hc.mono hkept, hc', ?_,
    hportrays'.pictures, hreported.stored hreports, ?_, ?_⟩
  · exact hportrays.pictures.mono fun hv => hv.mono (fun hx _ => hkept hx) fun hmet => hmet
  · exact List.forall₂_nil_left_iff.1 hwhole.inputs
  · exact List.forall₂_nil_left_iff.1 hwhole.outputs

end

end Reenact.Population
