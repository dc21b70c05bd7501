import Mathlib
import Reenact.Proofs.Assertion
import Reenact.Proofs.Checking
import Reenact.Proofs.Mutation
import Reenact.Proofs.Population
import Reenact.Proofs.Replay
import Reenact.Proofs.RoundTrip

/-!
A test generated for a call that fills a collection passes: it rebuilds the receiver and the arguments,
makes the call on them, and finds what was captured after the call.
-/

namespace Reenact.TestGenerator

variable {types : ClassTable} {g : Graph}

/-! ### Regions of a test -/

private theorem except_bind_ok {ε α β : Type} {x : Except ε α} {f : α → Except ε β} {b : β}
    (h : (x >>= f) = .ok b) : ∃ a, x = .ok a ∧ f a = .ok b := by
  cases x with
  | error e => cases h
  | ok a => exact ⟨a, rfl, h⟩

/-- A draft is a whole test but for its name. -/
theorem draft_ok {gen : TestGenerator} {s : Snapshot} {make : String → TestUnit} (h : gen.draft s = .ok make) :
    ∃ receiver args built acts state,
      arrange ⟨s.graph, gen.types, gen.setup⟩ s (.start .empty) = (.ok (receiver, args), built) ∧
      act gen.types s (callExpr s.signature receiver args) = .ok acts ∧
      assertAll ⟨s.graph, gen.types, gen.matchers⟩ s receiver args
        (.start (actImports s built.scope)) = (.ok (), state) ∧
      make = fun name => ⟨name, s.signature, .comment ("captured " ++ s.signature.text) :: built.statements,
        acts, state.statements, state.scope.imports⟩ := by
  unfold draft at h
  split at h
  · cases h
  obtain ⟨⟨receiver, args⟩, harrange, h⟩ := except_bind_ok h
  obtain ⟨acts, hact, h⟩ := except_bind_ok h
  obtain ⟨_, hassert, h⟩ := except_bind_ok h
  cases h
  exact ⟨receiver, args, _, acts, _, Prod.ext harrange rfl, hact, Prod.ext hassert rfl, rfl⟩

/-- The regions of a test that comes about. -/
theorem generate_ok {gen gen' : TestGenerator} {s : Snapshot} {unit : TestUnit}
    (h : gen.generate s = (gen', .ok unit)) :
    ∃ receiver args built acts state,
      arrange ⟨s.graph, gen.types, gen.setup⟩ s (.start .empty) = (.ok (receiver, args), built) ∧
      act gen.types s (callExpr s.signature receiver args) = .ok acts ∧
      assertAll ⟨s.graph, gen.types, gen.matchers⟩ s receiver args
        (.start (actImports s built.scope)) = (.ok (), state) ∧
      unit.arrange = .comment ("captured " ++ s.signature.text) :: built.statements ∧ unit.act = acts ∧
        unit.check = state.statements := by
  unfold generate at h
  cases hdraft : gen.draft s with
  | error e =>
    rw [hdraft] at h
    cases h
  | ok make =>
    rw [hdraft] at h
    cases h
    obtain ⟨receiver, args, built, acts, state, harrange, hact, hassert, rfl⟩ := draft_ok hdraft
    exact ⟨receiver, args, built, acts, state, harrange, hact, hassert, rfl, rfl, rfl⟩

/-! ### Arranging -/

section

open Reconstruction

variable {st : State} {m : Machine} {s : Snapshot} {root : NodeId}

private theorem param_eq_object (hparams : ∀ p ∈ s.signature.params, p = .object) (i : Nat) :
    s.signature.param i = .object := by
  unfold Signature.param
  cases hp : s.signature.params[i]? with
  | none => rfl
  | some p => exact hparams p (List.mem_of_getElem? hp)

/-- The code that is arranged yields what shows the receiver and the arguments. -/
theorem arrange_simulated (ht : types.ExtendsBuiltin) (hready : Ready g st m)
    (hreceiver : s.setup.receiver = some root) (hsound : ∀ n ∈ root :: s.setup.args, g.Sound types n)
    (hparams : ∀ p ∈ s.signature.params, p = .object) (hglobals : s.setup.globals = [])
    (hinputs : s.inputs = []) :
    Simulated types g (fun n => ∃ r ∈ root :: s.setup.args, Leads g.children r n) idle st m
      (arrange (context types g) s) fun st' m' code => ∃ e es, code = (some e, es) ∧
        Renders types g root st' m' e ∧
          List.Forall₂ (fun n e => Renders types g n st' m' e) s.setup.args es := by
  have hbuild : BuildsValues types g (run (context types g) (depthBound (context types g))) :=
    (run_simulated ht _).1
  unfold arrange
  rw [hreceiver, hglobals, hinputs]
  have hvalue : Simulated types g (fun n => ∃ r ∈ root :: s.setup.args, Leads g.children r n) idle st m
      (some <$> value (context types g) root) fun st' m' code => ∃ e, code = some e ∧
        Renders types g root st' m' e := by
    refine .map ((hbuild hready (hsound root List.mem_cons_self)).mono ?_ (fun _ h => h) fun _ _ _ h => h) ?_
    · exact fun n hn => ⟨root, List.mem_cons_self, hn⟩
    · exact fun _ _ e he => ⟨e, rfl, he⟩
  refine hvalue.bind (fun _ h => h) (fun _ h => h.elim) ?_
  rintro _ st₁ m₁ hready₁ _ ⟨e, rfl, he⟩
  refine (Simulated.mapM (fun st m (item : NodeId × Nat) e => Renders types g item.1 st m e)
    s.setup.args.zipIdx hready₁ (fun hgrows he => he.mono hgrows) ?_).bind (fun _ h => h)
    (fun _ h => h.elim) ?_
  · rintro ⟨part, i⟩ hitem st₂ m₂ hready₂
    have hpart : part ∈ root :: s.setup.args := List.mem_cons_of_mem _ (List.fst_mem_of_mem_zipIdx hitem)
    dsimp only
    rw [param_eq_object hparams]
    exact valueAs_simulated hbuild hready₂ (hsound part hpart) rfl fun n hn => ⟨part, hpart, hn⟩
  · intro es st₂ m₂ hready₂ hgrows hes
    have hes : List.Forall₂ (fun n e => Renders types g n st₂ m₂ e) (s.setup.args.zipIdx.map Prod.fst) es :=
      List.forall₂_map_left_iff.2 hes
    rw [List.zipIdx_map_fst] at hes
    exact .pure hready₂ ⟨e, es, rfl, he.mono hgrows, hes⟩

end

/-- The machine has the receiver and the arguments again, and code for them. -/
structure Arranged (types : ClassTable) (h : Heap) (R : ObjectId → ObjectId → Prop) (id : ObjectId)
    (args : List Value) (scope : Scope) (m : Machine) (target : Expr) (es : List Expr) (b : ObjectId)
    (vs : List Value) : Prop where
  unique : Relator.BiUnique R
  linked : Linked types h m.heap R
  reached : ∀ {a c}, R a c → ∃ w ∈ .object id :: args, a ∈ h.reachable w
  receiver : R id b
  args : List.Forall₂ (Renamed R) args vs
  target : Evaluate.Yields (.bare types) m target (.object b)
  values : List.Forall₂ (Evaluate.Yields (.bare types) m) es vs
  vacant : m.Vacant scope.names
  numbered : ∀ {name}, Unnumbered name → findValue? name m.locals = none

section

open Reconstruction

variable {h : Heap} {met : ObjectId → NodeId → Prop} {id : ObjectId} {args : List Value} {s : Snapshot}
  {root : NodeId}

/-- What is arranged for captured values is linked to them. -/
theorem arranged_of_captured (ht : types.ExtendsBuiltin) (hc : Captured h types g met)
    (hwell : ∀ w ∈ .object id :: args, h.WellFormed types w)
    (htyped : ∀ n ∈ root :: s.setup.args, g.WellTyped n) (hreceiver : s.setup.receiver = some root)
    (hroot : Shows g met (.object id) root) (hargs : List.Forall₂ (Shows g met) args s.setup.args)
    (hparams : ∀ p ∈ s.signature.params, p = .object) (hglobals : s.setup.globals = [])
    (hinputs : s.inputs = []) {receiver : Option Expr} {es : List Expr} {built : State}
    (harrange : arrange (context types g) s (.start .empty) = (.ok (receiver, es), built)) (h₀ : Heap) :
    ∃ m R target b vs, receiver = some target ∧
      Evaluate.run (.bare types) built.statements (.start h₀) = (.ok ⟨⟩, m) ∧
      Arranged types h R id args built.scope m target es b vs := by
  have hshown : List.Forall₂ (Shows g met) (.object id :: args) (root :: s.setup.args) := .cons hroot hargs
  have hsound : ∀ n ∈ root :: s.setup.args, g.Sound types n := by
    intro n hn
    obtain ⟨w, hw, hshows⟩ := forall₂_mem_right hshown hn
    exact hc.sound hshows (hwell w hw) (htyped n hn)
  obtain ⟨emitted, m, hemitted, hrun, hready, hgrows, target, es', hcode, ⟨u, hu, htarget⟩, hes⟩ :=
    arrange_simulated ht (ready_start .empty h₀) hreceiver hsound hparams hglobals hinputs _ _ harrange
  cases hcode
  have hnew : ∀ {b n}, At built m b n → (∃ r ∈ root :: s.setup.args, Leads g.children r n) ∧
      Rebuilt types g m.heap (At built m) b n := by
    intro b n hat
    exact (hgrows.new hat).elim (fun hold => absurd hold not_at_start) fun hnew => hnew.2
  obtain ⟨vs, hvs, hyields⟩ := exists_values hes
  obtain ⟨b, rfl, hb⟩ := (renamed_of_shows hc hready hroot hu).object_left
  have hstatements : built.statements = emitted := hemitted
  refine ⟨m, Stands met built m, target, b, vs, rfl, hstatements ▸ hrun, ?_⟩
  refine ⟨stands_unique hc hready, stands_linked hc hready fun hat => (hnew hat).2, ?_, hb, ?_, htarget,
    hyields, hready.free, hready.numbered⟩
  · rintro a c ⟨n, hmet, hat⟩
    obtain ⟨r, hr, hlead⟩ := (hnew hat).1
    obtain ⟨w, hw, hshows⟩ := forall₂_mem_right hshown hr
    exact ⟨w, hw, hc.reachable hshows hlead hmet⟩
  · refine (forall₂_join hargs hvs).imp ?_
    rintro v w ⟨n, hv, hw⟩
    exact renamed_of_shows hc hready hv hw

end

/-! ### Acting -/

/-- The call is made once. A result that is looked at is bound to a local of its own. -/
theorem act_runs {c : Evaluate.Context} {s : Snapshot} {call : Expr} {acts : List Stmt} {m m' : Machine}
    {v : Value} (hact : act types s call = .ok acts) (hreturned : ∃ r, s.outcome = .returned r)
    (hcall : Evaluate.expr c call m = (.ok (.live v), m')) (hlocals : m'.locals = m.locals) :
    ∃ m'', Evaluate.run c acts m = (.ok ⟨⟩, m'') ∧ m''.heap = m'.heap ∧
      (∀ name, name ≠ resultLocal → findValue? name m''.locals = findValue? name m.locals) ∧
      ∀ id, s.outcome = .returned (some id) → s.signature.isVoid = false →
        findValue? resultLocal m''.locals = some (.live v) := by
  obtain ⟨r, hr⟩ := hreturned
  unfold act at hact
  rw [hr] at hact
  have hplain : Evaluate.run c [.expr call] m = (.ok ⟨⟩, m') :=
    Evaluate.run_singleton (Evaluate.stmt_expr hcall)
  cases r with
  | none =>
    cases hact
    refine ⟨m', hplain, rfl, fun _ _ => by rw [hlocals], fun id hid => ?_⟩
    cases hr.symm.trans hid
  | some id =>
    by_cases hvoid : s.signature.isVoid
    · simp only [hvoid, if_true] at hact
      cases hact
      refine ⟨m', hplain, rfl, fun _ _ => by rw [hlocals], fun _ _ hnot => ?_⟩
      rw [hvoid] at hnot
      cases hnot
    · simp only [hvoid] at hact
      cases hact
      refine ⟨_, Evaluate.run_singleton (Evaluate.stmt_bind hcall), rfl, fun name hname => ?_, fun _ _ _ => ?_⟩
      · rw [Machine.findValue?_bindLocal, if_neg hname, hlocals]
      · rw [Machine.findValue?_bindLocal, if_pos rfl]

section

variable {h : Heap} {R : ObjectId → ObjectId → Prop} {id b : ObjectId} {o : Obj} {args vs : List Value}
  {scope : Scope} {m : Machine} {target : Expr} {es : List Expr} {s : Snapshot} {acts : List Stmt}
  {after : Body} {result : Value}

/-- The call on what was arranged does what the observed one did. -/
theorem Arranged.acted (harranged : Arranged types h R id args scope m target es b vs)
    (ho : h.get? id = some o) (hfills : Fills o.body.shape s.signature.method args)
    (hfilled : Filled s.signature.method args o.body after result) (hreturned : ∃ r, s.outcome = .returned r)
    (hact : act types s (callExpr s.signature (some target) es) = .ok acts) :
    ∃ m' w, Evaluate.run (.bare types) acts m = (.ok ⟨⟩, m') ∧ m.Keeps m' ∧ m'.Vacant scope.names ∧
      Linked types (h.setBody id after) m'.heap R ∧ Renamed R result w ∧
      ∀ k, s.outcome = .returned (some k) → s.signature.isVoid = false →
        Evaluate.Yields (.bare types) m' (.loc resultLocal) w := by
  obtain ⟨o', after', w, ho', hfilled', hlinked, hresult⟩ :=
    harranged.linked.call harranged.unique harranged.receiver ho hfills hfilled harranged.args
  have hcall : Evaluate.expr (.bare types) (.invoke target s.signature.method es) m =
      (.ok (.live w), { m with heap := m.heap.setBody b after' }) :=
    (Evaluate.expr_invoke harranged.target ho' harranged.values).trans
      (Effect.map_of_ok (hfilled'.call ho'))
  obtain ⟨m', hrun, hheap, hothers, hbound⟩ := act_runs hact hreturned hcall rfl
  have hunnumbered : Unnumbered resultLocal := by decide
  refine ⟨m', w, hrun, ?_, ?_, hheap ▸ hlinked, hresult,
    fun k hk hvalue => Evaluate.yields_loc (hbound k hk hvalue)⟩
  · intro name v hv
    have hne : name ≠ resultLocal := by
      rintro rfl
      cases (harranged.numbered hunnumbered).symm.trans hv
    rw [hothers name hne, hv]
  · intro stem k hstem hk
    rw [hothers _ (numbered_ne k hunnumbered)]
    exact harranged.vacant stem k hstem hk

end

/-! ### The whole test -/

section

open Population (Observes Pictures Reports observed)

variable {h : Heap} {R : ObjectId → ObjectId → Prop} {id b : ObjectId} {o : Obj} {args vs : List Value}
  {scope : Scope} {m m' : Machine} {target : Expr} {es : List Expr} {s : Snapshot} {after : Body}
  {receiver result w : Value} {met met' : ObjectId → NodeId → Prop}

/-- Before a call, typed slots below the receiver and the arguments hold what they are typed for. -/
def SlotsFit (s : Snapshot) : Prop := ∀ n ∈ s.setup.receiver.toList ++ s.setup.args, s.graph.WellTyped n

instance (s : Snapshot) : Decidable (SlotsFit s) :=
  inferInstanceAs (Decidable (∀ n ∈ s.setup.receiver.toList ++ s.setup.args, _))

theorem SlotsFit.mono {before after : Snapshot} (hfit : SlotsFit before)
    (hc : Captured h types before.graph met)
    (hpictures : Pictures before.graph met receiver args before.setup) (hroots : after.setup = before.setup)
    (hkept : ∀ {n x}, before.graph.get? n = some x → after.graph.get? n = some x) : SlotsFit after := by
  intro n hn
  rw [hroots] at hn
  have hshown : ∃ v, Shows before.graph met v n := by
    rcases List.mem_append.1 hn with hn | hn
    · obtain ⟨k, hk, hshows⟩ := hpictures.receiver
      rw [hk, Option.toList_some, List.mem_singleton] at hn
      exact ⟨receiver, hn ▸ hshows⟩
    · obtain ⟨v, -, hshows⟩ := forall₂_mem_right hpictures.args hn
      exact ⟨v, hshows⟩
  obtain ⟨v, hv⟩ := hshown
  exact hc.wellTyped_mono hv hkept (hfit n hn)

/-- After a call, no wrapper that was below the receiver or the arguments, and whose factory drops type
arguments, refers back to itself. -/
def CyclesWide (before after : Heap) (roots : List Value) : Prop :=
  ∀ v ∈ roots, ∀ a ∈ before.reachable v, (before.get? a).any (·.type.isNarrowed) → ¬ after.OnCycle a

instance (before after : Heap) (roots : List Value) : Decidable (CyclesWide before after roots) :=
  inferInstanceAs (Decidable (∀ v ∈ roots, ∀ a ∈ before.reachable v, _ → ¬ _))

/-- What was rebuilt shows, after the call on it, what was captured after the observed one. -/
theorem Arranged.mirrored (ht : types.ExtendsBuiltin)
    (harranged : Arranged types h R id args scope m target es b vs)
    (hwell : ∀ w ∈ .object id :: args, h.WellFormed types w) (ho : h.get? id = some o) {method : String}
    (hfilled : Filled method args o.body after result)
    (hwide : CyclesWide h (h.setBody id after) (.object id :: args))
    (hc : Captured (h.setBody id after) types g met')
    (hlinked : Linked types (h.setBody id after) m'.heap R) :
    Matcher.Mirrored types g m'.heap (Behind met' R) := by
  have hobject : ∀ a c p, R a c → (h.setBody id after).get? a = some p → p.WellFormed types ∧
      (p.type.isNarrowed → ¬ (h.setBody id after).OnCycle a) := by
    intro a c p hR hp
    obtain ⟨w, hw, hreach⟩ := harranged.reached hR
    obtain ⟨p', hp', hpwell⟩ := (hwell w hw).get? hreach
    obtain ⟨q, hq, htype, hqwell⟩ := hfilled.wellFormed_object ho hp' hpwell
    cases hp.symm.trans hq
    refine ⟨hqwell, fun hnarrowed => hwide w hw a hreach ?_⟩
    rw [hp', Option.any_some, ← htype]
    exact hnarrowed
  exact mirrored_behind ht hc hlinked (fun a c p hR hp => (hobject a c p hR hp).1.2.1)
    fun a c p hR hp => (hobject a c p hR hp).2

/-- Every assertion of the test looks at something that shows what is asserted. -/
theorem Arranged.checked (harranged : Arranged types h R id args scope m target es b vs)
    (hkeeps : m.Keeps m') {h' : Heap} (hobserves : Observes types h h' met met' (.object id) args result s)
    (hwell : ∀ v ∈ .object id :: result :: args, h'.WellFormed types v) (hresult : Renamed R result w)
    (hlocal : ∀ k, s.outcome = .returned (some k) → s.signature.isVoid = false →
      Evaluate.Yields (.bare types) m' (.loc resultLocal) w) :
    Verification.Passes (.bare types) s.graph (Behind met' R) m'
      (assertAll (Verification.context types s.graph) s (some target) es) := by
  have hverifies : ∀ {v v' k e}, v ∈ .object id :: result :: args → Shows s.graph met' v k → Renamed R v v' →
      Evaluate.Yields (.bare types) m' e v' → Verification.Verifies (.bare types) s.graph (Behind met' R) m' e k :=
    fun hv hshows hrenamed hyields =>
      ⟨Verification.describable_of_wellFormed hobserves.after hshows (hwell _ hv), _,
        shows_behind hshows hrenamed, hyields⟩
  refine assertAll_passes (c := .bare types) hobserves.outcome.returned ?_ ?_ ?_ hobserves.setup.globals
    hobserves.outputs
  · intro k hk
    have hstored := hobserves.outcome
    rw [hk] at hstored
    cases hstored with
    | value hvalue hshows => exact hverifies (by simp) hshows hresult (hlocal k hk hvalue)
  · intro k hk
    obtain ⟨n, hn, hshows⟩ := hobserves.expect.receiver
    cases hn.symm.trans hk
    have hrenamed : Renamed R (.object id) (.object b) := harranged.receiver
    exact hverifies List.mem_cons_self hshows hrenamed (harranged.target.mono hkeeps)
  · have hshown := (List.forall₂_and_left _ _).2 ⟨fun v hv => hv, hobserves.expect.args⟩
    have hcode := forall₂_join harranged.values harranged.args
    refine (forall₂_join hcode hshown.flip).imp ?_
    rintro e k ⟨v, ⟨v', hyields, hrenamed⟩, hv, hshows⟩
    exact hverifies (List.mem_cons_of_mem _ (List.mem_cons_of_mem _ hv)) hshows hrenamed (hyields.mono hkeeps)

/-- The test of a snapshot that observes a call which fills a collection. -/
theorem observed_unit_passes (ht : types.ExtendsBuiltin)
    (hwell : ∀ w ∈ .object id :: args, h.WellFormed types w) (ho : h.get? id = some o)
    (hfills : Fills o.body.shape s.signature.method args)
    (hfilled : Filled s.signature.method args o.body after result)
    (hobserves : Observes types h (h.setBody id after) met met' (.object id) args result s)
    (hparams : ∀ p ∈ s.signature.params, p = .object) (hfit : SlotsFit s)
    (hwide : CyclesWide h (h.setBody id after) (.object id :: args)) {gen : TestGenerator} {unit : TestUnit}
    (hgenerate : (TestGenerator.new types Reconstruction.standard Verification.standard).generate s =
      (gen, .ok unit)) (h₀ : Heap) :
    ∃ m, Evaluate.unit (.bare types) unit (.start h₀) = (.ok ⟨⟩, m) := by
  obtain ⟨n, hreceiver, hn⟩ := hobserves.setup.receiver
  have hfit' : ∀ k ∈ n :: s.setup.args, s.graph.WellTyped k := by
    unfold SlotsFit at hfit
    rwa [hreceiver] at hfit
  have hreturned := hobserves.outcome.returned
  obtain ⟨receiver, es, built, acts, state, harrange, hact, hassert, harranges, hacts, hcheck⟩ :=
    generate_ok hgenerate
  obtain ⟨m, R, target, b, vs, rfl, hrun, harranged⟩ := arranged_of_captured ht hobserves.before hwell hfit'
    hreceiver hn hobserves.setup.args hparams hobserves.setup.globals hobserves.inputs harrange h₀
  obtain ⟨m', w, hrun', hkeeps, hvacant, hlinked, hresult, hlocal⟩ :=
    harranged.acted ho hfills hfilled hreturned hact
  have hmirrored := harranged.mirrored ht hwell ho hfilled hwide hobserves.after hlinked
  have hpasses := harranged.checked hkeeps hobserves (fun v hv => hfilled.wellFormed ho hv hwell) hresult hlocal
  have hscope : actImports s built.scope = built.scope := by
    obtain ⟨r, hr⟩ := hreturned
    unfold actImports
    rw [hr]
  rw [hscope] at hassert
  obtain ⟨emitted, m'', hframe, -⟩ :=
    hpasses _ _ (Verification.checking_start hmirrored hvacant) () state hassert
  have hchecks : state.statements = emitted := hframe.statements
  refine ⟨m'', ?_⟩
  unfold Evaluate.unit
  rw [TestUnit.statements, harranges, hacts, hcheck, List.append_assoc, List.cons_append,
    Evaluate.run_cons (show Evaluate.stmt (.bare types) (.comment _) (.start h₀) = (.ok ⟨⟩, _) from rfl),
    Evaluate.run_append hrun, Evaluate.run_append hrun', hchecks]
  exact hframe.run

/-- A call that fills a collection returns and can be captured, and the test generated for it passes. -/
theorem generated_unit_passes (ht : types.ExtendsBuiltin) {sig : Signature}
    (hwell : ∀ w ∈ .object id :: args, h.WellFormed types w) (ho : h.get? id = some o)
    (hfills : Fills o.body.shape sig.method args) (hparams : ∀ p ∈ sig.params, p = .object) (g₀ : Graph)
    (i : Interner) :
    ∃ result m₁, Collection.call id o sig.method args (.start h) = (.ok result, m₁) ∧
      ∀ outcome, Reports sig result outcome →
        let before := Population.setup ⟨h, types, Serialization.standard⟩ []
          (observed (.object id) args) (.new sig g₀) i
        let after := Population.expect ⟨m₁.heap, types, Serialization.standard⟩ []
          (observed (.object id) args) outcome [] [] before.snapshot before.interner
        before.answer = .ok () ∧ after.answer = .ok () ∧
          (SlotsFit before.snapshot → CyclesWide h m₁.heap (.object id :: args) → ∀ gen unit,
            (TestGenerator.new types Reconstruction.standard Verification.standard).generate after.snapshot =
              (gen, .ok unit) →
            ∀ h₀, ∃ m, Evaluate.unit (.bare types) unit (.start h₀) = (.ok ⟨⟩, m)) := by
  obtain ⟨body, result, hfilled⟩ := hfills.filled
  refine ⟨result, _, hfilled.call ho, fun outcome hreports => ?_⟩
  intro before after
  obtain ⟨hsetup, hexpect, hsig, hroots, hkept, met, met', hc, hpictures, hobserves⟩ :=
    Population.observes_call types (fun v hv => (hwell v hv).readable)
      (fun v hv => (hfilled.wellFormed ho hv hwell).readable) hreports g₀ i
  refine ⟨hsetup, hexpect, fun hfit hwide gen unit hgenerate h₀ => ?_⟩
  rw [← hsig] at hfills hfilled hparams
  exact observed_unit_passes ht hwell ho hfills hfilled hobserves hparams
    (hfit.mono hc hpictures hroots hkept) hwide hgenerate h₀

/-- A list is added to itself, and holds a set with the list in it. -/
theorem add_itself_unit_passes :
    let o : Obj := ⟨.ofClass "ArrayList", .list [.object 1], false⟩
    let h : Heap := ⟨#[o, ⟨.ofClass "HashSet", .set [.object 0], false⟩]⟩
    let h' := (h.push 0 (.object 0)).1
    let sig : Signature := ⟨.ofClass "List", "add", [.object], .primitive .bool⟩
    let before := Population.setup ⟨h, .builtin, Serialization.standard⟩ []
      (observed (.object 0) [.object 0]) (.new sig .empty) .empty
    let after := Population.expect ⟨h', .builtin, Serialization.standard⟩ []
      (observed (.object 0) [.object 0]) (.returned (some (.scalar (.bool true)))) [] []
      before.snapshot before.interner
    Collection.call 0 o sig.method [.object 0] (.start h) =
        (.ok (.scalar (.bool true)), { Machine.start h with heap := h' }) ∧
      ∃ gen unit m, (TestGenerator.new .builtin Reconstruction.standard Verification.standard).generate
          after.snapshot = (gen, .ok unit) ∧
        Evaluate.unit (.bare .builtin) unit (.start h) = (.ok ⟨⟩, m) := by
  intro o h h' sig before after
  have hadd : Collection.call 0 o sig.method [.object 0] (.start h) =
      (.ok (.scalar (.bool true)), { Machine.start h with heap := h' }) :=
    Evaluate.call_add 0 o (.object 0) (.start h)
  have hwell : ∀ w ∈ [Value.object 0, .object 0], h.WellFormed .builtin w := by decide +kernel
  have hfills : Fills o.body.shape sig.method [.object 0] := .list (.object 0)
  obtain ⟨result, m₁, hcall, hpass⟩ := generated_unit_passes (o := o) ClassTable.builtin_extendsBuiltin hwell
    rfl hfills (by decide) .empty .empty
  cases hcall.symm.trans hadd
  obtain ⟨-, -, hpass⟩ := hpass (.returned (some (.scalar (.bool true)))) (.inl rfl)
  cases hgenerate : (TestGenerator.new .builtin Reconstruction.standard Verification.standard).generate
    after.snapshot with
  | mk gen answer =>
  have hok : answer.toOption.isSome = true := by
    rw [← show (_, _).2 = answer from congrArg Prod.snd hgenerate]
    decide +kernel
  cases answer with
  | error e => cases hok
  | ok unit =>
    obtain ⟨m, hm⟩ := hpass (by decide +kernel) (by decide +kernel) gen unit hgenerate h
    exact ⟨hadd, gen, unit, m, rfl, hm⟩

/-- A list that checks its elements is added to itself. Its factory is told one of its two type
arguments, so what is rebuilt is no list of the type that is asserted where the list is met again. -/
theorem narrowed_cycle_unit_fails :
    let o : Obj := ⟨.named "collections::CheckedList" [.ofClass "String", .ofClass "Integer"], .list [], false⟩
    let h : Heap := ⟨#[o]⟩
    let h' := (h.push 0 (.object 0)).1
    let sig : Signature := ⟨.ofClass "List", "add", [.object], .void⟩
    let before := Population.setup ⟨h, .builtin, Serialization.standard⟩ []
      (observed (.object 0) [.object 0]) (.new sig .empty) .empty
    let after := Population.expect ⟨h', .builtin, Serialization.standard⟩ []
      (observed (.object 0) [.object 0]) (.returned none) [] [] before.snapshot before.interner
    h.WellFormed .builtin (.object 0) ∧ SlotsFit before.snapshot ∧
      Collection.call 0 o sig.method [.object 0] (.start h) =
        (.ok (.scalar (.bool true)), { Machine.start h with heap := h' }) ∧
      before.answer = .ok () ∧ after.answer = .ok () ∧
      ∃ gen unit e m, (TestGenerator.new .builtin Reconstruction.standard Verification.standard).generate
          after.snapshot = (gen, .ok unit) ∧
        Evaluate.unit (.bare .builtin) unit (.start h) = (.error (.assertion e), m) := by
  intro o h h' sig before after
  have hrun : (match (TestGenerator.new .builtin Reconstruction.standard Verification.standard).generate
        after.snapshot with
      | (_, .ok unit) =>
        match Evaluate.unit (.bare .builtin) unit (.start h) with
        | (.error (.assertion _), _) => true
        | _ => false
      | _ => false) = true := by
    decide +kernel
  refine ⟨by decide +kernel, by decide +kernel, Evaluate.call_add 0 o (.object 0) (.start h), rfl, rfl, ?_⟩
  split at hrun
  · next gen unit hgenerate =>
    split at hrun
    · next e m hunit => exact ⟨gen, unit, e, m, hgenerate, hunit⟩
    · cases hrun
  · cases hrun

end

end Reenact.TestGenerator
