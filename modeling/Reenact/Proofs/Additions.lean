import Mathlib
import Reenact.Capture.Population
import Reenact.Class.Builtin
import Reenact.Proofs.Serialization

/-!
What a population leaves alone, however it ends and whichever serializers it uses. The graph grows at
its end only: an object fills no node but the one that it reserved, and what is stored of it are nodes of
the graph. What a snapshot holds besides is stored after the last step that can fail.
-/

namespace Reenact

/-- Every node of the first graph is in the second, under the same id and with the same contents. -/
structure Graph.Extended (g g' : Graph) : Prop where
  size_le : g.size ≤ g'.size
  get?_eq : ∀ {n}, n < g.size → g'.get? n = g.get? n

namespace Graph.Extended

variable {g g' g'' : Graph}

theorem refl (g : Graph) : g.Extended g := ⟨le_rfl, fun _ => rfl⟩

theorem trans (h : g.Extended g') (h' : g'.Extended g'') : g.Extended g'' := by
  constructor
  · exact h.size_le.trans h'.size_le
  · intro n hn
    rw [h'.get?_eq (hn.trans_le h.size_le), h.get?_eq hn]

theorem push (g : Graph) (n : Node) : g.Extended (g.push n).1 := by
  constructor
  · rw [size_push]
    omega
  · intro m hm
    rw [get?_push, if_neg (Nat.ne_of_lt hm)]

/-- Nodes beyond the end may be filled. -/
theorem setContent (h : g.Extended g') {id : NodeId} (hid : g.size ≤ id) (content : Content) :
    g.Extended (g'.setContent id content) := by
  constructor
  · rw [size_setContent]
    exact h.size_le
  · intro m hm
    rw [get?_setContent_of_ne content (Nat.ne_of_lt (hm.trans_le hid)), h.get?_eq hm]

end Graph.Extended

namespace Serialization

variable {α β : Type}

/-- Every object that was met became a node of the graph. -/
def State.Bounded (s : State) : Prop := ∀ id n, s.Met id n → n < s.graph.size

theorem start_bounded (g : Graph) (i : Interner) : (State.start g i).Bounded :=
  fun _ _ hm => nomatch hm

/-- The step changes no node that there is, also where it stops, and its result is as `post` says. -/
def Adds (x : Serialize α) (post : Graph → α → Prop) : Prop :=
  ∀ (s : State) r t, s.Bounded → x s = (r, t) →
    s.graph.Extended t.graph ∧ t.Bounded ∧ ∀ a, r = .ok a → post t.graph a

namespace Adds

variable {post : Graph → α → Prop} {post' : Graph → β → Prop}

theorem pure {a : α} (ha : ∀ g, post g a) : Adds (pure a : Serialize α) post := by
  intro s r t hs hrun
  cases hrun
  refine ⟨.refl s.graph, hs, fun b hb => ?_⟩
  cases hb
  exact ha s.graph

theorem stop (e : Stop) : Adds (throw e : Serialize α) post := by
  intro s r t hs hrun
  cases hrun
  exact ⟨.refl s.graph, hs, fun b hb => nomatch hb⟩

theorem bind {x : Serialize α} {f : α → Serialize β} (hx : Adds x post)
    (hf : ∀ a, Adds (f a) fun g' b => ∀ g, g.Extended g' → post g a → post' g' b) :
    Adds (x >>= f) post' := by
  intro s r u hs hrun
  cases hfirst : x s with
  | mk q t =>
    obtain ⟨hst, ht, hpost⟩ := hx s q t hs hfirst
    cases q with
    | ok a =>
      rw [Effect.bind_of_ok hfirst] at hrun
      obtain ⟨htu, hu, hpost'⟩ := hf a t r u ht hrun
      exact ⟨hst.trans htu, hu, fun b hb => hpost' b hb t.graph htu (hpost a rfl)⟩
    | error e =>
      rw [Effect.bind_of_error hfirst] at hrun
      cases hrun
      exact ⟨hst, ht, fun b hb => nomatch hb⟩

theorem imp {x : Serialize α} {post' : Graph → α → Prop} (hx : Adds x post)
    (hpost : ∀ g a, post g a → post' g a) : Adds x post' := by
  intro s r t hs hrun
  obtain ⟨hst, ht, ha⟩ := hx s r t hs hrun
  exact ⟨hst, ht, fun a hr => hpost t.graph a (ha a hr)⟩

/-- What comes of the first step does not matter. -/
theorem andThen {x : Serialize α} {f : α → Serialize β} (hx : Adds x post) (hf : ∀ a, Adds (f a) post') :
    Adds (x >>= f) post' :=
  hx.bind fun a => (hf a).imp fun _ _ hb _ _ _ => hb

theorem map {x : Serialize α} {f : α → β} (hx : Adds x post) (hf : ∀ g a, post g a → post' g (f a)) :
    Adds (f <$> x) post' := by
  intro s r t hs hrun
  rw [map_eq_pure_bind] at hrun
  cases hfirst : x s with
  | mk q u =>
    obtain ⟨hsu, hu, hpost⟩ := hx s q u hs hfirst
    cases q with
    | ok a =>
      rw [Effect.bind_of_ok hfirst] at hrun
      cases hrun
      refine ⟨hsu, hu, fun b hb => ?_⟩
      cases hb
      exact hf t.graph a (hpost a rfl)
    | error e =>
      rw [Effect.bind_of_error hfirst] at hrun
      cases hrun
      exact ⟨hsu, hu, fun b hb => nomatch hb⟩

theorem mapM {f : α → Serialize β} (hmono : ∀ {g g' b}, g.Extended g' → post' g b → post' g' b)
    (hf : ∀ a, Adds (f a) post') (as : List α) : Adds (as.mapM f) fun g bs => ∀ b ∈ bs, post' g b := by
  induction as with
  | nil => exact pure fun _ _ hb => nomatch hb
  | cons a as ih =>
    rw [List.mapM_cons]
    apply (hf a).bind
    intro b
    apply ih.bind
    intro bs
    refine pure fun g' g₁ h₁ hbs g₀ h₀ hb => List.forall_mem_cons.2 ⟨?_, fun b' hb' => ?_⟩
    · exact hmono h₀ hb
    · exact hmono h₁ (hbs b' hb')

theorem modify {f : State → State} {post : Graph → PUnit → Prop} (hf : ∀ s, (f s).graph = s.graph)
    (hmet : ∀ s id n, (f s).Met id n → s.Met id n) (hpost : ∀ g, post g ⟨⟩) :
    Adds (modify f : Serialize PUnit) post := by
  intro s r t hs hrun
  rw [Effect.modify_apply] at hrun
  cases hrun
  refine ⟨?_, fun id n hm => ?_, fun a _ => hpost _⟩
  · rw [hf]
    exact .refl s.graph
  · rw [hf]
    exact hs id n (hmet s id n hm)

/-- Each result of a loop that succeeds is that of one of its rounds, after which the graph only grows. -/
theorem forall₂ {f : α → Serialize β} (hf : ∀ a, Adds (f a) post') {as : List α} {bs : List β}
    {s t : State} (hs : s.Bounded) (h : as.mapM f s = (.ok bs, t)) :
    List.Forall₂ (fun a b => ∃ u v, f a u = (.ok b, v) ∧ v.graph.Extended t.graph) as bs := by
  induction as generalizing bs s with
  | nil =>
    cases h
    exact .nil
  | cons a as ih =>
    have hrest : Adds (as.mapM f) fun _ bs => ∀ b ∈ bs, True :=
      mapM (fun _ _ => trivial) (fun a => (hf a).imp fun _ _ _ => trivial) as
    rw [List.mapM_cons] at h
    obtain ⟨b, u, hfirst, h⟩ := Effect.bind_ok.1 h
    obtain ⟨bs', v, hothers, hpure⟩ := Effect.bind_ok.1 h
    cases hpure
    obtain ⟨-, hu, -⟩ := hf a s _ u hs hfirst
    obtain ⟨hgrown, -, -⟩ := hrest u _ t hu hothers
    exact .cons ⟨s, u, hfirst, hgrown⟩ (ih hu hothers)

end Adds

theorem push_adds (n : Node) : Adds (push n) fun g m => m < g.size := by
  intro s r t hs hrun
  cases hrun
  have hsize : (s.graph.push n).1.size = s.graph.size + 1 := Graph.size_push n
  refine ⟨.push s.graph n, fun id m hm => ?_, fun m hm => ?_⟩
  · exact (hs id m hm).trans_le (hsize ▸ Nat.le_succ _)
  · cases hm
    exact hsize ▸ Nat.lt_succ_self _

theorem atom_adds (a : Atom) : Adds (atom a) fun g n => n < g.size := by
  intro s r t hs hrun
  unfold atom at hrun
  rw [Effect.bind_of_ok (Effect.get_apply s)] at hrun
  cases hfound : s.graph.atomId? a with
  | some n =>
    rw [hfound] at hrun
    cases hrun
    refine ⟨.refl s.graph, hs, fun m hm => ?_⟩
    cases hm
    exact Graph.lt_size (Graph.get?_of_atomId? hfound)
  | none =>
    rw [hfound] at hrun
    cases hrun
    have hsize : (s.graph.push (.atom a)).1.size = s.graph.size + 1 := Graph.size_push _
    refine ⟨.push s.graph (.atom a), fun id m hm => ?_, fun m hm => ?_⟩
    · exact (hs id m hm).trans_le (hsize ▸ Nat.le_succ _)
    · cases hm
      exact hsize ▸ Nat.lt_succ_self _

section

variable {id : ObjectId} {o : Obj}

theorem body_adds (o : Obj) : Adds (body o) fun _ _ => True := by
  unfold body
  split
  · exact .stop _
  · exact .pure fun _ => trivial

theorem accepts_adds (o : Obj) (guard : SerializerGuard) : Adds (accepts o guard) fun _ _ => True := by
  cases guard with
  | shape s => exact (body_adds o).andThen fun _ => .pure fun _ => trivial
  | runtimeClass name => exact .pure fun _ => trivial
  | anything => exact .pure fun _ => trivial

theorem select_adds (o : Obj) (c : Chain SerializerBehaviour) :
    Adds (c.selectM? fun a => accepts o a.behaviour.guard) fun _ _ => True := by
  unfold Chain.selectM?
  induction c.entries with
  | nil => exact .pure fun _ => trivial
  | cons a as ih =>
    rw [List.findM?]
    apply (accepts_adds o a.behaviour.guard).andThen
    intro accepted
    cases accepted with
    | true => exact .pure fun _ => trivial
    | false => exact ih

theorem reserved_bounded {s : State} (hs : s.Bounded) (declared runtime : Ty) (blank : Content) :
    (s.reserved id declared runtime blank).Bounded := by
  intro a n hm
  rw [reserved_size]
  rcases reserved_met.1 hm with ⟨-, rfl⟩ | ⟨-, hm⟩
  · exact Nat.lt_succ_self _
  · exact Nat.lt_succ_of_lt (hs a n hm)

/-- Only the node that was reserved is filled, and that only if all its parts are there. -/
theorem composite_adds {parts : Serialize Content} (hparts : Adds parts fun _ _ => True) (declared : Ty)
    (blank : Content) : Adds (composite id o declared blank parts) fun g n => n < g.size := by
  intro s r t hs hrun
  have hreserved : s.graph.Extended (s.reserved id declared o.type blank).graph := .push s.graph _
  cases hfilled : parts (s.reserved id declared o.type blank) with
  | mk q u =>
    obtain ⟨hgrown, hu, -⟩ := hparts _ q u (reserved_bounded hs declared o.type blank) hfilled
    cases q with
    | ok content =>
      rw [composite_apply hfilled] at hrun
      cases hrun
      refine ⟨(hreserved.trans hgrown).setContent le_rfl content, fun a n hm => ?_, fun n hn => ?_⟩
      · exact (Graph.size_setContent content).symm ▸ hu a n hm
      · cases hn
        exact (Graph.size_setContent content).symm ▸ reserved_size.symm.trans_le hgrown.size_le
    | error e =>
      have hreserve : reserve id declared o.type blank s =
          (.ok s.graph.size, s.reserved id declared o.type blank) := rfl
      unfold composite at hrun
      rw [Effect.bind_of_ok hreserve, Effect.bind_of_error hfilled] at hrun
      cases hrun
      exact ⟨hreserved.trans hgrown, hu, fun n hn => nomatch hn⟩

variable {c : Context} {value : Value → Ty → Serialize NodeId}
  (hvalue : ∀ v declared, Adds (value v declared) fun g n => n < g.size)
include hvalue

theorem fieldsNode_adds (declared : Ty) :
    Adds (fieldsNode c value id o declared) fun g n => n < g.size := by
  unfold fieldsNode
  split
  · exact .stop _
  · next slots _ =>
    have hfields : Adds (fieldNodes value o slots.entries) fun _ fs => ∀ f ∈ fs, True := by
      apply Adds.mapM fun _ _ => trivial
      rintro ⟨slot, v⟩
      cases slot with
      | field owner name type => exact (hvalue v type).andThen fun n => .pure fun _ => trivial
      | element => exact .stop _
      | key => exact .stop _
      | value => exact .stop _
    exact composite_adds (hfields.map fun _ _ _ => trivial) declared _

theorem values_adds (make : List NodeId → Content) (type : Ty) (items : List Value) :
    Adds (make <$> values value type items) fun _ _ => True := by
  have hnodes : Adds (values value type items) fun g ns => ∀ n ∈ ns, n < g.size :=
    .mapM (fun hg hn => hn.trans_le hg.size_le) (fun v => hvalue v type) items
  exact hnodes.map fun _ _ _ => trivial

theorem entries_adds (keyType valueType : Ty) (es : List (Value × Value)) :
    Adds (Content.map <$> entries value keyType valueType es) fun _ _ => True := by
  have hnodes : Adds (entries value keyType valueType es) fun _ ns => ∀ n ∈ ns, True := by
    apply Adds.mapM fun _ _ => trivial
    rintro ⟨k, v⟩
    apply (hvalue k keyType).andThen
    intro k'
    exact (hvalue v valueType).andThen fun v' => .pure fun _ => trivial
  exact hnodes.map fun _ _ _ => trivial

theorem serializeBy_adds (declared : Ty) (rule : SerializerRule) :
    Adds (serializeBy c value id o declared rule) fun g n => n < g.size := by
  cases rule with
  | array =>
    apply (body_adds o).andThen
    intro held
    cases held with
    | array items => exact composite_adds (values_adds hvalue _ _ items) declared _
    | _ => exact .stop _
  | list =>
    apply (body_adds o).andThen
    intro held
    cases held with
    | list items => exact composite_adds (values_adds hvalue _ _ items) declared _
    | _ => exact .stop _
  | set =>
    apply (body_adds o).andThen
    intro held
    cases held with
    | set items => exact composite_adds (values_adds hvalue _ _ items) declared _
    | _ => exact .stop _
  | map =>
    apply (body_adds o).andThen
    intro held
    cases held with
    | map es => exact composite_adds (entries_adds hvalue _ _ es) declared _
    | _ => exact .stop _
  | fields => exact fieldsNode_adds hvalue declared
  | null => exact hvalue .null declared
  | refuse => exact .stop _
  | crash => exact .stop _
  | stall =>
    have helapsed : Adds (modify fun st => { st with elapsed := st.elapsed + stallTime }) fun _ _ => True :=
      .modify (fun _ => rfl) (fun _ _ _ hm => hm) fun _ => trivial
    exact helapsed.andThen fun _ => .stop _

theorem dispatch_adds (declared : Ty) : Adds (dispatch c value id declared) fun g n => n < g.size := by
  unfold dispatch
  split
  · exact .stop _
  · next o _ =>
    apply (select_adds o c.serializers.chain).andThen
    intro selected
    cases selected with
    | some a => exact serializeBy_adds hvalue declared _
    | none =>
      dsimp only
      split
      · exact fieldsNode_adds hvalue declared
      · exact .stop _

end

theorem valueAt_adds (c : Context) (depth : Nat) (v : Value) (declared : Ty) :
    Adds (valueAt c depth v declared) fun g n => n < g.size := by
  induction depth generalizing v declared with
  | zero =>
    cases v with
    | null => exact atom_adds _
    | scalar l => exact atom_adds _
    | constant type name => exact push_adds _
    | object id => exact .stop _
  | succ depth ih =>
    cases v with
    | null => exact atom_adds _
    | scalar l => exact atom_adds _
    | constant type name => exact push_adds _
    | object id =>
      intro s r t hs hrun
      unfold valueAt at hrun
      rw [Effect.bind_of_ok (Effect.get_apply s)] at hrun
      cases hfound : findValue? id s.identities with
      | some n =>
        simp only [hfound] at hrun
        cases hrun
        refine ⟨.refl s.graph, hs, fun m hm => ?_⟩
        cases hm
        exact hs id n hfound
      | none =>
        simp only [hfound] at hrun
        exact dispatch_adds ih declared s r t hs hrun

end Serialization

/-! ### Roots -/

def PhaseState.roots (p : PhaseState) : List NodeId :=
  p.receiver.toList ++ p.args ++ p.globals.map CapturedGlobal.value

def Outcome.roots : Outcome → List NodeId
  | .pending => []
  | .returned result => result.toList
  | .threw error => [error]

def CallRecord.roots (r : CallRecord) : List NodeId := r.args ++ r.result.toList

/-- All the nodes are in the graph. -/
def Graph.Contains (g : Graph) (ns : List NodeId) : Prop := ∀ n ∈ ns, n < g.size

theorem Graph.Contains.mono {g g' : Graph} {ns : List NodeId} (h : g.Contains ns) (hg : g.Extended g') :
    g'.Contains ns :=
  fun n hn => (h n hn).trans_le hg.size_le

theorem Graph.Contains.append {g : Graph} {ms ns : List NodeId} (hm : g.Contains ms)
    (hn : g.Contains ns) : g.Contains (ms ++ ns) := by
  intro n hmem
  exact (List.mem_append.1 hmem).elim (hm n) (hn n)

/-- The snapshots differ in their graphs at most, and the second graph is the first one, grown. -/
def Snapshot.OnlyGrown (s s' : Snapshot) : Prop :=
  s' = { s with graph := s'.graph } ∧ s.graph.Extended s'.graph

namespace Population

open Serialization

def Aftermath.roots (a : Aftermath) : List NodeId :=
  a.state.roots ++ a.outcome.roots ++ (a.inputs ++ a.outputs).flatMap CallRecord.roots

variable (c : Context)

theorem node_adds (v : Value) (declared : Ty) : Adds (node c v declared) fun g n => n < g.size :=
  valueAt_adds c _ v declared

theorem optionalNode_adds (v : Option Value) (declared : Ty) :
    Adds (optionalNode c v declared) fun g n => g.Contains n.toList := by
  cases v with
  | none => exact .pure fun _ _ hn => nomatch hn
  | some v => exact (node_adds c v declared).map fun _ _ hn _ hm => List.mem_singleton.1 hm ▸ hn

theorem argNodes_adds (params : List Ty) (args : List Value) :
    Adds (argNodes c params args) fun g ns => g.Contains ns := by
  apply Adds.mapM fun hg hn => hn.trans_le hg.size_le
  rintro ⟨v, i⟩
  exact node_adds c v _

theorem phaseState_adds (phase : Phase) (sig : Signature) (globals : List GlobalRef) (live : LiveState) :
    Adds (phaseState c phase sig globals live) fun g p => g.Contains p.roots := by
  unfold phaseState
  dsimp only
  split
  · exact (Adds.stop (α := PhaseState) _)
  · apply (optionalNode_adds c live.receiver sig.declaring).bind
    intro receiver
    apply (argNodes_adds c sig.params live.args).bind
    intro args
    have hglobals : Adds ((globals.zip live.globals).mapM fun e => do
        return (⟨e.1, ← node c e.2 e.1.type⟩ : CapturedGlobal)) fun g gs => ∀ n ∈ gs, n.value < g.size := by
      apply Adds.mapM fun hg hn => hn.trans_le hg.size_le
      intro e
      apply (node_adds c e.2 e.1.type).bind
      intro n
      exact .pure fun g g₀ h₀ hn => hn.trans_le h₀.size_le
    apply hglobals.bind
    intro gs
    refine .pure fun g g₂ h₂ hgs g₁ h₁ hargs g₀ h₀ hreceiver => ?_
    have hwatched : g.Contains (gs.map CapturedGlobal.value) := by
      intro n hn
      obtain ⟨e, he, rfl⟩ := List.mem_map.1 hn
      exact (hgs e he).trans_le h₂.size_le
    exact ((hreceiver.mono h₀).append (hargs.mono h₁)).append hwatched

theorem callRecord_adds (call : LiveCall) :
    Adds (callRecord c call) fun g r => g.Contains r.roots := by
  apply (argNodes_adds c call.params call.args).bind
  intro args
  apply (optionalNode_adds c call.result .object).bind
  intro result
  exact .pure fun g g₁ h₁ hresult g₀ h₀ hargs => (hargs.mono h₀).append (hresult.mono h₁)

theorem callRecords_adds (calls : List LiveCall) :
    Adds (calls.mapM (callRecord c)) fun g rs => g.Contains (rs.flatMap CallRecord.roots) := by
  have hrecords : Adds (calls.mapM (callRecord c)) fun g rs => ∀ r ∈ rs, g.Contains r.roots :=
    .mapM (fun hg hr => hr.mono hg) (callRecord_adds c) calls
  apply hrecords.imp
  intro g rs hrs n hn
  obtain ⟨r, hr, hn⟩ := List.mem_flatMap.1 hn
  exact hrs r hr n hn

theorem outcomeNodes_adds (sig : Signature) (outcome : LiveOutcome) :
    Adds (outcomeNodes c sig outcome) fun g o => g.Contains o.roots := by
  cases outcome with
  | returned result =>
    rw [outcomeNodes]
    split
    · exact .pure fun _ _ hn => nomatch hn
    · exact (optionalNode_adds c result sig.result).map fun _ _ hn => hn
  | threw error =>
    exact (node_adds c error .object).map fun _ _ hn _ hm => List.mem_singleton.1 hm ▸ hn

theorem aftermath_adds (sig : Signature) (globals : List GlobalRef) (live : LiveState)
    (outcome : LiveOutcome) (inputs outputs : List LiveCall) :
    Adds (aftermath c sig globals live outcome inputs outputs) fun g a => g.Contains a.roots := by
  apply (phaseState_adds c .expect sig globals live).bind
  intro state
  apply (outcomeNodes_adds c sig outcome).bind
  intro o
  apply (callRecords_adds c outputs).bind
  intro outs
  have hreset : Adds resetIdentities fun _ _ => True :=
    .modify (fun _ => rfl) (fun _ _ _ hm => nomatch hm) fun _ => trivial
  apply hreset.bind
  intro _
  apply (callRecords_adds c inputs).bind
  intro ins
  refine .pure fun g g₄ h₄ hins g₃ _ _ g₂ h₂ houts g₁ h₁ ho g₀ h₀ hstate => ?_
  rw [Aftermath.roots, List.flatMap_append]
  exact ((hstate.mono h₀).append (ho.mono h₁)).append ((hins.mono h₄).append (houts.mono h₂))

variable {c}

section

variable {α : Type} {body : Serialize α} {store : α → Snapshot → Snapshot} {s : Snapshot}
  {i : Interner} {t : State}

theorem run_of_ok {a : α} (h : body (.start s.graph i) = (.ok a, t)) :
    run s i body store = ⟨store a { s with graph := t.graph }, t.interner, t.elapsed, .ok ()⟩ := by
  have hrun : body.run (.start s.graph i) = (.ok a, t) := h
  unfold run
  rw [hrun]

theorem run_of_error {e : Stop} (h : body (.start s.graph i) = (.error e, t)) :
    run s i body store = ⟨{ s with graph := t.graph }, t.interner, t.elapsed, .error e⟩ := by
  have hrun : body.run (.start s.graph i) = (.error e, t) := h
  unfold run
  rw [hrun]

variable (s i)

theorem run_extended {post : Graph → α → Prop} (hbody : Adds body post)
    (hstore : ∀ a s, (store a s).graph = s.graph) : s.graph.Extended (run s i body store).snapshot.graph := by
  cases hrun : body (.start s.graph i) with
  | mk answer t =>
    obtain ⟨hgrown, -, -⟩ := hbody _ answer t (start_bounded s.graph i) hrun
    cases answer with
    | ok a =>
      rw [run_of_ok hrun, hstore]
      exact hgrown
    | error e =>
      rw [run_of_error hrun]
      exact hgrown

variable {s i}

/-- A serialization that stops stores nothing. -/
theorem run_failed {e : Stop} (h : (run s i body store).answer = .error e) :
    (run s i body store).snapshot = { s with graph := (run s i body store).snapshot.graph } := by
  cases hrun : body (.start s.graph i) with
  | mk answer t =>
    cases answer with
    | ok a =>
      rw [run_of_ok hrun] at h
      cases h
    | error e' => rw [run_of_error hrun]

end

theorem setup_extended (c : Context) (globals : List GlobalRef) (live : LiveState) (s : Snapshot)
    (i : Interner) : s.graph.Extended (setup c globals live s i).snapshot.graph :=
  run_extended s i (phaseState_adds c .setup s.signature globals live) fun _ _ => rfl

theorem expect_extended (c : Context) (globals : List GlobalRef) (live : LiveState) (outcome : LiveOutcome)
    (inputs outputs : List LiveCall) (s : Snapshot) (i : Interner) :
    s.graph.Extended (expect c globals live outcome inputs outputs s i).snapshot.graph :=
  run_extended s i (aftermath_adds c s.signature globals live outcome inputs outputs) fun _ _ => rfl

/-- A population that fails or waits, for whatever reason and at whatever depth, records nothing: of the
snapshot only the graph may have grown, and that at its end. -/
theorem failure_records_nothing (c : Context) (globals : List GlobalRef) (live : LiveState) (s : Snapshot)
    (i : Interner) :
    (∀ e, (setup c globals live s i).answer = .error e →
      s.OnlyGrown (setup c globals live s i).snapshot) ∧
    ∀ outcome inputs outputs e,
      (expect c globals live outcome inputs outputs s i).answer = .error e →
        s.OnlyGrown (expect c globals live outcome inputs outputs s i).snapshot := by
  constructor
  · intro e he
    exact ⟨run_failed he, setup_extended c globals live s i⟩
  · intro outcome inputs outputs e he
    exact ⟨run_failed he, expect_extended c globals live outcome inputs outputs s i⟩

/-- A list whose last element is locked. With an adaptor that goes by its class the element is refused; with
the default serializers alone it is waited for. And a call record that a serializer refuses. -/
theorem locked_element_records_nothing :
    let h : Heap := ⟨#[⟨.ofClass "ArrayList", .list [.scalar (.bool true), .object 1], false⟩,
      ⟨.ofClass "HashSet", .set [], true⟩, ⟨.ofClass "LinkedList", .list [], false⟩]⟩
    let plain : SerializerRegistry :=
      ⟨⟨⟨"plain", none, ⟨.runtimeClass "HashSet", .fields⟩⟩ :: standardSerializers⟩, true⟩
    let refusing : SerializerRegistry :=
      ⟨⟨⟨"picky", none, ⟨.runtimeClass "LinkedList", .refuse⟩⟩ :: standardSerializers⟩, true⟩
    let s := Snapshot.new ⟨.ofClass "List", "size", [], .void⟩ .empty
    let locked := setup ⟨h, .builtin, plain⟩ [] ⟨some (.object 0), [], []⟩ s .empty
    let waiting := setup ⟨h, .builtin, refusing⟩ [] ⟨some (.object 0), [], []⟩ s .empty
    let refused := expect ⟨h, .builtin, refusing⟩ [] ⟨none, [.null], []⟩ (.returned none)
      [⟨.ofClass "Log", "read", [], [.object 2], none⟩] [] s .empty
    locked.answer = .error (.failed (.failure "HashSet is locked for writing")) ∧
      locked.snapshot.graph.size = 2 ∧ s.OnlyGrown locked.snapshot ∧
      waiting.answer = .error .waits ∧ s.OnlyGrown waiting.snapshot ∧
      refused.answer = .error (.failed (.failure "refused")) ∧ refused.snapshot.graph.size = 1 ∧
      s.OnlyGrown refused.snapshot := by
  intro h plain refusing s locked waiting refused
  have hlocked : locked.answer = .error (.failed (.failure "HashSet is locked for writing")) := by
    decide +kernel
  have hwaiting : waiting.answer = .error .waits := by decide +kernel
  have hrefused : refused.answer = .error (.failed (.failure "refused")) := by decide +kernel
  refine ⟨hlocked, by decide +kernel, ?_, hwaiting, ?_, hrefused, by decide +kernel, ?_⟩
  · exact (failure_records_nothing _ _ _ s _).1 _ hlocked
  · exact (failure_records_nothing _ _ _ s _).1 _ hwaiting
  · exact (failure_records_nothing _ _ _ s _).2 _ _ _ _ hrefused

end Population

end Reenact
