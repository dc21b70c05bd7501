import Mathlib
import Reenact.Class.Builtin
import Reenact.Proofs.Builders
import Reenact.Proofs.RoundTrip

/-!
Building the code for a value from start to end. It comes to an end by itself and fails on nothing but
what no code can build; if it succeeds, every object is bound once, and read only after that.
-/

namespace Reenact.Reconstruction

variable {c : Context} {id part root : NodeId} {s t : State}

/-! ### Depth -/

/-- The nodes behind a node that stand in no local. -/
def unbuilt (c : Context) (s : State) (id : NodeId) : Finset NodeId :=
  (Finset.range c.graph.size).filter fun k => k ∈ c.graph.reachable id ∧ findValue? k s.built = none

theorem mem_unbuilt {k : NodeId} : k ∈ unbuilt c s id ↔
    k < c.graph.size ∧ Leads c.graph.children id k ∧ ¬ s.Built k := by
  unfold unbuilt State.Built
  rw [Finset.mem_filter, Finset.mem_range, Graph.mem_reachable, ← Option.isSome_iff_exists,
    Option.not_isSome_iff_eq_none]

/-- Each nested task has fewer nodes to build than the one it is part of. -/
theorem unbuilt_lt (hpart : part ∈ c.graph.children id) (ht : Inside c id s t) (hnew : ¬ s.Built id) :
    (unbuilt c t part).card < (unbuilt c s id).card := by
  apply Finset.card_lt_card
  rw [Finset.ssubset_iff_of_subset]
  · refine ⟨id, mem_unbuilt.2 ⟨Graph.lt_size_of_children (List.ne_nil_of_mem hpart), .refl, hnew⟩, ?_⟩
    intro hid
    obtain ⟨-, hlead, hid⟩ := mem_unbuilt.1 hid
    rcases ht.barred with hbuilt | hacyclic
    · exact hid hbuilt
    · exact hacyclic part hpart hlead
  · intro k hk
    obtain ⟨hlt, hlead, hk⟩ := mem_unbuilt.1 hk
    exact mem_unbuilt.2 ⟨hlt, .head hpart hlead, fun hbuilt => hk (ht.kept hbuilt)⟩

theorem unbuilt_card_le (c : Context) (s : State) (id : NodeId) : (unbuilt c s id).card ≤ c.graph.size :=
  (Finset.card_filter_le _ _).trans_eq (Finset.card_range _)

/-- Two levels for each node to build are enough, whatever is beyond them: a value that is being wrapped
takes one for itself. -/
theorem tasks_run (hchain : c.adaptors.chain = standard.chain) (bottom bottom' : Task → Build Expr) (n : ℕ)
    {depth depth' : ℕ} (hdepth : 2 * n < depth) (hdepth' : 2 * n < depth') (hs : InOrder s)
    (hcard : (unbuilt c s id).card ≤ n) :
    Runs (Good c id) ((step c)^[depth] bottom (.value id)) ((step c)^[depth'] bottom' (.value id)) s
      (Rebuilds c id s) := by
  induction n using Nat.strong_induction_on generalizing depth depth' id s with
  | h n ih =>
    obtain ⟨d, rfl⟩ := Nat.exists_eq_add_one_of_ne_zero (Nat.ne_zero_of_lt hdepth)
    obtain ⟨d', rfl⟩ := Nat.exists_eq_add_one_of_ne_zero (Nat.ne_zero_of_lt hdepth')
    rw [Function.iterate_succ_apply', Function.iterate_succ_apply']
    apply Runs.step (Effect.get_apply s)
    cases hl : findValue? id s.built with
    | some l => exact .pure ⟨⟨[], .refl s, by simp⟩, hs, .inl ⟨l, hl⟩, covers_loc hs hl⟩
    | none =>
      have hnew : ¬ s.Built id := by
        rintro ⟨l, hl'⟩
        cases hl.symm.trans hl'
      have hparts : ∀ e e', 2 * n ≤ e + 1 → 2 * n ≤ e' + 1 →
          BuildsParts c id s ((step c)^[e] bottom) ((step c)^[e'] bottom') := by
        intro e e' he he' part hpart t ht
        have hlt := unbuilt_lt hpart ht hnew
        exact ih _ (hlt.trans_le hcard) (by omega) (by omega) ht.inOrder le_rfl
      apply dispatch_runs hchain (hparts d d' (by omega) (by omega)) hs hnew
      intro kind elements collection payload hw hkind
      -- the node exists, so that there is a level for what it wraps
      have hpos : 0 < (unbuilt c s id).card := by
        obtain ⟨_, _, _, hn, -⟩ := hw.node
        exact Finset.card_pos.2 ⟨id, mem_unbuilt.2 ⟨Graph.lt_size hn, .refl, hnew⟩⟩
      obtain ⟨e, rfl⟩ : ∃ e, d = e + 1 := ⟨d - 1, by omega⟩
      obtain ⟨e', rfl⟩ : ∃ e', d' = e' + 1 := ⟨d' - 1, by omega⟩
      rw [Function.iterate_succ_apply', Function.iterate_succ_apply']
      exact delegate_runs hchain (hparts e e' (by omega) (by omega)) hs hw hkind

/-- What a task does beyond the depth. -/
def exhausted (c : Context) : Task → Build Expr := run c 0

theorem run_eq_iterate (c : Context) (depth : ℕ) : run c depth = (step c)^[depth] (exhausted c) := by
  induction depth with
  | zero => rfl
  | succ depth ih => rw [run_succ, ih, Function.iterate_succ_apply']

theorem lt_depthBound (c : Context) (s : State) (id : NodeId) : 2 * (unbuilt c s id).card < depthBound c := by
  have hcard := unbuilt_card_le c s id
  have hmul : (c.graph.size + 2) * 2 ≤ (c.graph.size + 2) * (c.adaptors.chain.size + 2) :=
    Nat.mul_le_mul_left _ (Nat.le_add_left _ _)
  unfold depthBound
  omega

/-- The bound on the depth is large enough for every value. -/
theorem value_runs (hchain : c.adaptors.chain = standard.chain) (hs : InOrder s)
    (bottom : Task → Build Expr) {depth : ℕ} (hdepth : depthBound c ≤ depth) (root : NodeId) :
    Runs (Good c root) (value c root) ((step c)^[depth] bottom (.value root)) s (Rebuilds c root s) := by
  have hbound := lt_depthBound c s root
  unfold value
  rw [run_eq_iterate]
  exact tasks_run hchain _ bottom _ hbound (hbound.trans_le hdepth) hs le_rfl

/-! ### What is built -/

theorem not_built_start (scope : Scope) (k : NodeId) : ¬ (State.start scope).Built k := by
  rintro ⟨l, hl⟩
  cases hl

/-- Where nothing was built before, everything that the root leads to can be referred to in the end. -/
theorem settled_of_leads {order : List (NodeId × Role)} {scope : Scope}
    (hadds : Adds c.types c.graph (.start scope) order t) (hroot : Settled c.graph t root) {k : NodeId}
    (hk : Leads c.graph.children root k) : Settled c.graph t k := by
  induction hk with
  | refl => exact hroot
  | @tail m k _ hstep ih =>
    rcases ih with hbuilt | ⟨n, hn, hplain⟩
    · have hmem := (hadds.built hbuilt).resolve_left (not_built_start scope m)
      exact (hadds.complete hmem).parts k hstep
    · cases n with
      | composite => cases hplain
      | atom => simp [Graph.children, hn, Node.children] at hstep
      | constant => simp [Graph.children, hn, Node.children] at hstep

theorem mem_order_iff {order : List (NodeId × Role)} {scope : Scope}
    (hadds : Adds c.types c.graph (.start scope) order t)
    (hbelow : ∀ e ∈ order, Leads c.graph.children root e.1) (hroot : Settled c.graph t root) {k : NodeId} :
    (k, .identity) ∈ order ↔ Leads c.graph.children root k ∧
      ∃ declared runtime content, c.graph.get? k = some (.composite declared runtime content) := by
  constructor
  · intro hmem
    exact ⟨hbelow _ hmem, (hadds.complete hmem).composite⟩
  · rintro ⟨hlead, _, _, _, hn⟩
    rcases settled_of_leads hadds hroot hlead with hbuilt | ⟨n, hn', hplain⟩
    · exact (hadds.built hbuilt).resolve_left (not_built_start scope k)
    · cases hn.symm.trans hn'
      cases hplain

theorem buildable_of_leads {order : List (NodeId × Role)} {scope : Scope}
    (hadds : Adds c.types c.graph (.start scope) order t) (hroot : Settled c.graph t root) {k : NodeId}
    (hk : Leads c.graph.children root k) : ¬ Unbuildable c.types c.graph k := by
  rcases settled_of_leads hadds hroot hk with hbuilt | ⟨n, hn, hplain⟩
  · exact (hadds.complete ((hadds.built hbuilt).resolve_left (not_built_start scope k))).buildable
  · intro hbad
    exact Bool.noConfusion (hplain.symm.trans (hbad.isReference hn))

/-- After its value, the type and the statements of a computation are there for the taking. -/
theorem compute_of_value {e : Expr} (hvalue : value c root s = (.ok e, t)) (hroot : Settled c.graph t root) :
    ∃ code t', compute c root none s = (.ok code, t') := by
  obtain ⟨type, htype⟩ := codeType_of_settled hroot
  refine ⟨⟨e, type, t.statements⟩, { t with statements := [] }, ?_⟩
  unfold compute
  simp only
  rw [Effect.bind_of_ok hvalue, Effect.bind_of_ok htype]
  rfl

/-- Rebuilding a value comes to an end by itself: the end of the bounded recursion is never reached,
whatever is there and however far off it is. If no set is of a class for wrappers around lists, it fails
exactly where something behind the root cannot be built. -/
theorem computes_iff_buildable (types : ClassTable) (g : Graph) (root : NodeId) (scope : Scope) :
    (∀ bottom depth, depthBound (context types g) ≤ depth →
      (step (context types g))^[depth] bottom (.value root) (.start scope) =
        value (context types g) root (.start scope)) ∧
    ((∀ id, Leads g.children root id → ¬ Crossed g id) →
      ((∃ code s, compute (context types g) root none (.start scope) = (.ok code, s)) ↔
        ∀ id, Leads g.children root id → ¬ Unbuildable types g id)) := by
  have hruns := fun bottom {depth} hdepth =>
    @value_runs (context types g) _ rfl (.start scope) bottom depth hdepth root
  constructor
  · intro bottom depth hdepth
    exact (hruns bottom hdepth).agree.symm
  · intro huncrossed
    have hrun := hruns (exhausted (context types g)) le_rfl
    constructor
    · rintro ⟨code, s, hcode⟩ id hid
      obtain ⟨t, hvalue, -⟩ := compute_ok hcode
      obtain ⟨⟨order, hadds, -⟩, -, hsettled, -⟩ := hrun.post hvalue
      exact buildable_of_leads hadds hsettled hid
    · intro hbuildable
      obtain ⟨e, t, hvalue⟩ := hrun.succeeds ⟨rfl, fun hk => hbuildable _ hk, fun hk => huncrossed _ hk⟩
      exact compute_of_value hvalue (hrun.post hvalue).settled

/-- A list that holds itself and, twice, a wrapper around a list. -/
def wrappedLoop : Graph := ⟨#[.composite .object (.ofClass "ArrayList") (.list [0, 1, 1]),
  .composite .object (.ofClass "collections::UnmodifiableList") (.list [2]), .atom (.null .object)]⟩

theorem wrapped_loop_computes : (∀ id, Leads wrappedLoop.children 0 id → ¬ Crossed wrappedLoop id) ∧
    (∃ code s, compute (context .builtin wrappedLoop) 0 none (.start .empty) = (.ok code, s)) ∧
    ∀ id, Leads wrappedLoop.children 0 id → ¬ Unbuildable .builtin wrappedLoop id := by
  have huncrossed : ∀ id, Leads wrappedLoop.children 0 id → ¬ Crossed wrappedLoop id := by
    rintro id - ⟨_, _, _, _, hn, -⟩
    match id with
    | 0 | 1 | 2 | _ + 3 => cases hn
  obtain ⟨code, hcode⟩ := Option.isSome_iff_exists.1
    (by decide +kernel : (compute (context .builtin wrappedLoop) 0 none (.start .empty)).1.toOption.isSome = true)
  have hcomputes : ∃ code s, compute (context .builtin wrappedLoop) 0 none (.start .empty) = (.ok code, s) :=
    ⟨code, _, Effect.ok_of_toOption hcode⟩
  exact ⟨huncrossed, hcomputes,
    ((computes_iff_buildable .builtin wrappedLoop 0 .empty).2 huncrossed).1 hcomputes⟩

/-- If a value can be rebuilt, the statements bind one local for every array, collection, map and object
behind the root, one more for every collection that is wrapped, and no others, and each local is read
only after it was bound. -/
theorem bound_once_before_use (types : ClassTable) (g : Graph) (root : NodeId) (fallback : Bool)
    (scope : Scope) {code : Computation} {s : State}
    (hcode : compute ⟨g, types, { standard with fallback }⟩ root none (.start scope) = (.ok code, s)) :
    ∃ order : List (NodeId × Role), order.Nodup ∧
      (∀ id, (id, .identity) ∈ order ↔ Leads g.children root id ∧
        ∃ declared runtime content, g.get? id = some (.composite declared runtime content)) ∧
      (∀ id, (id, .payload) ∈ order ↔ Leads g.children root id ∧ HasPayload g id) ∧
      List.Forall₂ (Creates types g) order (lets code.statements) ∧
      InScope code.statements ∧ ∀ name ∈ code.value.reads, Bound code.statements name := by
  obtain ⟨t, hvalue, hstatements⟩ := compute_ok hcode
  let c : Context := ⟨g, types, { standard with fallback }⟩
  have hrun := value_runs (c := c) rfl (.start scope) (exhausted c) le_rfl root
  obtain ⟨⟨order, hadds, hbelow⟩, hinOrder, hsettled, hcovers⟩ := hrun.post hvalue
  have hmem := fun id => mem_order_iff hadds hbelow hsettled (k := id)
  obtain ⟨emitted, hemitted, hcreates⟩ := hadds.statements
  have hcodeEq : code.statements = emitted := by
    rw [← hstatements, hemitted]
    rfl
  refine ⟨order, hadds.nodup, hmem, fun id => ?_, hcodeEq ▸ hcreates, hstatements ▸ hinOrder.scope,
    hstatements ▸ hcovers⟩
  rw [hadds.payload, hmem, and_assoc]
  refine and_congr_right fun _ => and_iff_right_of_imp ?_
  rintro ⟨kind, elements, hw, -⟩
  cases hw with
  | list hn => exact ⟨_, _, _, hn⟩
  | set hn => exact ⟨_, _, _, hn⟩

theorem wrapped_loop_bound_once :
    ∃ code s, compute ⟨wrappedLoop, .builtin, { standard with fallback := true }⟩ 0 none (.start .empty) =
        (.ok code, s) ∧ (lets code.statements).length = 3 ∧
      ∃ order : List (NodeId × Role), order.Perm [(0, .identity), (1, .payload), (1, .identity)] ∧
        List.Forall₂ (Creates .builtin wrappedLoop) order (lets code.statements) ∧
        InScope code.statements := by
  let built := compute ⟨wrappedLoop, .builtin, { standard with fallback := true }⟩ 0 none (.start .empty)
  obtain ⟨code, hcode⟩ := Option.isSome_iff_exists.1 (by decide +kernel : built.1.toOption.isSome = true)
  have hlength : built.1.toOption.map (fun code => (lets code.statements).length) = some 3 := by
    decide +kernel
  rw [hcode] at hlength
  have hthree : (lets code.statements).length = 3 := Option.some.inj hlength
  have hcompute : built = (.ok code, built.2) := Effect.ok_of_toOption hcode
  obtain ⟨order, -, hidentity, hpayload, hcreates, hscope, -⟩ :=
    bound_once_before_use .builtin wrappedLoop 0 true .empty hcompute
  refine ⟨code, _, hcompute, hthree, order, ?_, hcreates, hscope⟩
  have hone : Leads wrappedLoop.children 0 1 := .single (by decide +kernel)
  have hsub : [(0, Role.identity), (1, .payload), (1, .identity)] ⊆ order := by
    intro e he
    simp only [List.mem_cons, List.not_mem_nil, or_false] at he
    rcases he with rfl | rfl | rfl
    · exact (hidentity 0).2 ⟨.refl, _, _, _, rfl⟩
    · exact (hpayload 1).2 ⟨hone, "Unmodifiable", [2], .list rfl (by decide +kernel), by simp [payloadKinds]⟩
    · exact (hidentity 1).2 ⟨hone, _, _, _, rfl⟩
  have hperm := (List.subperm_of_subset (by decide) hsub).perm_of_length_le
    (by rw [hcreates.length_eq, hthree]; rfl)
  exact hperm.symm

end Reenact.Reconstruction
