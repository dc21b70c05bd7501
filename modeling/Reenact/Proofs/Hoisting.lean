import Mathlib
import Reenact.Proofs.Bindings
import Reenact.Proofs.Description
import Reenact.Proofs.Traversal

/-!
What happens in the course of a description: nodes are handed to adaptors, and matchers are bound to
locals. Every mention of a node among the parts of others is met once at most for each time these are
described, and nothing behind the root is passed over. So a node that is mentioned once is described once,
and one that is mentioned more often is bound to a local, in place of being described again.
-/

namespace Reenact

namespace Verification

variable {types : ClassTable} {g : Graph} {st st' st'' : State} {id : NodeId} {met met' : List NodeId}

/-! ### Events -/

inductive Event where
  /-- The node is handed to an adaptor, or to the fallback. -/
  | visit (id : NodeId)
  /-- The matcher of the node is bound to a local. -/
  | hoist (id : NodeId) (name : String) (matcher : Expr)

namespace Event

def code : Event → Stmt
  | visit id => .comment (toString id)
  | hoist _ name matcher => .bind name matcherType matcher

def visited? : Event → Option NodeId
  | visit id => some id
  | hoist .. => none

def hoisted? : Event → Option (NodeId × String)
  | visit _ => none
  | hoist id name _ => some (id, name)

end Event

def visits (es : List Event) : List NodeId := es.filterMap Event.visited?

def hoists (es : List Event) : List (NodeId × String) := es.filterMap Event.hoisted?

theorem visits_append (es es' : List Event) : visits (es ++ es') = visits es ++ visits es' :=
  List.filterMap_append

theorem hoists_append (es es' : List Event) : hoists (es ++ es') = hoists es ++ hoists es' :=
  List.filterMap_append

theorem visits_visit (id : NodeId) (es : List Event) : visits (.visit id :: es) = id :: visits es := rfl

theorem hoists_visit (id : NodeId) (es : List Event) : hoists (.visit id :: es) = hoists es := rfl

def IsComposite (g : Graph) (id : NodeId) : Prop :=
  ∃ declared runtime content, g.get? id = some (.composite declared runtime content)

/-! ### Traces -/

/-- From the first state to the second one the nodes of the list were described one after the other, with
these events on the way. -/
structure Trace (g : Graph) (st : State) (met : List NodeId) (es : List Event) (st' : State) : Prop where
  statements : st'.statements = st.statements ++ es.map Event.code
  active : st'.active = st.active
  shared : st'.shared = st.shared
  hoisted : st'.hoisted = st.hoisted ++ hoists es
  fresh : ∀ k ∈ visits es, k ∉ st.active ∧ findValue? k st.hoisted = none
  /-- Every visit is due to a mention of the node. -/
  mentioned : ∀ k, (visits es).count k ≤ (met ++ (visits es).flatMap g.children).count k
  below : ∀ k ∈ visits es, ∃ m ∈ met, Leads g.children m k
  /-- No composite that is mentioned is passed over. -/
  covered : ∀ k ∈ met ++ (visits es).flatMap g.children, IsComposite g k →
    k ∈ visits es ∨ k ∈ st.active ∨ ∃ name, findValue? k st.hoisted = some name
  once : ∀ k ∈ st.shared, (visits es).count k ≤ 1
  mem_hoists : ∀ k, k ∈ (hoists es).map (·.1) ↔ k ∈ visits es ∧ k ∈ st.shared
  nodup : ((hoists es).map (·.1)).Nodup
  named : ∀ e ∈ hoists es, st.scope.names.Ahead e.2 ∧ ¬ st'.scope.names.Ahead e.2
  names : ((hoists es).map (·.2)).Nodup
  ahead : ∀ {name}, st'.scope.names.Ahead name → st.scope.names.Ahead name

namespace Trace

variable {es es' : List Event}

/-- Nothing happens where nothing but known nodes and plain values are met. -/
theorem idle (hstatements : st'.statements = st.statements) (hactive : st'.active = st.active)
    (hshared : st'.shared = st.shared) (hhoisted : st'.hoisted = st.hoisted)
    (hnames : st'.scope.names = st.scope.names)
    (hmet : ∀ k ∈ met, IsComposite g k → k ∈ st.active ∨ ∃ name, findValue? k st.hoisted = some name) :
    Trace g st met [] st' where
  statements := by rw [hstatements, List.map_nil, List.append_nil]
  active := hactive
  shared := hshared
  hoisted := by rw [hhoisted, hoists, List.filterMap_nil, List.append_nil]
  fresh _ hk := absurd hk List.not_mem_nil
  mentioned k := by simp [visits]
  below _ hk := absurd hk List.not_mem_nil
  covered k hk hcomposite := .inr (hmet k (by simpa [visits] using hk) hcomposite)
  once k _ := by simp [visits]
  mem_hoists k := by simp [visits, hoists]
  nodup := List.nodup_nil
  named _ he := absurd he List.not_mem_nil
  names := List.nodup_nil
  ahead hname := hnames ▸ hname

theorem refl (g : Graph) (st : State) : Trace g st [] [] st :=
  idle rfl rfl rfl rfl rfl fun _ hk => absurd hk List.not_mem_nil

/-- What has been hoisted in the end was hoisted before or has been visited. -/
theorem known (h : Trace g st met es st') {k : NodeId} (hk : ∃ name, findValue? k st'.hoisted = some name) :
    k ∈ visits es ∨ ∃ name, findValue? k st.hoisted = some name := by
  simp only [← Option.isSome_iff_exists, ← Option.ne_none_iff_isSome, ne_eq, findValue?_eq_none, not_not] at hk ⊢
  rw [h.hoisted, List.map_append, List.mem_append, h.mem_hoists] at hk
  exact hk.symm.imp And.left fun hold => hold

/-- What stays to be visited has not been hoisted. -/
theorem unknown (h : Trace g st met es st') {k : NodeId} (hk : findValue? k st'.hoisted = none) :
    findValue? k st.hoisted = none ∧ (k ∈ st.shared → k ∉ visits es) := by
  rw [findValue?_eq_none, h.hoisted, List.map_append, List.mem_append, not_or, h.mem_hoists, not_and] at hk
  exact ⟨findValue?_eq_none.2 hk.1, fun hshared hvisit => hk.2 hvisit hshared⟩

theorem trans (h : Trace g st met es st') (h' : Trace g st' met' es' st'') :
    Trace g st (met ++ met') (es ++ es') st'' where
  statements := by rw [h'.statements, h.statements, List.map_append, List.append_assoc]
  active := h'.active.trans h.active
  shared := h'.shared.trans h.shared
  hoisted := by rw [h'.hoisted, h.hoisted, hoists_append, List.append_assoc]
  fresh k hk := by
    rw [visits_append] at hk
    rcases List.mem_append.1 hk with hk | hk
    · exact h.fresh k hk
    · obtain ⟨hactive, hnone⟩ := h'.fresh k hk
      exact ⟨h.active ▸ hactive, (h.unknown hnone).1⟩
  mentioned k := by
    have hfirst := h.mentioned k
    have hsecond := h'.mentioned k
    simp only [visits_append, List.flatMap_append, List.count_append] at hfirst hsecond ⊢
    omega
  below k hk := by
    rw [visits_append] at hk
    rcases List.mem_append.1 hk with hk | hk
    · obtain ⟨m, hm, hlead⟩ := h.below k hk
      exact ⟨m, List.mem_append_left _ hm, hlead⟩
    · obtain ⟨m, hm, hlead⟩ := h'.below k hk
      exact ⟨m, List.mem_append_right _ hm, hlead⟩
  covered k hk hcomposite := by
    have hcases : k ∈ met ++ (visits es).flatMap g.children ∨ k ∈ met' ++ (visits es').flatMap g.children := by
      simp only [visits_append, List.flatMap_append, List.mem_append] at hk ⊢
      tauto
    rw [visits_append, List.mem_append]
    rcases hcases with hk | hk
    · exact (h.covered k hk hcomposite).imp_left .inl
    · rcases h'.covered k hk hcomposite with hvisit | hactive | hknown
      · exact .inl (.inr hvisit)
      · exact .inr (.inl (h.active ▸ hactive))
      · rcases h.known hknown with hvisit | hold
        · exact .inl (.inl hvisit)
        · exact .inr (.inr hold)
  once k hk := by
    rw [visits_append, List.count_append]
    by_cases hvisit : k ∈ visits es'
    · have hnot := (h.unknown (h'.fresh k hvisit).2).2 hk
      rw [List.count_eq_zero.2 hnot, Nat.zero_add]
      exact h'.once k (h.shared ▸ hk)
    · rw [List.count_eq_zero.2 hvisit, Nat.add_zero]
      exact h.once k hk
  mem_hoists k := by
    rw [hoists_append, visits_append, List.map_append, List.mem_append, List.mem_append, h.mem_hoists,
      h'.mem_hoists, h.shared, or_and_right]
  nodup := by
    rw [hoists_append, List.map_append]
    refine List.nodup_append.2 ⟨h.nodup, h'.nodup, ?_⟩
    rintro k hk _ hk' rfl
    obtain ⟨hvisit, hshared⟩ := (h.mem_hoists k).1 hk
    have hnone := (h'.fresh k ((h'.mem_hoists k).1 hk').1).2
    exact (h.unknown hnone).2 hshared hvisit
  named e he := by
    rw [hoists_append] at he
    rcases List.mem_append.1 he with he | he
    · exact (h.named e he).imp_right fun hgiven hname => hgiven (h'.ahead hname)
    · exact (h'.named e he).imp_left h.ahead
  names := by
    rw [hoists_append, List.map_append]
    refine List.nodup_append.2 ⟨h.names, h'.names, ?_⟩
    rintro name hname _ hname' rfl
    obtain ⟨e, he, rfl⟩ := List.mem_map.1 hname
    obtain ⟨e', he', heq⟩ := List.mem_map.1 hname'
    exact (h.named e he).2 (heq ▸ (h'.named e' he').1)
  ahead hname := h.ahead (h'.ahead hname)

/-- Plain values may be counted among the nodes that were met. -/
theorem widen (h : Trace g st met es st') (hcount : ∀ k, met.count k ≤ met'.count k)
    (hmet : ∀ k ∈ met', IsComposite g k → k ∈ met) : Trace g st met' es st' :=
  { h with
    mentioned := fun k => by
      have hold := h.mentioned k
      have hle := hcount k
      rw [List.count_append] at hold ⊢
      omega
    below := fun k hk => by
      obtain ⟨m, hm, hlead⟩ := h.below k hk
      have hpos := (List.count_pos_iff.2 hm).trans_le (hcount m)
      exact ⟨m, List.count_pos_iff.1 hpos, hlead⟩
    covered := fun k hk hcomposite => by
      refine h.covered k ?_ hcomposite
      rw [List.mem_append] at hk ⊢
      exact hk.imp_left fun hk => hmet k hk hcomposite }

/-- A node has been described after its parts have, and after it was bound to a local if it is shared. -/
theorem close (last : List Event) {inner : State} (hnew : id ∉ st.active) (hhoisted : findValue? id st.hoisted = none)
    (h : Trace g { st with statements := st.statements ++ [.comment (toString id)], active := id :: st.active }
      (g.children id) es inner)
    (hvisits : visits last = []) (hkeys : (hoists last).map (·.1) = if id ∈ st.shared then [id] else [])
    (hnames : ∀ e ∈ hoists last, inner.scope.names.Ahead e.2 ∧ ¬ st'.scope.names.Ahead e.2)
    (hnodup : ((hoists last).map (·.2)).Nodup)
    (hahead : ∀ {name}, st'.scope.names.Ahead name → inner.scope.names.Ahead name)
    (hstatements : st'.statements = inner.statements ++ last.map Event.code)
    (hactive : st'.active = st.active) (hshared : st'.shared = inner.shared)
    (hlast : st'.hoisted = inner.hoisted ++ hoists last) :
    Trace g st [id] (.visit id :: es ++ last) st' := by
  have hvisit : visits (.visit id :: es ++ last) = id :: visits es := by
    rw [List.cons_append, visits_visit, visits_append, hvisits, List.append_nil]
  have hhoist : hoists (.visit id :: es ++ last) = hoists es ++ hoists last := by
    rw [List.cons_append, hoists_visit, hoists_append]
  have hself : id ∉ visits es := fun hmem => (h.fresh id hmem).1 List.mem_cons_self
  constructor
  case statements =>
    rw [hstatements, h.statements, List.map_append, List.map_cons, List.append_assoc, List.append_assoc]
    rfl
  case active => exact hactive
  case shared => exact hshared.trans h.shared
  case hoisted => rw [hlast, h.hoisted, hhoist, List.append_assoc]
  case fresh =>
    rw [hvisit]
    refine List.forall_mem_cons.2 ⟨⟨hnew, hhoisted⟩, fun k hk => ?_⟩
    obtain ⟨hother, hnone⟩ := h.fresh k hk
    exact ⟨fun hmem => hother (List.mem_cons_of_mem _ hmem), hnone⟩
  case mentioned =>
    intro k
    have hparts := h.mentioned k
    rw [hvisit, List.flatMap_cons, List.singleton_append, List.count_cons, List.count_cons]
    omega
  case below =>
    rw [hvisit]
    refine List.forall_mem_cons.2 ⟨⟨id, List.mem_singleton_self id, .refl⟩, fun k hk => ?_⟩
    obtain ⟨m, hm, hlead⟩ := h.below k hk
    exact ⟨id, List.mem_singleton_self id, .head hm hlead⟩
  case covered =>
    rw [hvisit, List.flatMap_cons, List.singleton_append]
    refine List.forall_mem_cons.2 ⟨fun _ => .inl List.mem_cons_self, fun k hk hcomposite => ?_⟩
    rcases h.covered k hk hcomposite with hmem | hmem | hknown
    · exact .inl (List.mem_cons_of_mem _ hmem)
    · rcases List.mem_cons.1 hmem with rfl | hmem
      · exact .inl List.mem_cons_self
      · exact .inr (.inl hmem)
    · exact .inr (.inr hknown)
  case once =>
    intro k hk
    rw [hvisit]
    by_cases heq : k = id
    · rw [heq, List.count_cons_self, List.count_eq_zero.2 hself]
    · rw [List.count_cons_of_ne (Ne.symm heq)]
      exact h.once k hk
  case mem_hoists =>
    intro k
    rw [hhoist, hvisit, List.map_append, List.mem_append, h.mem_hoists, hkeys, List.mem_cons, or_and_right]
    split <;> grind
  case nodup =>
    rw [hhoist, List.map_append, hkeys]
    refine List.nodup_append.2 ⟨h.nodup, by split <;> simp, ?_⟩
    rintro k hk _ hk' rfl
    have heq : k = id := by split at hk' <;> simp_all
    exact hself (heq ▸ ((h.mem_hoists k).1 hk).1)
  case named =>
    rw [hhoist]
    intro e he
    rcases List.mem_append.1 he with he | he
    · exact (h.named e he).imp_right fun hgiven hname => hgiven (hahead hname)
    · exact (hnames e he).imp_left h.ahead
  case names =>
    rw [hhoist, List.map_append]
    refine List.nodup_append.2 ⟨h.names, hnodup, ?_⟩
    rintro name hname _ hname' rfl
    obtain ⟨e, he, rfl⟩ := List.mem_map.1 hname
    obtain ⟨e', he', heq⟩ := List.mem_map.1 hname'
    exact (h.named e he).2 (heq ▸ (hnames e' he').1)
  case ahead => exact fun hname => h.ahead (hahead hname)

end Trace

/-! ### Steps -/

/-- Each local is read after it was bound, and the locals of nodes are bound. -/
structure Orderly (st : State) : Prop where
  scope : InScope st.statements
  bound : ∀ {k name}, findValue? k st.hoisted = some name → Bound st.statements name

/-- If the step succeeds, these nodes were described in the course of it. -/
def Traces {α : Type} (g : Graph) (st : State) (met : List NodeId) (x : Describe α)
    (post : State → α → Prop) : Prop :=
  Orderly st → ∀ a st', x st = (.ok a, st') → ∃ es, Trace g st met es st' ∧ Orderly st' ∧ post st' a

variable {α β : Type} {x : Describe α} {f : α → Describe β} {post : State → α → Prop}
  {post' : State → β → Prop} {es : List Event} {e : Expr}

theorem Trace.covers (h : Trace g st met es st') (he : Covers st.statements e) : Covers st'.statements e := by
  rw [h.statements]
  exact he.append _

theorem covers_all {args : List Expr} (h : ∀ e ∈ args, Covers st.statements e) :
    ∀ name ∈ Expr.readsAll args, Bound st.statements name := by
  intro name hname
  obtain ⟨e, he, hread⟩ := Expr.mem_readsAll.1 hname
  exact h e he name hread

theorem covers_of_reads (h : e.reads = []) : Covers st.statements e := by
  intro name hname
  rw [h] at hname
  exact absurd hname List.not_mem_nil

theorem covers_hoistedUse {name : String} (hbound : Bound st.statements name) :
    Covers st.statements (hoistedUse name) := by
  intro other hother
  simp only [hoistedUse, Expr.invoke, Expr.reads, Expr.readsAll, List.append_nil, List.mem_singleton] at hother
  exact hother ▸ hbound

namespace Traces

theorem pure {a : α} (hpost : Orderly st → post st a) : Traces g st [] (pure a) post := by
  intro horder b st' hrun
  cases hrun
  exact ⟨[], .refl g st, horder, hpost horder⟩

theorem fail {error : GenerateError} : Traces g st met (throw error : Describe α) post := by
  intro _ a st' hrun
  cases hrun

theorem bind (hx : Traces g st met x post)
    (hf : ∀ a es st', Trace g st met es st' → post st' a → Traces g st' met' (f a) post') :
    Traces g st (met ++ met') (x >>= f) post' := by
  intro horder b st'' hrun
  obtain ⟨a, st', hxs, hfs⟩ := Effect.bind_ok.1 hrun
  obtain ⟨es, htrace, horder', hpost⟩ := hx horder a st' hxs
  obtain ⟨es', htrace', horder'', hpost'⟩ := hf a es st' htrace hpost horder' b st'' hfs
  exact ⟨es ++ es', htrace.trans htrace', horder'', hpost'⟩

/-- The second step meets no nodes. -/
theorem before (hx : Traces g st met x post)
    (hf : ∀ a es st', Trace g st met es st' → post st' a → Traces g st' [] (f a) post') :
    Traces g st met (x >>= f) post' := by
  have hboth := hx.bind hf
  rwa [List.append_nil] at hboth

theorem look {a : α} (hx : x st = (.ok a, st)) (hf : Traces g st met (f a) post') :
    Traces g st met (x >>= f) post' := by
  intro horder b st' hrun
  rw [Effect.bind_of_ok hx] at hrun
  exact hf horder b st' hrun

theorem node {f : Node → Describe β} (hf : ∀ n, g.get? id = some n → Traces g st met (f n) post') :
    Traces g st met (node (context types g) id >>= f) post' := by
  cases hn : g.get? id with
  | none =>
    have hmissing : Verification.node (context types g) id = throw (.graph (.missingValue id)) := by
      simp only [Verification.node, Graph.node, hn]
    rw [hmissing]
    intro _ b st' hrun
    cases hrun
  | some n => exact .look (node_apply hn) (hf n hn)

theorem widen (h : Traces g st met x post) (hcount : ∀ k, met.count k ≤ met'.count k)
    (hmet : ∀ k ∈ met', IsComposite g k → k ∈ met) : Traces g st met' x post := by
  intro horder a st' hrun
  obtain ⟨es, htrace, hrest⟩ := h horder a st' hrun
  exact ⟨es, htrace.widen hcount hmet, hrest⟩

theorem mapM {f : α → Describe Expr} {parts : α → List NodeId} (items : List α)
    (hf : ∀ item ∈ items, ∀ st, Traces g st (parts item) (f item) (Covers ·.statements)) :
    Traces g st (items.flatMap parts) (items.mapM f) fun st' es => ∀ e ∈ es, Covers st'.statements e := by
  induction items generalizing st with
  | nil => exact pure fun _ => by simp
  | cons item items ih =>
    rw [List.mapM_cons, List.flatMap_cons]
    refine (hf item List.mem_cons_self st).bind fun e _ st' _ he => ?_
    refine (ih fun a ha => hf a (List.mem_cons_of_mem _ ha)).before fun es _ st'' htrace hes => ?_
    exact pure fun _ => List.forall_mem_cons.2 ⟨htrace.covers he, hes⟩

theorem addFunctionImport (path : String) :
    Traces g st [] (addFunctionImport path) fun _ _ => True := by
  intro horder a st' hrun
  cases hrun
  exact ⟨[], .idle rfl rfl rfl rfl rfl fun _ hk => absurd hk List.not_mem_nil, ⟨horder.scope, horder.bound⟩, trivial⟩

theorem matcherCall {name : String} {typeArgs : List Ty} {args : List Expr}
    (hargs : ∀ e ∈ args, Covers st.statements e) :
    Traces g st [] (matcherCall name typeArgs args) (Covers ·.statements) := by
  refine (addFunctionImport _).before fun _ _ st' htrace _ => pure fun _ => ?_
  exact covers_all fun e he => htrace.covers (hargs e he)

end Traces

/-! ### Descriptions -/

section

variable {describe : NodeId → Describe Expr}
  (hdescribe : ∀ part st, Traces g st [part] (describe part) (Covers ·.statements))
  {declared runtime : Ty}
include hdescribe

theorem elements_trace (function : String) (elements : List NodeId) :
    Traces g st elements (describeElements describe function elements) (Covers ·.statements) := by
  have hparts : Traces g st (elements.flatMap ([·])) (elements.mapM describe)
      fun st' es => ∀ e ∈ es, Covers st'.statements e :=
    .mapM elements fun part _ => hdescribe part
  rw [List.flatMap_singleton'] at hparts
  refine hparts.before fun es _ st' _ hes => .matcherCall fun e he => ?_
  rw [List.mem_singleton.1 he]
  exact covers_all hes

theorem entries_trace (entries : List (NodeId × NodeId)) :
    Traces g st (Content.map entries).children (describeEntries describe entries) (Covers ·.statements) := by
  refine (Traces.mapM entries fun ⟨k, v⟩ _ st => ?_).before fun es _ st' _ hes => .matcherCall fun e he => ?_
  · change Traces g st ([k] ++ [v]) _ _
    refine (hdescribe k st).bind fun ke _ st₁ _ hk => ?_
    refine (hdescribe v st₁).before fun ve _ st₂ htrace hv => .matcherCall ?_
    simpa using ⟨htrace.covers hk, hv⟩
  · rw [List.mem_singleton.1 he]
    exact covers_all hes

omit hdescribe in
theorem literalOf_trace (id : NodeId) :
    Traces g st [id] (literalOf (context types g) id) (Covers ·.statements) := by
  refine .node fun n hn => ?_
  match n with
  | .atom (.literal type l) =>
    refine (Traces.pure fun _ => covers_of_reads rfl).widen (by simp) ?_
    rintro k hk ⟨_, _, _, hcomposite⟩
    rw [List.mem_singleton.1 hk] at hcomposite
    cases hn.symm.trans hcomposite
  | .atom (.null _) | .constant .. | .composite .. => exact .fail

omit hdescribe in
theorem primitives_trace (component : Ty) (elements : List NodeId) :
    Traces g st elements (describePrimitives (context types g) component elements) (Covers ·.statements) := by
  have hparts : Traces g st (elements.flatMap ([·])) (elements.mapM (literalOf (context types g)))
      fun st' es => ∀ e ∈ es, Covers st'.statements e :=
    .mapM elements fun part _ _ => literalOf_trace part
  rw [List.flatMap_singleton'] at hparts
  refine hparts.before fun es _ st' _ hes => .matcherCall fun e he => ?_
  rw [List.mem_singleton.1 he]
  exact covers_all hes

theorem field_trace (id : NodeId) :
    Traces g st [id] (describeField (context types g) describe id) (Covers ·.statements) := by
  refine .node fun n hn => ?_
  match n with
  | .atom (.literal type l) =>
    refine (Traces.pure fun _ => covers_of_reads rfl).widen (by simp) ?_
    rintro k hk ⟨_, _, _, hcomposite⟩
    rw [List.mem_singleton.1 hk] at hcomposite
    cases hn.symm.trans hcomposite
  | .atom (.null _) | .constant .. | .composite .. => exact hdescribe id st

theorem fieldList_trace (fields : List NodeField) {matcher : Expr} (hmatcher : Covers st.statements matcher) :
    Traces g st (fields.map NodeField.value) (describeFieldList (context types g) describe matcher fields)
      (Covers ·.statements) := by
  induction fields generalizing matcher st with
  | nil => exact .pure fun _ => hmatcher
  | cons f rest ih =>
    change Traces g st ([f.value] ++ rest.map NodeField.value) _ _
    refine (field_trace hdescribe f.value).bind fun expected _ st' htrace hexpected => ih ?_
    intro name hname
    simp only [Expr.invoke, Expr.reads, Expr.readsAll, List.nil_append, List.append_nil, List.mem_append] at hname
    exact hname.elim (htrace.covers hmatcher name) (hexpected name)

theorem fields_trace (n : Node) (fields : List NodeField) :
    Traces g st (fields.map NodeField.value) (describeFields (context types g) describe n fields)
      (Covers ·.statements) := by
  rw [← List.nil_append (fields.map NodeField.value)]
  refine (Traces.addFunctionImport _).bind fun _ _ _ _ _ => ?_
  refine (fieldList_trace hdescribe fields (covers_of_reads rfl)).before fun matcher _ _ _ hmatcher => ?_
  have hcall : ∀ method type, Covers _ (.call matcher method [type] []) := fun method type name hname =>
    hmatcher name (by simpa [Expr.reads, Expr.readsAll] using hname)
  dsimp only
  split
  · exact .pure fun _ => hcall _ _
  · exact .pure fun _ => hcall _ _

theorem dispatch_trace (n : Node) :
    Traces g st n.children (dispatch (context types g) describe id n) (Covers ·.statements) := by
  match n with
  | .atom (.literal _ _) | .constant .. => exact .matcherCall (List.forall_mem_singleton.2 (covers_of_reads rfl))
  | .atom (.null _) => exact .matcherCall fun _ he => absurd he List.not_mem_nil
  | .composite declared runtime (.array elements) =>
    rw [dispatch_array rfl]
    split
    · exact primitives_trace _ elements
    · exact elements_trace hdescribe _ elements
  | .composite _ _ (.list elements) | .composite _ _ (.set elements) => exact elements_trace hdescribe _ elements
  | .composite _ _ (.map entries) => exact entries_trace hdescribe entries
  | .composite _ _ (.object fields) => exact fields_trace hdescribe _ fields

end

theorem Orderly.mark (h : Orderly st) (id : NodeId) (active : List NodeId) :
    Orderly { st with statements := st.statements ++ [.comment (toString id)], active } where
  scope := h.scope.concat fun _ hname => absurd hname List.not_mem_nil
  bound hname := (h.bound hname).append _

theorem Orderly.hoisting (h : Orderly st) {n : Node} {matcher : Expr}
    (hmatcher : Covers st.statements matcher) : Orderly (st.hoisting id n matcher) where
  scope := h.scope.concat hmatcher
  bound {k name} hname := by
    change findValue? k (putEntry id (matcherName st.scope.names n) st.hoisted) = some name at hname
    rw [findValue?_putEntry] at hname
    split at hname
    · cases hname
      exact ⟨matcherType, matcher, List.mem_append_right _ (List.mem_singleton_self _)⟩
    · exact (h.bound hname).append _

theorem within_ok {d : Describe Expr} (hrun : within id d st = (.ok e, st')) :
    ∃ inner, d { st with active := id :: st.active } = (.ok e, inner) ∧
      st' = { inner with active := inner.active.erase id } := by
  unfold within at hrun
  cases hd : d { st with active := id :: st.active } with
  | mk r inner =>
    rw [hd] at hrun
    cases hrun
    exact ⟨inner, rfl, rfl⟩

section

variable {describe : NodeId → Describe Expr}
  (hdescribe : ∀ part st, Traces g st [part] (describe part) (Covers ·.statements))
include hdescribe

/-- A node that is not known is handed to an adaptor, and its matcher to a local if it is shared. -/
theorem visit_trace {n : Node} (hn : g.get? id = some n) (hnew : id ∉ st.active)
    (hhoisted : findValue? id st.hoisted = none) :
    Traces g st [id] (do
      let matcher ← within id do
        mark id
        dispatch (context types g) describe id n
      hoist id n matcher) (Covers ·.statements) := by
  intro horder e st' hrun
  obtain ⟨matcher, left, hwithin, hhoist⟩ := Effect.bind_ok.1 hrun
  obtain ⟨inner, hinner, hleft⟩ := within_ok hwithin
  obtain ⟨_, _, hmark, hdispatch⟩ := Effect.bind_ok.1 hinner
  cases hmark
  obtain ⟨es, htrace, horder', hmatcher⟩ :=
    dispatch_trace hdescribe n (horder.mark id (id :: st.active)) matcher inner hdispatch
  have hchildren : n.children = g.children id := by simp [Graph.children, hn]
  rw [hchildren] at htrace
  have hactive : inner.active.erase id = st.active := by rw [htrace.active, List.erase_cons_head]
  have hshared : left.shared = st.shared := hleft ▸ htrace.shared
  have horderLeft : Orderly left := hleft ▸ ⟨horder'.scope, horder'.bound⟩
  have hmatcherLeft : Covers left.statements matcher := hleft ▸ hmatcher
  by_cases hid : id ∈ st.shared
  · rw [hoist_shared (hshared ▸ hid)] at hhoist
    subst hleft
    cases hhoist
    -- the node is new, so that nothing is hoisted under it yet and its entry goes to the end
    have hself : id ∉ visits es := fun hmem => (htrace.fresh id hmem).1 List.mem_cons_self
    have hkeys : id ∉ inner.hoisted.map (·.1) := by
      rw [htrace.hoisted, List.map_append, List.mem_append, htrace.mem_hoists]
      exact not_or.2 ⟨findValue?_eq_none.1 hhoisted, fun hmem => hself hmem.1⟩
    have hstem := unnumbered_matcher n.runtime.erasure.localStem
    refine ⟨_, .close [.hoist id (matcherName inner.scope.names n) matcher] hnew hhoisted htrace rfl
      (if_pos hid).symm ?_ (List.nodup_singleton _) LocalNames.Ahead.of_fresh rfl hactive rfl
      (putEntry_of_notMem hkeys), .hoisting horderLeft hmatcherLeft, ?_⟩
    · intro entry hentry
      rw [List.mem_singleton.1 hentry]
      exact ⟨LocalNames.ahead_fresh hstem, LocalNames.not_ahead_fresh hstem⟩
    · exact covers_hoistedUse ⟨matcherType, matcher, List.mem_append_right _ (List.mem_singleton_self _)⟩
  · rw [hoist_unshared (hshared ▸ hid)] at hhoist
    subst hleft
    cases hhoist
    have hnone : ∀ entry ∈ hoists [], inner.scope.names.Ahead entry.2 ∧ ¬ inner.scope.names.Ahead entry.2 :=
      fun _ hentry => absurd hentry List.not_mem_nil
    exact ⟨_, .close [] hnew hhoisted htrace rfl (if_neg hid).symm hnone .nil (fun hname => hname)
      (List.append_nil _).symm hactive rfl (List.append_nil _).symm, horderLeft, hmatcherLeft⟩

/-- What is done for a node: it may be known, it may be one of those being described, or it is new. -/
theorem step_trace (id : NodeId) (st : State) :
    Traces g st [id] (step (context types g) mark describe id) (Covers ·.statements) := by
  unfold step
  refine .look (Effect.get_apply st) ?_
  have hidle : (id ∈ st.active ∨ ∃ name, findValue? id st.hoisted = some name) →
      ∀ k ∈ [id], IsComposite g k → k ∈ st.active ∨ ∃ name, findValue? k st.hoisted = some name := by
    intro hknown k hk _
    rwa [List.mem_singleton.1 hk]
  cases hhoisted : findValue? id st.hoisted with
  | some name =>
    intro horder e st' hrun
    cases hrun
    exact ⟨[], .idle rfl rfl rfl rfl rfl (hidle (.inr ⟨name, hhoisted⟩)), horder,
      covers_hoistedUse (horder.bound hhoisted)⟩
  | none =>
    refine .node fun n hn => ?_
    split
    · next hactive =>
      intro horder e st' hrun
      cases hrun
      exact ⟨[], .idle rfl rfl rfl rfl rfl (hidle (.inl hactive)), ⟨horder.scope, horder.bound⟩,
        covers_of_reads rfl⟩
    · next hnew => exact visit_trace hdescribe hn hnew hhoisted

end

/-! ### Whole descriptions -/

theorem markedMatcher_trace (root : NodeId) (st : State) :
    Traces g st [root] (markedMatcher (context types g) root) (Covers ·.statements) := by
  unfold markedMatcher
  generalize (context types g).graph.size + 1 = depth
  induction depth generalizing root st with
  | zero => exact .fail
  | succ depth ih =>
    rw [Function.iterate_succ_apply']
    exact step_trace ih root st

theorem isComposite_of_child {k : NodeId} (hk : k ∈ g.children id) : IsComposite g id := by
  unfold Graph.children at hk
  split at hk
  · next n hn =>
    cases n with
    | atom => cases hk
    | constant => cases hk
    | composite declared runtime content => exact ⟨declared, runtime, content, hn⟩
  · cases hk

theorem mem_sharedBelow {root k : NodeId} : k ∈ sharedBelow (context types g) root ↔
    Leads g.children root k ∧ IsComposite g k ∧ 1 < g.referenceCount root k := by
  have hcomposite : (g.get? k).any Node.isReference = true ↔ IsComposite g k := by
    unfold IsComposite
    cases g.get? k with
    | none => simp
    | some n => cases n <;> simp [Node.isReference]
  simp only [sharedBelow, Graph.referenceCounts, List.mem_map, List.mem_filter, Bool.and_eq_true, decide_eq_true_eq]
  constructor
  · rintro ⟨_, ⟨⟨k', hk', rfl⟩, hcount, hany⟩, rfl⟩
    exact ⟨Graph.mem_reachable.1 hk', hcomposite.1 hany, hcount⟩
  · rintro ⟨hlead, hk, hcount⟩
    exact ⟨(k, _), ⟨⟨k, Graph.mem_reachable.2 hlead, rfl⟩, hcount, hcomposite.2 hk⟩, rfl⟩

/-- What is mentioned at one place only is met as often as this place. -/
theorem count_flatMap_le {ν μ : Type} [DecidableEq ν] [DecidableEq μ] {parts : ν → List μ} {all some : List ν}
    {p : ν} {k : μ} (hall : (all.flatMap parts).count k ≤ 1) (hp : p ∈ all) (hk : k ∈ parts p)
    (hsub : ∀ q ∈ some, q ∈ all) : (some.flatMap parts).count k ≤ some.count p := by
  have hone : ∀ q ∈ all, (parts q).count k ≤ if q = p then 1 else 0 := by
    obtain ⟨front, back, rfl⟩ := List.append_of_mem hp
    rw [List.flatMap_append, List.flatMap_cons, List.count_append, List.count_append] at hall
    have hpos := List.count_pos_iff.2 hk
    have hfront : k ∉ front.flatMap parts := List.count_eq_zero.1 (by omega)
    have hback : k ∉ back.flatMap parts := List.count_eq_zero.1 (by omega)
    intro q hq
    by_cases heq : q = p
    · rw [if_pos heq, heq]
      omega
    · rw [if_neg heq, Nat.le_zero, List.count_eq_zero]
      intro hmem
      rcases List.mem_append.1 hq with hq | hq
      · exact hfront (List.mem_flatMap.2 ⟨q, hq, hmem⟩)
      · exact hback (List.mem_flatMap.2 ⟨q, (List.mem_cons.1 hq).resolve_left heq, hmem⟩)
  induction some with
  | nil => exact Nat.le_refl 0
  | cons q rest ih =>
    obtain ⟨hq, hrest⟩ := List.forall_mem_cons.1 hsub
    have hle := ih hrest
    have hfirst := hone q hq
    simp only [List.flatMap_cons, List.count_append, List.count_cons, beq_iff_eq]
    omega

section

variable {es : List Event} {root : NodeId} (htrace : Trace g st [root] es st') (hactive : st.active = [])
  (hhoisted : st.hoisted = [])
include htrace hactive hhoisted

/-- Nothing behind the root is passed over. -/
theorem visited_of_leads {k : NodeId} (hlead : Leads g.children root k) (hk : IsComposite g k) : k ∈ visits es := by
  have hcovered : ∀ k ∈ [root] ++ (visits es).flatMap g.children, IsComposite g k → k ∈ visits es := by
    intro k hmem hk
    rcases htrace.covered k hmem hk with hvisit | hmem | ⟨name, hname⟩
    · exact hvisit
    · rw [hactive] at hmem
      exact absurd hmem List.not_mem_nil
    · rw [hhoisted] at hname
      cases hname
  induction hlead with
  | refl => exact hcovered root (by simp) hk
  | @tail p k _ hstep ih =>
    refine hcovered k (List.mem_append_right _ (List.mem_flatMap.2 ⟨p, ?_, hstep⟩)) hk
    exact ih (isComposite_of_child hstep)

omit hactive hhoisted in
/-- What is not shared is visited for its one mention, which belongs to a node that is visited once itself. -/
theorem count_visits_le (hshared : ∀ k, Leads g.children root k → IsComposite g k → 1 < g.referenceCount root k →
    k ∈ st.shared) {k : NodeId} (hlead : Leads g.children root k) (hk : IsComposite g k) :
    (visits es).count k ≤ 1 := by
  have hreach : ∀ q ∈ visits es, q ∈ g.reachable root := by
    intro q hq
    obtain ⟨m, hm, hlead⟩ := htrace.below q hq
    rw [List.mem_singleton.1 hm] at hlead
    exact Graph.mem_reachable.2 hlead
  induction hlead with
  | refl =>
    by_cases hcount : 1 < g.referenceCount root root
    · exact htrace.once root (hshared root .refl hk hcount)
    · unfold Graph.referenceCount at hcount
      rw [if_pos rfl] at hcount
      have hnot : root ∉ (g.reachable root).flatMap g.children := List.count_eq_zero.1 (by omega)
      have hnone : ((visits es).flatMap g.children).count root = 0 := by
        rw [List.count_eq_zero, List.mem_flatMap]
        rintro ⟨q, hq, hmem⟩
        exact hnot (List.mem_flatMap.2 ⟨q, hreach q hq, hmem⟩)
      have hmentioned := htrace.mentioned root
      rw [List.count_append, hnone, List.count_singleton_self] at hmentioned
      exact hmentioned
  | @tail p k hp hstep ih =>
    by_cases hcount : 1 < g.referenceCount root k
    · exact htrace.once k (hshared k (hp.tail hstep) hk hcount)
    · unfold Graph.referenceCount at hcount
      have hpmem := Graph.mem_reachable.2 hp
      have hpos : 0 < ((g.reachable root).flatMap g.children).count k :=
        List.count_pos_iff.2 (List.mem_flatMap.2 ⟨p, hpmem, hstep⟩)
      have hroot : k ≠ root := by
        intro heq
        rw [if_pos heq] at hcount
        omega
      have hle : ((visits es).flatMap g.children).count k ≤ (visits es).count p :=
        count_flatMap_le (by omega) hpmem hstep hreach
      have hother : [root].count k = 0 := List.count_eq_zero.2 (by simpa using hroot)
      have hmentioned := htrace.mentioned k
      rw [List.count_append, hother, Nat.zero_add] at hmentioned
      exact (hmentioned.trans hle).trans (ih (isComposite_of_child hstep))

end

/-- The state of a new generator that is about to describe a root. -/
def State.startAt (c : Context) (root : NodeId) (scope : Scope) : State :=
  { State.start scope with shared := sharedBelow c root }

theorem describeRoot_start (c : Context) (root : NodeId) (scope : Scope) :
    describeRoot c root (.start scope) = matcher c root (.startAt c root scope) := rfl

/-- The statement binds the matcher of the node to the local. -/
def Binding (entry : NodeId × String) (s : Stmt) : Prop := ∃ matcher, s = .bind entry.2 matcherType matcher

theorem bindings_of_events (es : List Event) :
    List.Forall₂ Binding (hoists es) ((es.map Event.code).filter (!·.isComment)) := by
  induction es with
  | nil => exact .nil
  | cons event es ih =>
    cases event with
    | visit id => exact ih
    | hoist id name matcher => exact .cons ⟨matcher, rfl⟩ ih

/-- Without the marks every local is still read after it was bound. -/
theorem inScope_unmarked {stmts : List Stmt} (h : InScope stmts) : InScope (stmts.filter (!·.isComment)) := by
  intro before s after heq name hname
  obtain ⟨front, rest, rfl, rfl, hrest⟩ := List.filter_eq_append_iff.1 heq
  obtain ⟨skipped, back, rfl, hskipped, -, -⟩ := List.filter_eq_cons_iff.1 hrest
  obtain ⟨type, value, hmem⟩ := h (front ++ skipped) s back (by simp) name hname
  rcases List.mem_append.1 hmem with hmem | hmem
  · exact ⟨type, value, List.mem_filter.2 ⟨hmem, rfl⟩⟩
  · exact absurd rfl (hskipped _ hmem)

/-- A description of a root comes to an end by itself, whatever is done where the bounded recursion breaks
off. If it succeeds, then the same description with marks shows that every composite behind the root is
handed to an adaptor once. The statements bind one local for each composite that is mentioned more than
once, and nothing else, and each local is read only after it was bound. -/
theorem composites_described_once (types : ClassTable) (g : Graph) (root : NodeId) (scope : Scope) :
    (∀ bottom depth, g.size < depth →
      (step (context types g) unnoticed)^[depth] bottom root (.startAt (context types g) root scope) =
        describeRoot (context types g) root (.start scope)) ∧
    ∀ e st, describeRoot (context types g) root (.start scope) = (.ok e, st) →
      ∃ es marked, markedMatcher (context types g) root (.startAt (context types g) root scope) = (.ok e, marked) ∧
        marked.statements = es.map Event.code ∧ st = marked.keeping (!·.isComment) ∧
        (∀ k, Leads g.children root k → IsComposite g k → (visits es).count k = 1) ∧
        (∀ k, k ∈ st.hoisted.map (·.1) ↔
          Leads g.children root k ∧ IsComposite g k ∧ 1 < g.referenceCount root k) ∧
        (st.hoisted.map (·.1)).Nodup ∧ (st.hoisted.map (·.2)).Nodup ∧
        List.Forall₂ Binding st.hoisted st.statements ∧
        InScope st.statements ∧ ∀ name ∈ e.reads, Bound st.statements name := by
  rw [describeRoot_start]
  refine ⟨fun bottom depth hdepth => (matcher_eq_iterate bottom hdepth rfl).symm, fun e st hrun => ?_⟩
  obtain ⟨marked, hmarked, rfl⟩ := exists_marked rfl rfl hrun
  have horder : Orderly (.startAt (context types g) root scope) := by
    refine ⟨fun before _ _ heq => ?_, fun hname => ?_⟩
    · simp [State.startAt, State.start] at heq
    · cases hname
  obtain ⟨es, htrace, horder', hcovers⟩ := markedMatcher_trace root _ horder e marked hmarked
  have hstatements : marked.statements = es.map Event.code := htrace.statements
  have hhoisted : marked.hoisted = hoists es := htrace.hoisted
  have hvisited {k : NodeId} (hlead : Leads g.children root k) (hk : IsComposite g k) : k ∈ visits es :=
    visited_of_leads htrace rfl rfl hlead hk
  refine ⟨es, marked, hmarked, hstatements, rfl, fun k hlead hk => ?_, fun k => ?_, hhoisted ▸ htrace.nodup,
    hhoisted ▸ htrace.names, ?_, inScope_unmarked horder'.scope, fun name hname => ?_⟩
  · refine Nat.le_antisymm ?_ (List.count_pos_iff.2 (hvisited hlead hk))
    exact count_visits_le htrace (fun k hlead hk hcount => mem_sharedBelow.2 ⟨hlead, hk, hcount⟩) hlead hk
  · change k ∈ marked.hoisted.map (·.1) ↔ _
    rw [hhoisted, htrace.mem_hoists]
    exact ⟨fun hk => mem_sharedBelow.1 hk.2, fun hk => ⟨hvisited hk.1 hk.2.1, mem_sharedBelow.2 hk⟩⟩
  · change List.Forall₂ Binding marked.hoisted (marked.statements.filter _)
    rw [hhoisted, hstatements]
    exact bindings_of_events es
  · obtain ⟨type, value, hmem⟩ := hcovers name hname
    exact ⟨type, value, List.mem_filter.2 ⟨hmem, rfl⟩⟩

/-- A list that holds itself and, twice, a set that holds the list and a text. -/
def sharedLoop : Graph := ⟨#[.composite .object (.ofClass "ArrayList") (.list [0, 1, 1]),
  .composite .object (.ofClass "HashSet") (.set [0, 2]), .atom (.literal .string (.str "x"))]⟩

theorem shared_loop_described_once :
    ∃ e st, describeRoot (context .builtin sharedLoop) 0 (.start .empty) = (.ok e, st) ∧
      st.hoisted = [(1, "hash_set_matcher1"), (0, "array_list_matcher1")] ∧
      (∃ es marked, markedMatcher (context .builtin sharedLoop) 0 (.startAt (context .builtin sharedLoop) 0 .empty) =
          (.ok e, marked) ∧ marked.statements = es.map Event.code ∧
        (visits es).count 0 = 1 ∧ (visits es).count 1 = 1) ∧
      List.Forall₂ Binding st.hoisted st.statements ∧ InScope st.statements := by
  let described := describeRoot (context .builtin sharedLoop) 0 (.start .empty)
  obtain ⟨e, he⟩ := Option.isSome_iff_exists.1 (by decide +kernel : described.1.toOption.isSome = true)
  have hrun : described = (.ok e, described.2) := Effect.ok_of_toOption he
  obtain ⟨es, marked, hmarked, hstatements, -, honce, -, -, -, hbindings, hscope, -⟩ :=
    (composites_described_once .builtin sharedLoop 0 .empty).2 e described.2 hrun
  have hone : Leads sharedLoop.children 0 1 := .single (by decide +kernel)
  exact ⟨e, described.2, hrun, by decide +kernel,
    ⟨es, marked, hmarked, hstatements, honce 0 .refl ⟨_, _, _, rfl⟩, honce 1 hone ⟨_, _, _, rfl⟩⟩, hbindings, hscope⟩

end Verification

end Reenact
