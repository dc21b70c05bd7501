import Reenact.Proofs.Acceptance
import Reenact.Proofs.Following

/-!
The code that describes captured values. Run after what was emitted before it, an expression that
describes a node makes a matcher that tells of the node, if what matchers tell of nodes is read part by
part. One such reading is that the matcher accepts whatever shows the node.
-/

namespace Reenact.Verification

open Matcher (Mirrored Accepts Below Expects)

/-- The standard adaptors in the order in which they are asked. -/
def standard : MatcherRegistry where
  chain := ⟨[⟨"literal", none, ⟨.kind .literal, .literal⟩⟩,
    ⟨"null", none, ⟨.kind .null, .null⟩⟩,
    ⟨"enum", none, ⟨.kind .enum, .constant⟩⟩,
    ⟨"primitive-array", some "array", ⟨.primitiveArray, .primitiveArray⟩⟩,
    ⟨"array", none, ⟨.kind .array, .array⟩⟩,
    ⟨"list", none, ⟨.kind .list, .list⟩⟩,
    ⟨"set", none, ⟨.kind .set, .set⟩⟩,
    ⟨"map", none, ⟨.kind .map, .map⟩⟩]⟩
  fallback := true

theorem build_standard : Registry.build [] standardMatcherAdaptors true = .ok standard := by
  rfl

variable (types : ClassTable) (g : Graph) in
/-- The state of a generator that describes a graph by the standard adaptors. -/
abbrev context : Context := ⟨g, types, standard⟩

variable {c : Evaluate.Context} {types : ClassTable} {g : Graph} {nodes : NodeId → Prop}
  {tells : Matcher → NodeId → Prop} {st st' : State} {m m' : Machine} {id : NodeId}

/-- The matcher of the fields of a plain object. Only the public supertype of a hidden class can be
asserted. -/
def fieldMatcher (types : ClassTable) (runtime : Ty) (es : List (String × (Value ⊕ Matcher))) : Matcher :=
  if runtime.className?.map types.isHidden = some true then .fieldwise false (types.publicSupertype runtime) es
  else .fieldwise true runtime.erasure es

/-- A way to read what matchers tell of nodes, part by part: the matcher that is built for a node from
matchers that tell of its parts tells of the node. -/
structure Reading (types : ClassTable) (g : Graph) (nodes : NodeId → Prop)
    (tells : Matcher → NodeId → Prop) : Prop where
  part : ∀ {id part}, nodes id → part ∈ g.children id → nodes part
  literal : ∀ {id type l}, nodes id → g.get? id = some (.atom (.literal type l)) →
    tells (.equalTo (.scalar l)) id
  null : ∀ {id type}, nodes id → g.get? id = some (.atom (.null type)) → tells .nullValue id
  constant : ∀ {id declared runtime name}, nodes id → g.get? id = some (.constant declared runtime name) →
    tells (.equalTo (.constant runtime.erasure.erasure.text name)) id
  array : ∀ {id declared runtime elements ps}, nodes id →
    g.get? id = some (.composite declared runtime (.array elements)) →
    ¬ (Node.composite declared runtime (.array elements)).componentType.isPrimitive →
    List.Forall₂ tells ps elements → tells (.arrayOf ps) id
  primitives : ∀ {id declared runtime elements kind ls}, nodes id →
    g.get? id = some (.composite declared runtime (.array elements)) →
    (Node.composite declared runtime (.array elements)).componentType = .primitive kind →
    List.Forall₂ (fun l e => ∃ type, g.get? e = some (.atom (.literal type l))) ls elements →
    tells (.primitives kind ls) id
  list : ∀ {id declared runtime elements ps}, nodes id →
    g.get? id = some (.composite declared runtime (.list elements)) →
    List.Forall₂ tells ps elements → tells (.inOrder ps) id
  set : ∀ {id declared runtime elements ps}, nodes id →
    g.get? id = some (.composite declared runtime (.set elements)) →
    List.Forall₂ tells ps elements → tells (.anyOrder ps) id
  map : ∀ {id declared runtime entries ps}, nodes id →
    g.get? id = some (.composite declared runtime (.map entries)) →
    List.Forall₂ (fun (p : Matcher × Matcher) e => tells p.1 e.1 ∧ tells p.2 e.2) ps entries →
    tells (.mapOf ps) id
  object : ∀ {id declared runtime fields es}, nodes id →
    g.get? id = some (.composite declared runtime (.object fields)) →
    List.Forall₂ (Expects g tells) es fields → tells (fieldMatcher types runtime es) id
  /-- Below a node, the node itself is only described by its class. -/
  again : ∀ {id declared runtime content}, nodes id →
    g.get? id = some (.composite declared runtime content) → Below g id id →
    tells (.instanceOf (types.publicSupertype runtime)) id

/-- The code makes a matcher that tells of the node. -/
def Writes (c : Evaluate.Context) (tells : Matcher → NodeId → Prop) (m : Machine) (e : Expr) (id : NodeId) :
    Prop :=
  Evaluate.Makes c m e (Evaluate.IsMatcher tells id)

theorem node_apply {types : ClassTable} {n : Node} (hn : g.get? id = some n) :
    node (context types g) id st = (.ok n, st) := by
  simp only [node, Graph.node, hn]
  rfl

theorem node_leaves {α : Type} {inv : State → Machine → Prop} {f : Node → Describe α}
    {post : Machine → α → Prop} (hf : ∀ n, g.get? id = some n → Leaves c inv st m (f n) post) :
    Leaves c inv st m (node (context types g) id >>= f) post := by
  cases hn : g.get? id with
  | none =>
    have hmissing : node (context types g) id = throw (.graph (.missingValue id)) := by
      simp only [node, Graph.node, hn]
    rw [hmissing]
    intro a st' hrun
    cases hrun
  | some n => exact .look (node_apply hn) (hf n hn)

/-! ### Plain values -/

private theorem writes_of_call {function : String} (hfunction : function ≠ "expect_throws")
    {typeArgs : List Ty} {p : Matcher}
    (hcall : ∀ m, Evaluate.callFunction c function typeArgs [] m = (.ok (.matcher p), m))
    (hp : tells p id) : Writes c tells m (.function none function typeArgs []) id := by
  refine Evaluate.makes_of_expr (v := .matcher p) (fun m' _ => ?_) ⟨p, rfl, hp⟩
  rw [Evaluate.expr_eq, Evaluate.exprWith, if_neg hfunction]
  exact hcall m'

private theorem writes_equal_to {e : Expr} {v : Value}
    (he : ∀ m' : Machine, Evaluate.expr c e m' = (.ok (.live v), m')) (hp : tells (.equalTo v) id) :
    Writes c tells m (.function none "equal_to" [] [e]) id := by
  have hvalue : Evaluate.Makes c m e (· = .live v) :=
    Evaluate.makes_of_expr (fun m' _ => he m') rfl
  refine Evaluate.makes_function (by decide)
    (.cons hvalue .nil : List.Forall₂ (fun e w => Evaluate.Makes c m e (· = .live w)) [e] [v])
    fun vs m' hvs => ?_
  obtain ⟨_, _, rfl, hnil, rfl⟩ := List.forall₂_cons_right_iff.1 hvs
  cases hnil
  exact ⟨_, Evaluate.call_equal_to [] v m', _, rfl, hp⟩

/-- Nested descriptions are right, the node being below those that are being described. -/
def DescribesParts (c : Evaluate.Context) (g : Graph) (nodes : NodeId → Prop)
    (tells : Matcher → NodeId → Prop) (describe : NodeId → Describe Expr) : Prop :=
  ∀ {part st m}, Stocked tells st m → nodes part → (∀ k ∈ st.active, Below g k part) →
    Leaves c (Stocked tells) st m (describe part) fun m' e => Writes c tells m' e part

section

variable {describe : NodeId → Describe Expr} (hdescribe : DescribesParts c g nodes tells describe)
include hdescribe

/-! ### Collections -/

theorem elements_leave {function : String} {mk : List Matcher → Matcher}
    (hfunction : function ≠ "expect_throws")
    (hcall : ∀ ps m, Evaluate.callFunction c function [] [.seq (ps.map .matcher)] m =
      (.ok (.matcher (mk ps)), m))
    {elements : List NodeId} (hstocked : Stocked tells st m)
    (hparts : ∀ part ∈ elements, nodes part ∧ ∀ k ∈ st.active, Below g k part)
    (htells : ∀ {ps}, List.Forall₂ tells ps elements → tells (mk ps) id) :
    Leaves c (Stocked tells) st m (describeElements describe function elements) fun m' e =>
      Writes c tells m' e id := by
  refine (Leaves.mapM (fun m' e part => Writes c tells m' e part) elements hstocked
    (fun hm he => he.later hm) fun part hpart st' m' hstocked' hactive =>
      hdescribe hstocked' (hparts part hpart).1 (hactive ▸ (hparts part hpart).2)).bind ?_
  intro es st' m' hstocked' _ _ hes
  refine matcherCall_leaves hstocked' ((Evaluate.makes_collection hfunction hcall hes).imp ?_)
  rintro v ⟨ps, rfl, hps⟩
  exact ⟨mk ps, rfl, htells hps⟩

theorem entries_leave {entries : List (NodeId × NodeId)} (hstocked : Stocked tells st m)
    (hparts : ∀ e ∈ entries, ∀ part ∈ [e.1, e.2], nodes part ∧ ∀ k ∈ st.active, Below g k part)
    (htells : ∀ {ps}, List.Forall₂ (fun (p : Matcher × Matcher) e => tells p.1 e.1 ∧ tells p.2 e.2) ps entries →
      tells (.mapOf ps) id) :
    Leaves c (Stocked tells) st m (describeEntries describe entries) fun m' e => Writes c tells m' e id := by
  unfold describeEntries
  refine (Leaves.mapM (fun m' e (entry : NodeId × NodeId) =>
    Evaluate.Makes c m' e (Evaluate.IsEntry tells entry)) entries hstocked
    (fun hm he => he.later hm) ?_).bind ?_
  · rintro ⟨k, v⟩ hentry st₁ m₁ hstocked₁ hactive₁
    obtain ⟨hkey, hbelow⟩ := hparts _ hentry k (by simp)
    obtain ⟨hvalue, hbelow'⟩ := hparts _ hentry v (by simp)
    refine (hdescribe hstocked₁ hkey (hactive₁ ▸ hbelow)).bind ?_
    intro ke st₂ m₂ hstocked₂ _ hactive₂ hk
    refine (hdescribe hstocked₂ hvalue (hactive₂ ▸ hactive₁ ▸ hbelow')).bind ?_
    intro ve st₃ m₃ hstocked₃ hlater₃ _ hv
    exact matcherCall_leaves hstocked₃ (Evaluate.makes_entry (hk.later hlater₃) hv)
  · intro es st' m' hstocked' _ _ hes
    refine matcherCall_leaves hstocked' ((Evaluate.makes_contains_entries hes).imp ?_)
    rintro v ⟨ps, rfl, hps⟩
    exact ⟨.mapOf ps, rfl, htells hps⟩

end

theorem literalOf_leaves (hstocked : Stocked tells st m) :
    Leaves c (Stocked tells) st m (literalOf (context types g) id) fun _ e =>
      ∃ l : Literal, e = .literal l ∧ ∃ type, g.get? id = some (.atom (.literal type l)) := by
  refine node_leaves fun n hn => ?_
  match n with
  | .atom (.literal type l) => exact .pure hstocked ⟨l, rfl, type, hn⟩
  | .atom (.null _) | .constant .. | .composite .. => exact .fail

theorem primitives_leave {elements : List NodeId} {kind : Primitive} (hstocked : Stocked tells st m)
    (htells : ∀ {ls}, List.Forall₂ (fun l e => ∃ type, g.get? e = some (.atom (.literal type l))) ls elements →
      tells (.primitives kind ls) id) :
    Leaves c (Stocked tells) st m (describePrimitives (context types g) (.primitive kind) elements)
      fun m' e => Writes c tells m' e id := by
  refine (Leaves.mapM
    (fun _ e n => ∃ l : Literal, e = .literal l ∧ ∃ type, g.get? n = some (.atom (.literal type l)))
    elements hstocked (by intro _ _ _ _ _ he; exact he)
    fun part _ st' m' hstocked' _ => literalOf_leaves hstocked').bind ?_
  intro es st' m' hstocked' _ _ hes
  obtain ⟨ls, rfl, hls⟩ := forall₂_exists_map hes
  refine matcherCall_leaves hstocked' ((Evaluate.makes_primitives kind ls).imp ?_)
  rintro v rfl
  exact ⟨_, rfl, htells hls⟩

/-! ### Plain objects -/

section

variable {describe : NodeId → Describe Expr} (hdescribe : DescribesParts c g nodes tells describe)
  {declared runtime : Ty} {fields : List NodeField}
include hdescribe

theorem field_leaves {f : NodeField} (hstocked : Stocked tells st m) (hpart : nodes f.value)
    (hbelow : ∀ k ∈ st.active, Below g k f.value) :
    Leaves c (Stocked tells) st m (describeField (context c.types g) describe f.value) fun m' e =>
      Evaluate.Makes c m' e (Evaluate.IsExpectation (Expects g tells) f.name f) := by
  have hmatched : Leaves c (Stocked tells) st m (describe f.value) fun m' e =>
      Evaluate.Makes c m' e (Evaluate.IsExpectation (Expects g tells) f.name f) :=
    (hdescribe hstocked hpart hbelow).imp fun m' e he => he.imp fun v ⟨p, hv, hp⟩ =>
      .inr ⟨p, hv, rfl, hp⟩
  refine node_leaves fun n hn => ?_
  match n with
  | .atom (.literal type l) =>
    exact .pure hstocked (Evaluate.makes_literal l (.inl ⟨.scalar l, rfl, rfl, type, l, rfl, hn⟩))
  | .atom (.null _) | .constant .. | .composite .. => exact hmatched

theorem fieldList_leaves (hparts : ∀ f ∈ fields, nodes f.value ∧ ∀ k ∈ st.active, Below g k f.value)
    {matcher : Expr} {done : List NodeField} (hstocked : Stocked tells st m)
    (hmatcher : Evaluate.Makes c m matcher (Evaluate.IsBuilder (Expects g tells) done)) :
    Leaves c (Stocked tells) st m (describeFieldList (context c.types g) describe matcher fields)
      fun m' e => Evaluate.Makes c m' e (Evaluate.IsBuilder (Expects g tells) (done ++ fields)) := by
  induction fields generalizing matcher done st m with
  | nil => exact .pure hstocked (by rwa [List.append_nil])
  | cons f rest ih =>
    obtain ⟨hpart, hbelow⟩ := hparts f List.mem_cons_self
    refine (field_leaves hdescribe hstocked hpart hbelow).bind ?_
    intro expected st' m' hstocked' hlater hactive hexpected
    refine (ih (fun f' hf' => hactive ▸ hparts f' (List.mem_cons_of_mem _ hf')) hstocked'
      (Evaluate.makes_field (hmatcher.later hlater) hexpected)).imp ?_
    intro m'' e he
    rwa [List.append_assoc, List.singleton_append] at he

theorem fields_leave (hstocked : Stocked tells st m)
    (hparts : ∀ f ∈ fields, nodes f.value ∧ ∀ k ∈ st.active, Below g k f.value)
    (htells : ∀ {es}, List.Forall₂ (Expects g tells) es fields → tells (fieldMatcher c.types runtime es) id) :
    Leaves c (Stocked tells) st m
      (describeFields (context c.types g) describe (.composite declared runtime (.object fields)) fields)
      fun m' e => Writes c tells m' e id := by
  unfold describeFields
  refine (addFunctionImport_leaves _ hstocked).bind ?_
  rintro _ st' m' hstocked' _ hactive rfl
  refine (fieldList_leaves hdescribe (hactive ▸ hparts) hstocked' Evaluate.makes_generic_matcher).bind ?_
  intro matcher st'' m'' hstocked'' _ _ hmatcher
  have hwrites : ∀ {method type}, method = "matching" ∨ method = "matching_as" →
      (∀ es, fieldMatcher c.types runtime es = .fieldwise (method == "matching") type es) →
      Writes c tells m'' (.call matcher method [type] []) id := by
    intro method type hmethod htype
    refine (Evaluate.makes_matching hmethod type hmatcher).imp ?_
    rintro v ⟨es, rfl, hes⟩
    exact ⟨_, rfl, htype es ▸ htells hes⟩
  dsimp only
  split
  · next hhidden => exact .pure hstocked'' (hwrites (.inr rfl) fun _ => if_pos hhidden)
  · next hhidden => exact .pure hstocked'' (hwrites (.inl rfl) fun _ => if_neg hhidden)

end

/-! ### Nodes -/

/-- Arrays of primitives have an adaptor of their own. -/
theorem dispatch_array {types : ClassTable} {describe : NodeId → Describe Expr}
    {declared runtime component : Ty} {elements : List NodeId}
    (hcomponent : (Node.composite declared runtime (.array elements)).componentType = component) :
    dispatch (context types g) describe id (.composite declared runtime (.array elements)) =
      if component.isPrimitive then describePrimitives (context types g) component elements
      else describeElements describe "array_containing" elements := by
  by_cases hprimitive : component.isPrimitive
  · have hselect : standard.chain.select? (fun a =>
        a.behaviour.guard.accepts (.composite declared runtime (.array elements))) =
        some ⟨"primitive-array", some "array", ⟨.primitiveArray, .primitiveArray⟩⟩ := by
      simp [standard, Chain.select?, NodeGuard.accepts, Node.kind, Content.kind, hcomponent, hprimitive]
    unfold dispatch
    simp only [hselect, describeBy, hcomponent, if_pos hprimitive]
  · have hselect : standard.chain.select? (fun a =>
        a.behaviour.guard.accepts (.composite declared runtime (.array elements))) =
        some ⟨"array", none, ⟨.kind .array, .array⟩⟩ := by
      simp [standard, Chain.select?, NodeGuard.accepts, Node.kind, Content.kind, hcomponent, hprimitive]
    unfold dispatch
    simp only [hselect, describeBy, if_neg hprimitive]

theorem within_matcherCall {name : String} {typeArgs : List Ty} {args : List Expr} :
    within id (matcherCall name typeArgs args) = matcherCall name typeArgs args := by
  funext st
  change (_, { st with
    scope := st.scope.addFunction (matchersPath name), active := (id :: st.active).erase id }) = _
  rw [List.erase_cons_head]
  rfl

theorem unnumbered_matcher (stem : String) : Unnumbered (stem ++ "_matcher") := by
  simp [Unnumbered, String.toList_append, List.getLast?_append]

theorem hoist_leaves {n : Node} {e : Expr} (hstocked : Stocked tells st m) (he : Writes c tells m e id) :
    Leaves c (Stocked tells) st m (hoist id n e) fun m' e' => Writes c tells m' e' id := by
  unfold hoist
  refine .look (Effect.get_apply st) ?_
  split
  · intro e' st' hrun
    obtain ⟨_, m₁, hmakes, hlater, hlocals, p, rfl, hp⟩ := he m (.refl m)
    -- the new name is none of those in use, so binding it loses no matcher
    have hstem := unnumbered_matcher n.runtime.erasure.localStem
    have hname : st.scope.names.Ahead (st.scope.names.fresh _).2 := LocalNames.ahead_fresh hstem
    have hgiven : ¬ (st.scope.names.fresh _).1.Ahead (st.scope.names.fresh _).2 :=
      LocalNames.not_ahead_fresh hstem
    have hahead : ∀ {name}, (st.scope.names.fresh (n.runtime.erasure.localStem ++ "_matcher")).1.Ahead name →
        st.scope.names.Ahead name := LocalNames.Ahead.of_fresh
    generalize st.scope.names.fresh (n.runtime.erasure.localStem ++ "_matcher") = fresh
      at hrun hname hgiven hahead
    obtain ⟨names, name⟩ := fresh
    cases hrun
    have hframe : Frame c st m [.bind name matcherType e]
        { st with
          scope := { st.scope with names }
          hoisted := putEntry id name st.hoisted
          statements := st.statements ++ [.bind name matcherType e] }
        (m₁.bindLocal name (.matcher p)) :=
      .bind hmakes hlater hlocals (fun q => hstocked.free hname) ⟨hname, hgiven⟩ hahead rfl rfl
    refine ⟨_, _, hframe, ⟨?_, ?_⟩, ?_⟩
    · intro other q hother
      have hne : other ≠ name := fun heq => hgiven (heq ▸ hother)
      rw [Machine.findValue?_bindLocal, if_neg hne, hlocals]
      exact hstocked.free (hahead hother)
    · intro k other hother
      rw [findValue?_putEntry] at hother
      split at hother
      · next heq =>
        cases hother
        exact ⟨p, by rw [Machine.findValue?_bindLocal, if_pos rfl], heq ▸ hp⟩
      · obtain ⟨q, hq, htells⟩ := hstocked.hoisted hother
        exact ⟨q, hframe.later.keeps hq, htells⟩
    · refine Evaluate.makes_hoistedUse ?_ ⟨p, rfl, hp⟩
      rw [Machine.findValue?_bindLocal, if_pos rfl]
  · exact .pure hstocked he

section

variable (hreading : Reading c.types g nodes tells)
include hreading

theorem dispatch_leaves {describe : NodeId → Describe Expr} (hdescribe : DescribesParts c g nodes tells describe)
    {declared runtime : Ty} {content : Content} (hstocked : Stocked tells st m) (hid : nodes id)
    (hn : g.get? id = some (.composite declared runtime content))
    (hparts : ∀ part ∈ content.children, nodes part ∧ ∀ k ∈ st.active, Below g k part) :
    Leaves c (Stocked tells) st m
      (dispatch (context c.types g) describe id (.composite declared runtime content))
      fun m' e => Writes c tells m' e id := by
  cases content with
  | array elements =>
    rw [dispatch_array rfl]
    split
    · next hprimitive =>
      obtain ⟨kind, hkind⟩ : ∃ kind, (Node.composite declared runtime (.array elements)).componentType =
          .primitive kind := by
        generalize (Node.composite declared runtime (.array elements)).componentType = component at hprimitive
        cases component with
        | primitive kind => exact ⟨kind, rfl⟩
        | _ => cases hprimitive
      rw [hkind]
      exact primitives_leave hstocked (hreading.primitives hid hn hkind)
    · next hprimitive =>
      exact elements_leave hdescribe (by decide) (Evaluate.call_array_containing []) hstocked hparts
        (hreading.array hid hn hprimitive)
  | list elements =>
    exact elements_leave hdescribe (by decide) (Evaluate.call_contains_in_order []) hstocked hparts
      (hreading.list hid hn)
  | set elements =>
    exact elements_leave hdescribe (by decide) (Evaluate.call_contains_in_any_order []) hstocked hparts
      (hreading.set hid hn)
  | map entries =>
    exact entries_leave hdescribe hstocked
      (fun e he part hpart => hparts part (List.mem_flatMap.2 ⟨e, he, hpart⟩)) (hreading.map hid hn)
  | object fields =>
    exact fields_leave hdescribe hstocked (fun f hf => hparts _ (List.mem_map.2 ⟨f, hf, rfl⟩))
      (hreading.object hid hn)

theorem describeAt_leaves (depth : Nat) :
    DescribesParts c g nodes tells (describeAt (context c.types g) depth) := by
  induction depth with
  | zero => intro id st m _ _ _; exact .fail
  | succ depth ih =>
    intro id st m hstocked hid hbelow
    unfold describeAt
    refine .look (Effect.get_apply st) ?_
    cases hhoisted : findValue? id st.hoisted with
    | some name =>
      obtain ⟨p, hp, htells⟩ := hstocked.hoisted hhoisted
      exact .pure hstocked (Evaluate.makes_hoistedUse hp ⟨p, rfl, htells⟩)
    | none =>
      refine node_leaves fun n hn => ?_
      split
      · next hactive =>
        -- what is met again has parts, so it is a composite
        obtain ⟨part, hpart, _⟩ := hbelow id hactive
        rw [Graph.children, hn] at hpart
        cases n with
        | composite declared runtime content =>
          exact matcherCall_leaves hstocked (writes_of_call (by decide) (Evaluate.call_recursive _)
            (hreading.again hid hn (hbelow id hactive)))
        | atom | constant => cases hpart
      · have hdispatch : Leaves c (Stocked tells) st m
            (within id (dispatch (context c.types g) (describeAt (context c.types g) depth) id n))
            fun m' e => Writes c tells m' e id := by
          cases n with
          | atom a =>
            cases a with
            | literal type l =>
              exact within_matcherCall ▸
                matcherCall_leaves hstocked (writes_equal_to (fun _ => rfl) (hreading.literal hid hn))
            | null type =>
              exact within_matcherCall ▸ matcherCall_leaves hstocked
                (writes_of_call (by decide) (Evaluate.call_null_value []) (hreading.null hid hn))
          | constant declared runtime name =>
            exact within_matcherCall ▸
              matcherCall_leaves hstocked (writes_equal_to (fun _ => rfl) (hreading.constant hid hn))
          | composite declared runtime content =>
            refine .within hstocked fun hinner => dispatch_leaves hreading ih hinner hid hn ?_
            intro part hpart
            have hchild : part ∈ g.children id := by simpa [Graph.children, hn, Node.children] using hpart
            refine ⟨hreading.part hid hchild, fun k hk => ?_⟩
            rcases List.mem_cons.1 hk with rfl | hk
            · exact ⟨part, hchild, .refl⟩
            · obtain ⟨p, hp, hlead⟩ := hbelow k hk
              exact ⟨p, hp, hlead.tail hchild⟩
        exact hdispatch.bind fun e st' m' hstocked' _ _ he => hoist_leaves hstocked' he

end

/-! ### Assertions -/

theorem assertValue_statements {cx : Context} {actual : Expr} {st st' : State}
    (hassert : assertValue cx id actual st = (.ok ⟨⟩, st')) {e : Expr} {st₁ : State}
    (hdescribe : describeRoot cx id st = (.ok e, st₁)) :
    st'.statements = st₁.statements ++ [.expr (.apply "assert_that" [actual, e])] := by
  unfold assertValue at hassert
  rw [Effect.bind_of_ok hdescribe] at hassert
  cases hassert
  rfl

/-- A local that no statement binds anew still has its value when the assertion reads it. -/
theorem local_kept {cx : Context} {name : String} {v : Value}
    (hassert : assertValue cx id (.loc name) st = (.ok ⟨⟩, st'))
    (hvalue : findValue? name m.locals = some (.live v)) (hfree : ∀ s ∈ st'.statements, ¬ s.Binds name)
    (emitted : List Stmt) (e : Expr) (st₁ : State) (m' : Machine)
    (hdescribe : describeRoot cx id st = (.ok e, st₁)) (hframe : Frame c st m emitted st₁ m') :
    Evaluate.expr c (.loc name) m' = (.ok (.live v), m') := by
  -- what is emitted on the way is among the statements of the whole assertion
  have hunbound : ∀ s ∈ emitted, ¬ s.Binds name := by
    intro s hs
    refine hfree s ?_
    rw [assertValue_statements hassert hdescribe, hframe.statements]
    simp [hs]
  exact Evaluate.localValue_apply ((hframe.locals hunbound).trans hvalue)

section

variable (hreading : Reading c.types g nodes tells)
include hreading

theorem describeRoot_leaves : DescribesParts c g nodes tells (describeRoot (context c.types g)) := by
  intro id st m hstocked hid hbelow e st' hrun
  unfold describeRoot at hrun
  rw [Effect.bind_of_ok (Effect.modify_apply _ st)] at hrun
  generalize List.map _ _ = shared at hrun
  have hshared : Stocked tells { st with shared } m := { hstocked with }
  obtain ⟨emitted, m', hframe, hstocked', hwrites⟩ :=
    describeAt_leaves hreading _ hshared hid hbelow e st' hrun
  exact ⟨emitted, m', { hframe with }, hstocked', hwrites⟩

/-- An assertion passes whose actual expression, once the locals that it needs are bound, still has a
value that the matchers of the node accept. -/
theorem assertValue_leaves {actual : Expr} {v : Value} (hstocked : Stocked tells st m)
    (hactive : st.active = []) (hid : nodes id)
    (haccepts : ∀ p m', tells p id → m.Later m' → p.accepts m'.heap c.types v = true)
    (hactual : ∀ emitted e st' m', describeRoot (context c.types g) id st = (.ok e, st') →
      Frame c st m emitted st' m' → Evaluate.expr c actual m' = (.ok (.live v), m')) :
    Leaves c (Stocked tells) st m (assertValue (context c.types g) id actual) fun _ _ => True := by
  intro _ st₃ hrun
  obtain ⟨expected, st₁, hdescribe, hrest⟩ := Effect.bind_ok.1 hrun
  obtain ⟨emitted, m₁, hframe, hstocked₁, hexpected⟩ :=
    describeRoot_leaves hreading hstocked hid (by simp [hactive]) expected st₁ hdescribe
  obtain ⟨p, m₂, hp, hlater, hlocals, hstmt⟩ :=
    Evaluate.stmt_assert_that (hactual emitted expected st₁ m₁ hdescribe hframe) hexpected
  have hassert : Evaluate.stmt c (.expr (.apply "assert_that" [actual, expected])) m₁ = (.ok ⟨⟩, m₂) := by
    rw [hstmt, Matcher.check, if_pos (haccepts p m₂ hp (hframe.later.trans hlater))]
    rfl
  have hleaves : Leaves c (Stocked tells) st₁ m₁ (do
      addFunctionImport (matchingPath "assert_that")
      emit (.expr (.apply "assert_that" [actual, expected]))) fun _ _ => True := by
    refine (addFunctionImport_leaves _ hstocked₁).bind ?_
    rintro _ st₂ _ hstocked₂ _ _ rfl
    exact emit_leaves hstocked₂ hassert hlater hlocals fun _ hbinds => hbinds
  obtain ⟨last, m₃, hframe', hstocked₃, -⟩ := hleaves _ st₃ hrest
  exact ⟨emitted ++ last, m₃, hframe.trans hframe', hstocked₃, trivial⟩

/-- What is emitted for an assertion checks the value by a matcher that tells of the node. -/
theorem assertValue_tests {actual : Expr} {v : Value} (hstocked : Stocked tells st m)
    (hactive : st.active = []) (hstart : st.statements = []) (hid : nodes id)
    (hassert : assertValue (context c.types g) id actual st = (.ok ⟨⟩, st'))
    (hactual : ∀ emitted e st' m', describeRoot (context c.types g) id st = (.ok e, st') →
      Frame c st m emitted st' m' → Evaluate.expr c actual m' = (.ok (.live v), m')) :
    ∃ p m', tells p id ∧ m.Later m' ∧
      (Evaluate.run c st'.statements m).1 = (p.check m'.heap c.types v).mapError .assertion := by
  obtain ⟨expected, st₁, hdescribe, -⟩ := Effect.bind_ok.1 hassert
  obtain ⟨emitted, m₁, hframe, -, hexpected⟩ :=
    describeRoot_leaves hreading hstocked hid (by simp [hactive]) expected st₁ hdescribe
  obtain ⟨p, m₂, hp, hlater, -, hstmt⟩ :=
    Evaluate.stmt_assert_that (hactual emitted expected st₁ m₁ hdescribe hframe) hexpected
  refine ⟨p, m₂, hp, hframe.later.trans hlater, ?_⟩
  rw [assertValue_statements hassert hdescribe, hframe.statements, hstart, List.nil_append,
    Evaluate.run_append hframe.run, Evaluate.run_one, hstmt]

end

/-! ### Values that show the nodes -/

/-- What is needed of the parts of a composite in order to describe it. -/
def Regular (runtime : Ty) : Content → Prop
  | .array _ => runtime.component?.isSome
  | .object fields => (fields.map (·.name)).Nodup
  | _ => True

/-- Every composite reachable from the root is regular. -/
def Describable (g : Graph) (root : NodeId) : Prop :=
  ∀ id, Leads g.children root id → ∀ declared runtime content,
    g.get? id = some (.composite declared runtime content) → Regular runtime content

theorem Describable.child (h : Describable g id) {part : NodeId} (hpart : part ∈ g.children id) :
    Describable g part := fun n hn => h n (.head hpart hn)

/-- Now and later, the matcher accepts whatever shows the node. -/
def Describes (types : ClassTable) (g : Graph) (at_ : ObjectId → NodeId → Prop) (m : Machine) (p : Matcher)
    (id : NodeId) : Prop :=
  ∀ m', m.Later m' → Accepts types g m'.heap at_ p id

/-- What accepts the objects that show regular nodes accepts them in all later machines. -/
theorem describes_reading {at_ : ObjectId → NodeId → Prop} (hmirrored : Mirrored types g m.heap at_) :
    Reading types g (Describable g) (Describes types g at_ m) := by
  have hlater : ∀ {m'}, m.Later m' → Mirrored types g m'.heap at_ := fun hm => hmirrored.later hm.object
  have hregular : ∀ {id declared runtime content}, Describable g id →
      g.get? id = some (.composite declared runtime content) → Regular runtime content :=
    fun hid hn => hid _ .refl _ _ _ hn
  constructor
  case part => exact fun hid hpart => hid.child hpart
  case literal => exact fun _ hn m' hm => Matcher.accepts_literal (hlater hm) hn
  case null => exact fun _ hn m' hm => Matcher.accepts_null (hlater hm) hn
  case constant => exact fun _ hn m' hm => Matcher.accepts_constant (hlater hm) hn
  case array =>
    exact fun _ hn _ hps m' hm => Matcher.accepts_array (hlater hm) hn (hps.imp fun _ _ hp => hp m' hm)
  case primitives =>
    intro id declared runtime elements kind ls hid hn hkind hls m' hm
    obtain ⟨component, hcomponent⟩ := Option.isSome_iff_exists.1 (hregular hid hn)
    have htype : component = .primitive kind := by
      simpa [Node.componentType, Node.runtime, hcomponent] using hkind
    exact Matcher.accepts_primitives (hlater hm) hn (htype ▸ hcomponent) hls
  case list =>
    exact fun _ hn hps m' hm => Matcher.accepts_list (hlater hm) hn (hps.imp fun _ _ hp => hp m' hm)
  case set =>
    exact fun _ hn hps m' hm => Matcher.accepts_set (hlater hm) hn (hps.imp fun _ _ hp => hp m' hm)
  case map =>
    exact fun _ hn hps m' hm => Matcher.accepts_map (hlater hm) hn
      (hps.imp fun _ _ hp => ⟨hp.1 m' hm, hp.2 m' hm⟩)
  case object =>
    intro id declared runtime fields es hid hn hes m' hm
    have hexpects : List.Forall₂ (Expects g (Accepts types g m'.heap at_)) es fields :=
      hes.imp fun _ _ he => he.imp fun _ _ hp => hp m' hm
    unfold fieldMatcher
    split
    · refine Matcher.accepts_fieldwise (hlater hm) hn (hregular hid hn) (fun actual hfits => ?_) hexpects
      exact hfits.assignable (.inl rfl)
    · refine Matcher.accepts_fieldwise (hlater hm) hn (hregular hid hn) (fun actual hfits => ?_) hexpects
      exact decide_eq_true (hfits.erasure.trans (Ty.erasure_erasure runtime).symm)
  case again => exact fun _ hn hbelow m' hm => Matcher.accepts_instance (hlater hm) hn hbelow

end Reenact.Verification
