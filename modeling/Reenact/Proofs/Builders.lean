import Mathlib
import Reenact.Proofs.Recursion

/-!
What each adaptor makes of a node, where the tasks for its parts are done as they should be.
-/

namespace Reenact.Reconstruction

variable {c : Context} {id : NodeId} {s t u : State} {declared runtime : Ty} {content : Content}
  {elements : List NodeId}

/-! ### Wrapper classes -/

theorem list_ne_set {kind kind' : String} :
    "collections::" ++ kind ++ "List" ≠ "collections::" ++ kind' ++ "Set" := by
  intro heq
  have hreverse := congrArg (fun name => name.toList.reverse) heq
  simp [String.toList_append] at hreverse

theorem kind_inj {kind kind' collection : String}
    (h : "collections::" ++ kind ++ collection = "collections::" ++ kind' ++ collection) : kind = kind' := by
  have hlist := congrArg String.toList h
  simp only [String.toList_append, List.append_assoc, List.append_cancel_left_eq,
    List.append_cancel_right_eq] at hlist
  exact String.toList_injective hlist

section

variable {g : Graph} {kind kind' : String} {elements' : List NodeId}

theorem WrapperNode.unique (h : WrapperNode g id kind elements) (h' : WrapperNode g id kind' elements') :
    kind = kind' ∧ elements = elements' := by
  cases h with
  | list hn hclass =>
    cases h' with
    | list hn' hclass' =>
      cases hn.symm.trans hn'
      exact ⟨kind_inj (Option.some.inj (hclass.symm.trans hclass')), rfl⟩
    | set hn' => cases hn.symm.trans hn'
  | set hn hclass =>
    cases h' with
    | list hn' => cases hn.symm.trans hn'
    | set hn' hclass' =>
      cases hn.symm.trans hn'
      exact ⟨kind_inj (Option.some.inj (hclass.symm.trans hclass')), rfl⟩

theorem WrapperNode.not_crossed (h : WrapperNode g id kind elements) : ¬ Crossed g id := by
  rintro ⟨_, _, _, kind', hn', hclass'⟩
  cases h with
  | list hn => cases hn.symm.trans hn'
  | set hn hclass =>
    cases hn.symm.trans hn'
    exact list_ne_set (Option.some.inj (hclass'.symm.trans hclass))

theorem not_wrapperNode (hn : g.get? id = some (.composite declared runtime content))
    (hlist : ∀ elements, content ≠ .list elements) (hset : ∀ elements, content ≠ .set elements) :
    ∀ kind elements, ¬ WrapperNode g id kind elements := by
  intro kind elements h
  cases h with
  | list hn' =>
    cases hn.symm.trans hn'
    exact hlist _ rfl
  | set hn' =>
    cases hn.symm.trans hn'
    exact hset _ rfl

theorem not_hasPayload (h : ∀ kind elements, ¬ WrapperNode g id kind elements) : ¬ HasPayload g id := by
  rintro ⟨kind, elements, hwrapper, -⟩
  exact h kind elements hwrapper

/-- Composite nodes other than plain objects can be built, wrappers if there is a factory for them and
their elements do not lead back. -/
theorem not_unbuildable {types : ClassTable} (hn : g.get? id = some (.composite declared runtime content))
    (hobject : ∀ fields, content ≠ .object fields)
    (hwrapper : ∀ {kind elements}, WrapperNode g id kind elements →
      HasFactory kind elements.length ∧ ∀ part ∈ elements, ¬ Leads g.children part id) :
    ¬ Unbuildable types g id := by
  intro h
  cases h with
  | missing hnone => cases hnone.symm.trans hn
  | noClass hn' =>
    cases hn.symm.trans hn'
    exact hobject _ rfl
  | hidden hn' =>
    cases hn.symm.trans hn'
    exact hobject _ rfl
  | abstract hn' =>
    cases hn.symm.trans hn'
    exact hobject _ rfl
  | cyclic hw hpart hlead => exact (hwrapper hw).2 _ hpart hlead
  | unknown hw hunknown => exact hunknown (hwrapper hw).1

theorem not_unbuildable_plain {types : ClassTable}
    (hn : g.get? id = some (.composite declared runtime content))
    (hobject : ∀ fields, content ≠ .object fields)
    (hplain : ∀ kind elements, ¬ WrapperNode g id kind elements) : ¬ Unbuildable types g id :=
  not_unbuildable hn hobject fun hw => absurd hw (hplain _ _)

end

/-! ### Nodes that get their local first -/

theorem Inside.opened (hs : InOrder s) {value : Expr} (hvalue : Covers s.statements value) (id : NodeId) (type : Ty) :
    Inside c id s (s.allocated id type value) where
  inOrder := hs.allocated hvalue id type
  kept hk := allocated_built.2 (.inr hk)
  barred := .inl (allocated_built.2 (.inl rfl))

theorem Fills.rebuilds {type : Ty} {value : Expr} (h : Fills c id (s.allocated id type value) t)
    (hnew : ¬ s.Built id)
    (hcreates : Creates c.types c.graph (id, .identity) (⟨s.nextName type, type⟩, value))
    (hpayload : ¬ HasPayload c.graph id)
    (hn : c.graph.get? id = some (.composite declared runtime content))
    (hbuildable : ¬ Unbuildable c.types c.graph id) : Rebuilds c id s t (.loc (s.nextName type)) := by
  obtain ⟨⟨order, hprogress⟩, hsettled⟩ := h
  have hadds := hprogress.adds.opened hnew hcreates hpayload ⟨⟨_, _, _, hn⟩, hbuildable, hsettled⟩
  refine rebuilds_loc hadds (fun e he => ?_) hprogress.inOrder
    (hprogress.adds.kept (allocated_self s id type value))
  rcases List.mem_cons.1 he with rfl | he
  · exact .refl
  · exact hprogress.leads he

/-- Imports are no part of what was built. -/
theorem Fills.imported (h : Fills c id s t) {path : String} :
    Fills c id s { t with scope := t.scope.addFunction path } := by
  obtain ⟨⟨order, hprogress⟩, hsettled⟩ := h
  refine ⟨⟨order, ?_, ⟨hprogress.inOrder.scope, hprogress.inOrder.bound⟩, hprogress.below⟩, hsettled⟩
  exact hprogress.adds.extend (List.append_nil _).symm rfl rfl

/-! ### Nodes that get their local last -/

theorem Progress.unbuilt {order : List (NodeId × Role)} (h : Progress c id s order t) (hnew : ¬ s.Built id)
    (hacyclic : ∀ part ∈ c.graph.children id, ¬ Leads c.graph.children part id) : ¬ t.Built id := by
  intro hid
  rcases h.adds.built hid with hold | hmem
  · exact hnew hold
  · obtain ⟨part, hpart, hlead⟩ := h.below _ hmem
    exact hacyclic part hpart hlead

theorem Fills.closed {type : Ty} {value : Expr} (h : Fills c id s t) (hnew : ¬ s.Built id)
    (hacyclic : ∀ part ∈ c.graph.children id, ¬ Leads c.graph.children part id)
    (hvalue : Covers t.statements value)
    (hcreates : Creates c.types c.graph (id, .identity) (⟨t.nextName type, type⟩, value))
    (hpayload : ¬ HasPayload c.graph id)
    (hn : c.graph.get? id = some (.composite declared runtime content))
    (hbuildable : ¬ Unbuildable c.types c.graph id) :
    Rebuilds c id s (t.allocated id type value) (.loc (t.nextName type)) := by
  obtain ⟨⟨order, hprogress⟩, hsettled⟩ := h
  have hkept : ∀ {k}, t.Built k → (t.allocated id type value).Built k :=
    fun hk => allocated_built.2 (.inr hk)
  have hadds := hprogress.adds.closed (hprogress.unbuilt hnew hacyclic) hcreates hpayload
    ⟨⟨_, _, _, hn⟩, hbuildable, fun part hpart => (hsettled part hpart).mono hkept⟩
  refine rebuilds_loc hadds (fun e he => ?_) (hprogress.inOrder.allocated hvalue id type)
    (allocated_self t id type value)
  rcases List.mem_append.1 he with he | he
  · exact hprogress.leads he
  · cases List.mem_singleton.1 he
    exact .refl

/-! ### Collections, maps and arrays -/

section

variable {build build' : Task → Build Expr} (hparts : BuildsParts c id s build build') (hs : InOrder s)
include hparts hs

/-- A new collection is filled with the parts of the node. -/
theorem buildCollection_runs {n : Node} (hchildren : c.graph.children id = elements) :
    let type := c.types.defaultImplementation n.runtime
    Runs (Good c id) (buildCollection c build id n elements) (buildCollection c build' id n elements) s
      fun t e => Fills c id (s.allocated id type (.new type [])) t ∧ e = .loc (s.nextName type) := by
  intro type
  unfold buildCollection
  have hvalue : Covers s.statements (.new type []) := fun name hname => (List.not_mem_nil hname).elim
  apply Runs.step (allocate_apply id type (.new type []) s)
  apply (fill_runs hparts (fun part hpart => hchildren ▸ hpart) (.opened hs hvalue id type)
    (covers_nextName id type _) "add" _).bind
  rintro _ t ⟨hprogress, hsettled⟩
  exact .pure ⟨⟨hprogress, hchildren ▸ hsettled⟩, rfl⟩

theorem buildMap_runs (hnew : ¬ s.Built id) {entries : List (NodeId × NodeId)}
    (hn : c.graph.get? id = some (.composite declared runtime (.map entries))) :
    Runs (Good c id) (buildMap c build id (.composite declared runtime (.map entries)) entries)
      (buildMap c build' id (.composite declared runtime (.map entries)) entries) s (Rebuilds c id s) := by
  have hchildren : c.graph.children id = entries.flatMap fun e => [e.1, e.2] := by
    simp [Graph.children, hn, Node.children, Content.children]
  have hsub : ∀ e ∈ entries, ∀ part ∈ [e.1, e.2], part ∈ c.graph.children id := fun e he part hpart =>
    hchildren ▸ List.mem_flatMap.2 ⟨e, he, hpart⟩
  have hplain := not_wrapperNode hn (by simp) (by simp)
  unfold buildMap
  simp only [Node.runtime]
  generalize htype : c.types.defaultImplementation runtime = type
  have hvalue : Covers s.statements (.new type []) := fun name hname => (List.not_mem_nil hname).elim
  apply Runs.step (allocate_apply id type (.new type []) s)
  apply (fillEntries_runs hparts (fun e he => ⟨hsub e he e.1 (by simp), hsub e he e.2 (by simp)⟩)
    (.opened hs hvalue id type) (covers_nextName id type _)).bind
  rintro _ t ⟨hprogress, hsettled⟩
  refine .pure (Fills.rebuilds ⟨hprogress, ?_⟩ hnew (.collection _ hn (by simp [Content.kind]) htype.symm)
    (not_hasPayload hplain) hn (not_unbuildable_plain hn (by simp) hplain))
  intro part hpart
  rw [hchildren] at hpart
  obtain ⟨e, he, hmem⟩ := List.mem_flatMap.1 hpart
  exact hsettled e he part hmem

theorem buildArray_runs (hnew : ¬ s.Built id)
    (hn : c.graph.get? id = some (.composite declared runtime (.array elements))) :
    Runs (Good c id) (buildArray c build id (.composite declared runtime (.array elements)) elements)
      (buildArray c build' id (.composite declared runtime (.array elements)) elements) s
      (Rebuilds c id s) := by
  have hchildren : c.graph.children id = elements := by
    simp [Graph.children, hn, Node.children, Content.children]
  have hsub : ∀ part ∈ elements, part ∈ c.graph.children id := fun part hpart => hchildren ▸ hpart
  have hplain := not_wrapperNode hn (by simp) (by simp)
  have hbuildable : ¬ Unbuildable c.types c.graph id := not_unbuildable_plain hn (by simp) hplain
  unfold buildArray
  simp only [Node.runtime]
  generalize hcomponent : (Node.composite declared runtime (.array elements)).componentType = component
  by_cases hcycle : onCycle c id elements = true
  · rw [if_pos hcycle, if_pos hcycle]
    have hvalue : Covers s.statements (.newArray component (elements.map fun _ => defaultElement component)) := by
      intro name hname
      obtain ⟨e, he, hname⟩ := Expr.mem_readsAll.1 hname
      obtain ⟨_, -, rfl⟩ := List.mem_map.1 he
      cases component <;> cases hname
    apply Runs.step (allocate_apply id runtime _ s)
    apply (fillElements_runs hparts hsub (.opened hs hvalue id runtime) (covers_nextName id runtime _) _).bind
    rintro _ t ⟨hprogress, hsettled⟩
    exact .pure (Fills.rebuilds ⟨hprogress, hchildren ▸ hsettled⟩ hnew
      (.array hn hcomponent.symm (List.length_map _)) (not_hasPayload hplain) hn hbuildable)
  · rw [if_neg hcycle, if_neg hcycle]
    have hacyclic : ∀ part ∈ c.graph.children id, ¬ Leads c.graph.children part id := by
      intro part hpart hlead
      exact hcycle (onCycle_iff.2 ⟨part, hchildren ▸ hpart, hlead⟩)
    apply (values_runs hparts hsub ⟨hs, fun hk => hk, .inr hacyclic⟩ component).bind
    rintro values t ⟨hprogress, hsettled, hlength, hcovers⟩
    apply Runs.step (allocate_apply id runtime _ t)
    have hvalue : Covers t.statements (.newArray component values) := by
      intro name hname
      obtain ⟨e, he, hname⟩ := Expr.mem_readsAll.1 hname
      exact hcovers e he name hname
    exact .pure (Fills.closed ⟨hprogress, hchildren ▸ hsettled⟩ hnew hacyclic hvalue
      (.array hn hcomponent.symm hlength) (not_hasPayload hplain) hn hbuildable)

/-! ### Plain objects -/

omit hparts hs in
/-- An object can be built exactly if code may make an instance of its class. -/
theorem unbuildable_object_iff {fields : List NodeField}
    (hn : c.graph.get? id = some (.composite declared runtime (.object fields))) :
    Unbuildable c.types c.graph id ↔ isConstructible c runtime = false := by
  have hplain := not_wrapperNode hn (by simp) (by simp)
  constructor
  · intro h
    cases h with
    | missing hnone => cases hnone.symm.trans hn
    | noClass hn' hclass =>
      cases hn.symm.trans hn'
      cases runtime with
      | named name args => cases hclass
      | void => rfl
      | primitive => rfl
      | array => rfl
    | hidden hn' hhidden =>
      cases hn.symm.trans hn'
      simp [isConstructible, hhidden]
    | abstract hn' hd hkind =>
      cases hn.symm.trans hn'
      simp [isConstructible, hd, hkind]
    | cyclic hw => exact absurd hw (hplain _ _)
    | unknown hw => exact absurd hw (hplain _ _)
  · intro h
    cases runtime with
    | named name args =>
      by_cases hhidden : c.types.isHidden name = true
      · exact .hidden hn hhidden
      · cases hd : c.types.get? name with
        | none => simp [isConstructible, hhidden, hd] at h
        | some d => exact .abstract hn hd (by simpa [isConstructible, hhidden, hd] using h)
    | void => exact .noClass hn rfl
    | primitive => exact .noClass hn rfl
    | array => exact .noClass hn rfl

omit hparts hs in
/-- A field that a new instance holds already needs no code. -/
theorem settled_of_holdsDefault {f : NodeField} (h : holdsDefault c f = true) : Settled c.graph t f.value := by
  unfold holdsDefault at h
  split at h
  · next hn => exact .inr ⟨_, hn, rfl⟩
  · next hn _ => exact .inr ⟨_, hn, rfl⟩
  · cases h

theorem buildFields_runs (hnew : ¬ s.Built id) {fields : List NodeField}
    (hn : c.graph.get? id = some (.composite declared runtime (.object fields))) :
    Runs (Good c id) (buildFields c build id (.composite declared runtime (.object fields)) fields)
      (buildFields c build' id (.composite declared runtime (.object fields)) fields) s
      (Rebuilds c id s) := by
  have hchildren : c.graph.children id = fields.map NodeField.value := by
    simp [Graph.children, hn, Node.children, Content.children]
  have hplain := not_wrapperNode hn (by simp) (by simp)
  unfold buildFields
  simp only [Node.runtime]
  by_cases hmake : isConstructible c runtime = true
  · simp only [hmake, Bool.not_true, Bool.false_eq_true, if_false]
    have hvalue : Covers s.statements (.new runtime []) := fun name hname => (List.not_mem_nil hname).elim
    have hsub : ∀ f ∈ storedFields c runtime fields, f.value ∈ c.graph.children id := by
      intro f hf
      rw [hchildren]
      exact List.mem_map_of_mem (List.mem_of_mem_filter hf)
    apply Runs.step (allocate_apply id runtime _ s)
    apply (loop_runs (fun f : NodeField => [f.value]) (.opened hs hvalue id runtime)
      (covers_nextName id runtime _) fun f hf t ht htarget => ?_).bind
    · rintro _ t ⟨hprogress, hsettled⟩
      refine .pure (Fills.rebuilds ⟨hprogress, ?_⟩ hnew (.object hn) (not_hasPayload hplain) hn ?_)
      · intro part hpart
        rw [hchildren] at hpart
        obtain ⟨f, hf, rfl⟩ := List.mem_map.1 hpart
        by_cases hstored : f ∈ storedFields c runtime fields
        · exact hsettled f hstored f.value (by simp)
        · have hdefault : holdsDefault c f = true := by
            by_contra hnot
            exact hstored (List.mem_filter.2 ⟨hf, by simp [hnot]⟩)
          exact settled_of_holdsDefault hdefault
      · rw [unbuildable_object_iff hn, hmake]
        exact Bool.noConfusion
    · apply store_runs hparts (hsub f hf) ht htarget f.type (fun _ => rfl)
      simp [Stmt.reads, Expr.reads]
  · simp only [hmake, Bool.not_false, if_true]
    have hbad : ¬ Good c id := by
      intro hgood
      exact hgood.buildable .refl ((unbuildable_object_iff hn).2 (by simpa using hmake))
    exact .fail hbad

end

/-! ### Wrappers -/

/-- The node goes to the adaptor for wrappers around this collection, and what is wrapped goes to the
adaptor of the other name. -/
inductive Wrapping (g : Graph) (id : NodeId) (kind : String) (elements : List NodeId) :
    (collection payload : String) → Prop where
  | list {declared runtime : Ty} : g.get? id = some (.composite declared runtime (.list elements)) →
      runtime.className? = some ("collections::" ++ kind ++ "List") → Wrapping g id kind elements "List" "list"
  | set {declared runtime : Ty} : g.get? id = some (.composite declared runtime (.set elements)) →
      runtime.className? = some ("collections::" ++ kind ++ "Set") → Wrapping g id kind elements "Set" "set"
  | crossed {declared runtime : Ty} : g.get? id = some (.composite declared runtime (.set elements)) →
      runtime.className? = some ("collections::" ++ kind ++ "List") → Wrapping g id kind elements "List" "list"

namespace Wrapping

variable {kind collection payload : String} (h : Wrapping c.graph id kind elements collection payload)
include h

theorem cases_node : WrapperNode c.graph id kind elements ∨ Crossed c.graph id := by
  cases h with
  | list hn hclass => exact .inl (.list hn hclass)
  | set hn hclass => exact .inl (.set hn hclass)
  | crossed hn hclass => exact .inr ⟨_, _, _, kind, hn, hclass⟩

theorem node : ∃ declared runtime content, c.graph.get? id = some (.composite declared runtime content) ∧
    (content = .list elements ∨ content = .set elements) ∧
      runtime.className? = some ("collections::" ++ kind ++ collection) := by
  cases h with
  | list hn hclass => exact ⟨_, _, _, hn, .inl rfl, hclass⟩
  | set hn hclass => exact ⟨_, _, _, hn, .inr rfl, hclass⟩
  | crossed hn hclass => exact ⟨_, _, _, hn, .inr rfl, hclass⟩

theorem children : c.graph.children id = elements := by
  obtain ⟨_, _, _, hn, rfl | rfl, -⟩ := h.node <;> simp [Graph.children, hn, Node.children, Content.children]

theorem kind_eq {n : Node} (hn : c.graph.get? id = some n) : n.wrapperKind? collection = some kind := by
  obtain ⟨_, _, _, hn', -, hclass⟩ := h.node
  cases hn'.symm.trans hn
  exact node_wrapperKind?.2 hclass

theorem kind_mem (hpayload : HasPayload c.graph id) : kind ∈ payloadKinds := by
  obtain ⟨kind', elements', hnode, hmem⟩ := hpayload
  rcases h.cases_node with hnode' | hcrossed
  · rwa [(hnode'.unique hnode).1]
  · exact absurd hcrossed hnode.not_crossed

theorem not_good_of_cyclic {part : NodeId} (hpart : part ∈ elements)
    (hlead : Leads c.graph.children part id) : ¬ Good c id := by
  intro hgood
  rcases h.cases_node with hnode | hcrossed
  · exact hgood.buildable .refl (.cyclic hnode hpart hlead)
  · exact hgood.uncrossed .refl hcrossed

theorem not_good_of_unknown (hfactory : ¬ HasFactory kind elements.length) : ¬ Good c id := by
  intro hgood
  rcases h.cases_node with hnode | hcrossed
  · exact hgood.buildable .refl (.unknown hnode hfactory)
  · exact hgood.uncrossed .refl hcrossed

theorem not_unbuildable (hacyclic : ∀ part ∈ elements, ¬ Leads c.graph.children part id)
    (hfactory : HasFactory kind elements.length) : ¬ Unbuildable c.types c.graph id := by
  obtain ⟨_, _, _, hn, hcontent, -⟩ := h.node
  refine Reconstruction.not_unbuildable hn ?_ fun hnode' => ?_
  · rcases hcontent with rfl | rfl <;> simp
  · rcases h.cases_node with hnode | hcrossed
    · obtain ⟨rfl, rfl⟩ := hnode.unique hnode'
      exact ⟨hfactory, hacyclic⟩
    · exact absurd hcrossed hnode'.not_crossed

end Wrapping

/-- The collection to be wrapped was built in the node's place, which was then forgotten. -/
def Delivers (c : Context) (id : NodeId) (s t : State) (e : Expr) : Prop :=
  ∃ type value u, Fills c id (s.allocated id type value) u ∧ t = u.without id ∧ e = .loc (s.nextName type) ∧
    Creates c.types c.graph (id, .payload) (⟨s.nextName type, type⟩, value) ∧ HasPayload c.graph id

/-- A wrapper around a collection gets its local after it. -/
theorem Delivers.rebuilds {s' : State} {type' : Ty} {e value' : Expr} (h : Delivers c id s t e)
    (hstatements : s'.statements = t.statements) (hbuilt : s'.built = t.built) (hnew : ¬ s.Built id)
    (hvalue : ∀ name ∈ value'.reads, name ∈ e.reads)
    (hcreates : Creates c.types c.graph (id, .identity) (⟨s'.nextName type', type'⟩, value'))
    (hn : c.graph.get? id = some (.composite declared runtime content))
    (hbuildable : ¬ Unbuildable c.types c.graph id) :
    Rebuilds c id s (s'.allocated id type' value') (.loc (s'.nextName type')) := by
  obtain ⟨type, value, u, ⟨⟨order, hprogress⟩, hsettled⟩, rfl, rfl, hcreates', hpayload⟩ := h
  have hstays : ∀ {k}, u.Built k → (s'.allocated id type' value').Built k :=
    fun hk => reallocated_built hbuilt hk
  have hinOrder : InOrder s' := by
    have hwithout := hprogress.inOrder.without id
    constructor
    · rw [hstatements]
      exact hwithout.scope
    · rw [hstatements, hbuilt]
      exact hwithout.bound
  have hcovers : Covers s'.statements value' := by
    intro name hname
    cases List.mem_singleton.1 (hvalue name hname)
    rw [hstatements]
    exact hprogress.adds.bound (covers_nextName id type value)
  have hadds := hprogress.adds.wrapped hnew hstatements hbuilt hcreates' hcreates hpayload
    ⟨⟨_, _, _, hn⟩, hbuildable, fun part hpart => (hsettled part hpart).mono hstays⟩
  refine rebuilds_loc hadds (fun e he => ?_) (hinOrder.allocated hcovers id type')
    (allocated_self s' id type' value')
  simp only [List.mem_cons, List.mem_append, List.not_mem_nil, or_false] at he
  rcases he with rfl | he | rfl
  · exact .refl
  · exact hprogress.leads he
  · exact .refl

theorem wrapperCall_noFactory {build : Task → Build Expr} {n : Node} {kind factory payload : String}
    (h : ¬ HasFactory kind elements.length) :
    wrapperCall c build id n kind factory payload elements = throw (.unknownWrapper (c.graph.print id)) := by
  unfold wrapperCall
  split
  · exact absurd .empty h
  · exact absurd .singleton h
  · exact absurd (.payload _ (by simp [payloadKinds])) h
  · exact absurd (.payload _ (by simp [payloadKinds])) h
  · exact absurd (.payload _ (by simp [payloadKinds])) h
  · rfl

section

variable {build build' : Task → Build Expr} {kind collection payload : String}
  (hw : Wrapping c.graph id kind elements collection payload)
include hw

/-- The call of a factory for a wrapper that is given its elements, if there are any. -/
theorem wrapperCall_runs (hparts : BuildsParts c id s build build') (hs : InOrder s)
    (hacyclic : ∀ part ∈ elements, ¬ Leads c.graph.children part id) {n : Node} {factory : String}
    (hfactory : HasFactory kind elements.length) (hkind : kind ∉ payloadKinds) :
    Runs (Good c id) (wrapperCall c build id n kind factory payload elements)
      (wrapperCall c build' id n kind factory payload elements) s fun t e =>
        Fills c id s t ∧ Covers t.statements e ∧ ∃ typeArgs args, e = .function none factory typeArgs args := by
  have hchildren := hw.children
  generalize hcount : elements.length = count at hfactory
  cases hfactory with
  | empty =>
    cases List.length_eq_zero_iff.1 hcount
    refine .pure ⟨⟨⟨[], .refl id hs⟩, ?_⟩, ?_, _, _, rfl⟩
    · intro part hpart
      rw [hchildren] at hpart
      exact (List.not_mem_nil hpart).elim
    · exact fun name hname => (List.not_mem_nil hname).elim
  | singleton =>
    obtain ⟨part, rfl⟩ := List.length_eq_one_iff.1 hcount
    have hpart : part ∈ c.graph.children id := hchildren ▸ List.mem_singleton_self part
    have hinside : Inside c id s s := ⟨hs, fun hk => hk, .inr (hchildren ▸ hacyclic)⟩
    apply (valueAs_runs hparts hpart hinside _).bind
    intro e t ht
    obtain ⟨order, hprogress⟩ := ht.progress hpart
    refine .pure ⟨⟨⟨order, hprogress⟩, ?_⟩, ?_, _, _, rfl⟩
    · intro part' hpart'
      rw [hchildren] at hpart'
      cases List.mem_singleton.1 hpart'
      exact ht.settled
    · intro name hname
      rw [Expr.apply, Expr.reads, Expr.readsAll, Expr.readsAll, List.append_nil] at hname
      exact ht.covers name hname
  | payload count hmem => exact absurd hmem hkind

omit hw in
/-- The call of a factory for a wrapper that is given the collection it wraps. -/
theorem payloadCall_runs {n : Node} {factory : String} (hkind : kind ∈ payloadKinds)
    (hpayload : Runs (Good c id) (build (.delegate payload id)) (build' (.delegate payload id)) s
      (Delivers c id s)) :
    Runs (Good c id) (wrapperCall c build id n kind factory payload elements)
      (wrapperCall c build' id n kind factory payload elements) s fun t e =>
        ∃ e' typeArgs, Delivers c id s t e' ∧ e = .function none factory typeArgs [e'] := by
  simp only [payloadKinds, List.mem_cons, List.not_mem_nil, or_false] at hkind
  rcases hkind with rfl | rfl | rfl
  · exact hpayload.bind fun e t ht => .pure ⟨e, _, ht, rfl⟩
  · exact hpayload.bind fun e t ht => .pure ⟨e, _, ht, rfl⟩
  · exact hpayload.bind fun e t ht => .pure ⟨e, _, ht, rfl⟩

omit hw in
theorem addFunctionImport_apply (path : String) (t : State) :
    addFunctionImport path t = (.ok ⟨⟩, { t with scope := t.scope.addFunction path }) := rfl

theorem buildWrapper_runs (hparts : BuildsParts c id s build build') (hs : InOrder s) (hnew : ¬ s.Built id)
    (hpayload : kind ∈ payloadKinds → Runs (Good c id) (build (.delegate payload id))
      (build' (.delegate payload id)) s (Delivers c id s)) {n : Node} (hn : c.graph.get? id = some n) :
    Runs (Good c id) (buildWrapper c build id n collection payload elements)
      (buildWrapper c build' id n collection payload elements) s (Rebuilds c id s) := by
  have hkind := hw.kind_eq hn
  obtain ⟨_, _, _, hn', -, -⟩ := hw.node
  cases hn.symm.trans hn'
  unfold buildWrapper
  simp only [hkind]
  by_cases hcycle : onCycle c id elements = true
  · rw [if_pos hcycle, if_pos hcycle]
    obtain ⟨part, hpart, hlead⟩ := onCycle_iff.1 hcycle
    exact .fail (hw.not_good_of_cyclic hpart hlead)
  rw [if_neg hcycle, if_neg hcycle]
  have hacyclic : ∀ part ∈ elements, ¬ Leads c.graph.children part id :=
    fun part hpart hlead => hcycle (onCycle_iff.2 ⟨part, hpart, hlead⟩)
  by_cases hfactory : HasFactory kind elements.length
  · have hbuildable := hw.not_unbuildable hacyclic hfactory
    by_cases hmem : kind ∈ payloadKinds
    · apply (payloadCall_runs hmem (hpayload hmem)).bind
      rintro _ t ⟨e, typeArgs, hdelivers, rfl⟩
      apply Runs.step (addFunctionImport_apply _ t)
      apply Runs.step (allocate_apply id _ _ _)
      refine .pure (hdelivers.rebuilds rfl rfl hnew ?_ (.wrapper hn hkind rfl) hn hbuildable)
      intro name hname
      rwa [Expr.reads, Expr.readsAll, Expr.readsAll, List.append_nil] at hname
    · apply (wrapperCall_runs hw hparts hs hacyclic hfactory hmem).bind
      rintro call t ⟨hfills, hcovers, typeArgs, args, rfl⟩
      apply Runs.step (addFunctionImport_apply _ t)
      apply Runs.step (allocate_apply id _ _ _)
      exact .pure (hfills.imported.closed hnew (hw.children ▸ hacyclic) hcovers (.wrapper hn hkind rfl)
        (fun hpayload => hmem (hw.kind_mem hpayload)) hn hbuildable)
  · rw [wrapperCall_noFactory hfactory, wrapperCall_noFactory hfactory]
    exact .fail (hw.not_good_of_unknown hfactory)

end

/-! ### Tasks -/

variable (c) in
/-- A task, the nested ones being done by `build`. -/
def step (build : Task → Build Expr) : Task → Build Expr
  | .value id => do
    match findValue? id (← get).built with
    | some l => return .loc l.name
    | none => dispatch c build id
  | .delegate name id => do
    match c.adaptors.chain.get? name with
    | none => throw (.noAdaptor (c.graph.print id))
    | some a =>
      let value ← buildBy c build id (← node c id) a.behaviour.rule
      modify fun st => { st with built := dropEntry id st.built }
      return value

theorem run_succ (c : Context) (depth : Nat) : run c (depth + 1) = step c (run c depth) := by
  funext task
  cases task <;> rfl

section

variable {build build' : Task → Build Expr} (hchain : c.adaptors.chain = standard.chain)
  (hparts : BuildsParts c id s build build') (hs : InOrder s)
include hchain hparts hs

omit hchain in
/-- A collection is built in the place of its wrapper, and the place is given back. -/
theorem payload_runs (hn : c.graph.get? id = some (.composite declared runtime content))
    (hchildren : c.graph.children id = elements) (hkind : content.kind ∈ [.list, .set, .map])
    (hpayload : HasPayload c.graph id) :
    let deliver := fun build => do
      let value ← buildCollection c build id (.composite declared runtime content) elements
      modify fun st : State => { st with built := dropEntry id st.built }
      return value
    Runs (Good c id) (deliver build) (deliver build') s (Delivers c id s) := by
  intro deliver
  apply (buildCollection_runs hparts hs hchildren).bind
  rintro _ u ⟨hfills, rfl⟩
  apply Runs.step (Effect.modify_apply _ u)
  exact .pure ⟨_, _, u, hfills, rfl, rfl, .collection _ hn hkind rfl, hpayload⟩

/-- What a wrapper wraps is built as a plain collection. -/
theorem delegate_runs {kind collection payload : String}
    (hw : Wrapping c.graph id kind elements collection payload) (hkind : kind ∈ payloadKinds) :
    Runs (Good c id) (step c build (.delegate payload id)) (step c build' (.delegate payload id)) s
      (Delivers c id s) := by
  have hchildren := hw.children
  unfold step
  simp only [hchain]
  cases hw with
  | list hn hclass =>
    apply Runs.step (node_apply hn)
    exact payload_runs hparts hs hn hchildren (by simp [Content.kind]) ⟨kind, _, .list hn hclass, hkind⟩
  | set hn hclass =>
    apply Runs.step (node_apply hn)
    exact payload_runs hparts hs hn hchildren (by simp [Content.kind]) ⟨kind, _, .set hn hclass, hkind⟩
  | crossed hn hclass =>
    apply Runs.step (node_apply hn)
    exact .fail fun hgood => hgood.uncrossed .refl ⟨_, _, _, kind, hn, hclass⟩

omit hchain hparts in
/-- Plain values need no local. -/
theorem rebuilds_plain {n : Node} (hn : c.graph.get? id = some n) (hplain : n.isReference = false) {e : Expr}
    (he : e.reads = []) : Rebuilds c id s s e where
  adds := ⟨[], .refl s, fun _ he => (List.not_mem_nil he).elim⟩
  inOrder := hs
  settled := .inr ⟨n, hn, hplain⟩
  covers name hname := by
    rw [he] at hname
    exact (List.not_mem_nil hname).elim

omit hchain in
/-- A list or a set without a class for wrappers is built as what it is. -/
theorem plainCollection_runs (hnew : ¬ s.Built id)
    (hn : c.graph.get? id = some (.composite declared runtime content))
    (hcontent : content = .list elements ∨ content = .set elements)
    (hplain : ∀ kind elements, ¬ WrapperNode c.graph id kind elements) :
    Runs (Good c id) (buildCollection c build id (.composite declared runtime content) elements)
      (buildCollection c build' id (.composite declared runtime content) elements) s (Rebuilds c id s) := by
  have hchildren : c.graph.children id = elements := by
    rcases hcontent with rfl | rfl <;> simp [Graph.children, hn, Node.children, Content.children]
  have hkind : content.kind ∈ [NodeKind.list, .set, .map] := by
    rcases hcontent with rfl | rfl <;> simp [Content.kind]
  have hobject : ∀ fields, content ≠ .object fields := by
    rcases hcontent with rfl | rfl <;> simp
  apply (buildCollection_runs hparts hs hchildren).mono (fun h => h)
  rintro t e ⟨hfills, rfl⟩
  exact hfills.rebuilds hnew (.collection _ hn hkind rfl) (not_hasPayload hplain) hn
    (not_unbuildable_plain hn hobject hplain)

/-- A node that was not met before is built by the adaptor of its kind. -/
theorem dispatch_runs (hnew : ¬ s.Built id)
    (hdelegate : ∀ {kind elements collection payload}, Wrapping c.graph id kind elements collection payload →
      kind ∈ payloadKinds → Runs (Good c id) (build (.delegate payload id)) (build' (.delegate payload id)) s
        (Delivers c id s)) :
    Runs (Good c id) (dispatch c build id) (dispatch c build' id) s (Rebuilds c id s) := by
  unfold dispatch
  rw [hchain]
  cases hn : c.graph.get? id with
  | none =>
    have hmissing : node c id = throw (.graph (.missingValue id)) := by
      simp only [node, Graph.node, hn]
    rw [hmissing]
    exact .fail fun hgood => hgood.buildable .refl (.missing hn)
  | some n =>
    apply Runs.step (node_apply hn)
    cases n with
    | atom a =>
      cases a with
      | literal type l => exact .pure (rebuilds_plain hs hn rfl rfl)
      | null type => exact .pure (rebuilds_plain hs hn rfl rfl)
    | constant declared runtime name => exact .pure (rebuilds_plain hs hn rfl rfl)
    | composite declared runtime content =>
      cases content with
      | array elements => exact buildArray_runs hparts hs hnew hn
      | map entries => exact buildMap_runs hparts hs hnew hn
      | object fields =>
        cases hfallback : c.adaptors.fallback with
        | true => exact buildFields_runs hparts hs hnew hn
        | false => exact .fail fun hgood => Bool.noConfusion (hfallback.symm.trans hgood.fallback)
      | list elements =>
        cases hkind : (Node.composite declared runtime (.list elements)).wrapperKind? "List" with
        | some kind =>
          have hw : Wrapping c.graph id kind elements "List" "list" := .list hn (node_wrapperKind?.1 hkind)
          simp only [select?_list_wrapper (.inl rfl) (Option.isSome_of_eq_some hkind)]
          exact buildWrapper_runs hw hparts hs hnew (hdelegate hw) hn
        | none =>
          simp only [select?_list (Option.not_isSome_iff_eq_none.2 hkind)]
          refine plainCollection_runs hparts hs hnew hn (.inl rfl) fun kind elements hw => ?_
          cases hw with
          | list hn' hclass =>
            cases hn.symm.trans hn'
            cases hkind.symm.trans (node_wrapperKind?.2 hclass)
          | set hn' => cases hn.symm.trans hn'
      | set elements =>
        cases hlist : (Node.composite declared runtime (.set elements)).wrapperKind? "List" with
        | some kind =>
          have hw : Wrapping c.graph id kind elements "List" "list" :=
            .crossed hn (node_wrapperKind?.1 hlist)
          simp only [select?_list_wrapper (.inr rfl) (Option.isSome_of_eq_some hlist)]
          exact buildWrapper_runs hw hparts hs hnew (hdelegate hw) hn
        | none =>
          have hnotList := Option.not_isSome_iff_eq_none.2 hlist
          cases hkind : (Node.composite declared runtime (.set elements)).wrapperKind? "Set" with
          | some kind =>
            have hw : Wrapping c.graph id kind elements "Set" "set" := .set hn (node_wrapperKind?.1 hkind)
            simp only [select?_set_wrapper hnotList (Option.isSome_of_eq_some hkind)]
            exact buildWrapper_runs hw hparts hs hnew (hdelegate hw) hn
          | none =>
            simp only [select?_set hnotList (Option.not_isSome_iff_eq_none.2 hkind)]
            refine plainCollection_runs hparts hs hnew hn (.inr rfl) fun kind elements hw => ?_
            cases hw with
            | list hn' => cases hn.symm.trans hn'
            | set hn' hclass =>
              cases hn.symm.trans hn'
              cases hkind.symm.trans (node_wrapperKind?.2 hclass)

end

end Reenact.Reconstruction
