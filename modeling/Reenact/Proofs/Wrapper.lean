import Mathlib
import Reenact.Proofs.Composite

/-!
Rebuilding wrapper collections. The payload is built under the number of the wrapper's node and
forgotten again, so that the node comes to stand in the wrapper.
-/

namespace Reenact.Reconstruction

variable {types : ClassTable} {g : Graph} {region : NodeId → Prop} {busy : ObjectId → Prop}
  {s : State} {m : Machine} {id : NodeId}

/-! ### Forgetting a node -/

/-- The state in which a node has no local. -/
def State.without (s : State) (id : NodeId) : State := { s with built := dropEntry id s.built }

theorem at_without (hkeys : (s.built.map (·.1)).Nodup) {a : ObjectId} {n : NodeId} :
    At (s.without id) m a n ↔ At s m a n ∧ n ≠ id := by
  unfold At State.without
  by_cases hn : n = id
  · simp [hn, findValue?_dropEntry hkeys]
  · simp [hn, findValue?_dropEntry_of_ne hn]

theorem Ready.without (h : Ready g s m) (id : NodeId) : Ready g (s.without id) m where
  bound {n l} hl := by
    unfold State.without at hl
    rw [findValue?_dropEntry h.keys] at hl
    split at hl
    · cases hl
    · exact h.bound hl
  composite {n l} hl := by
    unfold State.without at hl
    rw [findValue?_dropEntry h.keys] at hl
    split at hl
    · cases hl
    · exact h.composite hl
  injective ha ha' := h.injective ((at_without h.keys).1 ha).1 ((at_without h.keys).1 ha').1
  free := h.free
  numbered := h.numbered
  keys := nodup_dropEntry id h.keys

theorem shows_without (hkeys : (s.built.map (·.1)).Nodup) {v : Value} {n : NodeId} (hne : n ≠ id)
    (hv : Shows g (At s m) v n) : Shows g (At (s.without id) m) v n := by
  cases hv with
  | null hn => exact .null hn
  | scalar hn hl => exact .scalar hn hl
  | constant hn => exact .constant hn
  | object ha => exact .object ((at_without hkeys).2 ⟨ha, hne⟩)

/-- An object that refers to nothing under the node stays complete. -/
theorem Rebuilt.without {h : Heap} {a : ObjectId} {n : NodeId} (hkeys : (s.built.map (·.1)).Nodup)
    (hb : Rebuilt types g h (At s m) a n) (hid : id ∉ g.children n) :
    Rebuilt types g h (At (s.without id) m) a n := by
  obtain ⟨o, slots, declared, runtime, content, ho, hslots, hn, hclass, hshape, hentries⟩ := hb
  refine ⟨o, slots, declared, runtime, content, ho, hslots, hn, hclass, hshape, ?_⟩
  have hchildren : ∀ e ∈ content.slots.entries, e.2 ≠ id := by
    rintro e he rfl
    refine hid ?_
    have hmem : e.2 ∈ content.slots.nodes := List.mem_map_of_mem he
    rw [Content.nodes_slots] at hmem
    simpa [Graph.children, hn, Node.children] using hmem
  have hboth := (List.forall₂_and_left _ _).2 ⟨hchildren, hentries.flip⟩
  refine hboth.flip.imp ?_
  rintro _ _ ⟨hne, hlabel, hv⟩
  exact ⟨hlabel, shows_without hkeys hne hv⟩

/-! ### Payloads -/

/-- The code yields a collection of values that show the elements. -/
def Payload (types : ClassTable) (g : Graph) (elements : List NodeId) (mk : List Value → Body)
    (args : List Ty) (s : State) (m : Machine) (e : Expr) : Prop :=
  ∃ a o ws, m.heap.get? a = some o ∧ o.body = mk ws ∧ o.type.args = args ∧
    Evaluate.Yields (.bare types) m e (.object a) ∧ List.Forall₂ (Shows g (At s m)) ws elements

section

variable {build : Task → Build Expr} (hbuild : BuildsValues types g build)
include hbuild

variable {declared runtime : Ty} {content : Content} {elements : List NodeId}
  {mk : List Value → Body} {shape : Shape}

/-- A collection that is built under a node which its elements do not lead to, and forgotten. -/
theorem payload_simulated (hlinear : Linear content elements shape mk) {class_ : Ty}
    (hready : Ready g s m) (hnew : findValue? id s.built = none) (hsound : g.Sound types id)
    (hn : g.get? id = some (.composite declared runtime content))
    (himpl : types.defaultImplementation runtime = class_)
    (hinst : Collection.instantiate types class_ m.heap = m.heap.alloc class_ (mk []))
    (hstem : Unnumbered class_.localStem) (hacyclic : ∀ p ∈ elements, ¬ Leads g.children p id)
    {args : List Ty} (hargs : class_.args = args) :
    Simulated types g (fun n => ∃ p ∈ elements, Leads g.children p n) idle s m
      (do
        let value ← buildCollection (context types g) build id (.composite declared runtime content)
          elements
        modify fun st => { st with built := dropEntry id st.built }
        return value)
      (Payload types g elements mk args) := by
  intro e s₃ hrun
  obtain ⟨_, s₂, hcollection, hdrop⟩ := Effect.bind_ok.1 hrun
  cases hdrop
  unfold buildCollection at hcollection
  simp only [context, Node.runtime, himpl] at hcollection
  rw [Effect.bind_of_ok (allocate_apply id class_ _ s)] at hcollection
  obtain ⟨_, s₂', hfill, hpure⟩ := Effect.bind_ok.1 hcollection
  cases hpure
  have hopen := opened class_ (mk []) (.new class_ []) hready hnew hn hstem
  have hregion : ∀ p ∈ elements, ∀ n, Leads g.children p n → ∃ p ∈ elements, Leads g.children p n :=
    fun p hp _ hlead => ⟨p, hp, hlead⟩
  obtain ⟨emitted, m₂, hemitted, hrunfill, hready₂, hgrows, ws, hget, hws⟩ :=
    fillNew_simulated hbuild hlinear hopen hsound hn hregion _ _ hfill
  have hkeys := hready₂.keys
  have hsize : m.heap.size + 1 ≤ m₂.heap.size := by
    have hle := hgrows.size_le
    rwa [hopen.heap, Heap.size_alloc] at hle
  refine ⟨.bind (s.nextName class_) class_ (.new class_ []) :: emitted, m₂, ?_, ?_,
    hready₂.without id, ⟨hopen.keeps.trans hgrows.keeps, ?_, Nat.le_of_succ_le hsize, ?_, ?_⟩, ?_⟩
  · change s₂.statements = _
    rw [hemitted]
    simp [State.allocated]
  · exact (Evaluate.run_cons (Evaluate.stmt_bind (Evaluate.expr_new hinst))).trans hrunfill
  · intro n l hl
    have hne : n ≠ id := by
      rintro rfl
      cases hnew.symm.trans hl
    exact (findValue?_dropEntry_of_ne hne _).trans (hgrows.built (hopen.built hl))
  · intro b o _ ho
    refine hgrows.object (Nat.ne_of_lt (Heap.lt_size ho)) ?_
    rw [hopen.heap]
    exact Heap.get?_alloc_of_get? _ _ ho
  · intro b n hb
    obtain ⟨hb, hne⟩ := (at_without hkeys).1 hb
    rcases hgrows.new hb with hb | ⟨hle, ⟨p, hp, hlead⟩, hb⟩
    · exact (hopen.at_iff.1 hb).imp_right fun heq => absurd heq.2 hne
    · rw [hopen.heap, Heap.size_alloc] at hle
      refine .inr ⟨Nat.le_of_succ_le hle, ⟨p, hp, hlead⟩, hb.without hkeys fun hmem => ?_⟩
      exact hacyclic p hp (hlead.tail hmem)
  · refine ⟨m.heap.size, _, ws, hget, rfl, hargs, Evaluate.yields_loc (hgrows.keeps _ _ hopen.stands), ?_⟩
    have hboth := (List.forall₂_and_left _ _).2 ⟨fun p (hp : p ∈ elements) => hp, hws.flip⟩
    refine hboth.flip.imp ?_
    rintro w p ⟨hp, hw⟩
    refine shows_without hkeys ?_ hw
    rintro rfl
    exact hacyclic p hp .refl

end

/-- What wrappers are put around, with the adaptor that builds it. -/
inductive Wrapped : (collection payload : String) → Shape → (List Value → Body) → Prop where
  | list : Wrapped "List" "list" .list .list
  | set : Wrapped "Set" "set" .set .set

/-- Delegated tasks build the payloads of wrappers. -/
def BuildsPayloads (types : ClassTable) (g : Graph) (build : Task → Build Expr) : Prop :=
  ∀ {collection payload mk shape content elements id declared kind args s m},
    Wrapped collection payload shape mk → Linear content elements shape mk → Ready g s m →
    findValue? id s.built = none → g.Sound types id →
    g.get? id =
      some (.composite declared (.named (WrapperKind.className kind collection) args) content) →
    (∀ p ∈ elements, ¬ Leads g.children p id) →
    Simulated types g (fun n => ∃ p ∈ elements, Leads g.children p n) idle s m
      (build (.delegate payload id)) (Payload types g elements mk args)

section

variable {collection payload : String} {mk : List Value → Body} {shape : Shape}
  {content : Content} {elements : List NodeId} {kind : WrapperKind}

theorem Wrapped.mem (h : Wrapped collection payload shape mk) : collection ∈ ["List", "Set"] := by
  cases h <;> simp

private theorem Wrapped.body (h : Wrapped collection payload shape mk) (ws : List Value) :
    (if collection = "List" then Body.list ws else .set ws) = mk ws := by
  cases h <;> rfl

theorem nodup_of_shows (hready : Ready g s m) {parts : List NodeId} {ws : List Value}
    (hdistinct : parts.Pairwise fun n n' => ¬ g.Alike n n')
    (hws : List.Forall₂ (Shows g (At s m)) ws parts) : ws.Nodup := by
  induction hws with
  | nil => exact .nil
  | cons hw hrest ih =>
    rw [List.pairwise_cons] at hdistinct
    refine List.nodup_cons.2 ⟨fun hmem => ?_, ih hdistinct.2⟩
    obtain ⟨n, hn, hshow⟩ := forall₂_mem_left hrest hmem
    exact hdistinct.1 n hn (alike_of_shows hready hw hshow)

/-- The code makes a new wrapper around values that show the elements. -/
def Wraps (types : ClassTable) (g : Graph) (kind : WrapperKind) (collection : String) (args : List Ty)
    (elements : List NodeId) (mk : List Value → Body) (s : State) (m : Machine) (call : Expr) : Prop :=
  ∃ args' ws, Evaluate.expr (.bare types) call m =
      (.ok (.live (.object m.heap.size)),
        { m with heap := (m.heap.alloc (.named (kind.className collection) args') (mk ws)).1 }) ∧
    kind.Retypes args args' ∧ List.Forall₂ (Shows g (At s m)) ws elements

private theorem wraps_of_wrapped (hwrapped : Wrapped collection payload shape mk)
    (hlinear : Linear content elements shape mk) {runtime : Ty} (hready : Ready g s m)
    (hdistinct : content.Distinct g types runtime) (typeArgs : List Ty) {es : List Expr}
    {vs ws : List Value} {payloadArgs : List Ty} (hes : List.Forall₂ (Evaluate.Yields (.bare types) m) es vs)
    (hws : List.Forall₂ (Shows g (At s m)) ws elements)
    (hpayload : Collection.wrapped kind (vs.map RunValue.live) m = (.ok (ws, payloadArgs), m))
    {args : List Ty} (hargs : kind.Retypes args (if typeArgs.isEmpty then payloadArgs else typeArgs)) :
    Wraps types g kind collection args elements mk s m
      (.function none (Evaluate.factoryName kind collection) typeArgs es) := by
  have hnodup : ws.Nodup ∨ collection = "List" := by
    cases hwrapped with
    | list => exact .inr rfl
    | set =>
      cases hlinear with
      | set => exact .inl (nodup_of_shows hready hdistinct hws)
  have hwrap := Evaluate.wrap_apply collection typeArgs hnodup hpayload
  refine ⟨_, ws, ?_, hargs, hws⟩
  rw [Evaluate.expr_factory kind hwrapped.mem typeArgs hes, Effect.map_of_ok hwrap, hwrapped.body]

private theorem retypes_elementType (hkind : kind = .empty ∨ kind = .checked) {declared : Ty} {name : String}
    {args : List Ty} :
    kind.Retypes args [(Node.composite declared (.named name args) content).elementType 0] := by
  cases args with
  | nil => exact .inr (.inl rfl)
  | cons type rest => exact .inr (.inr (.inr ⟨hkind, rfl⟩))

variable {build : Task → Build Expr} (hbuild : BuildsValues types g build)
  (hpayloads : BuildsPayloads types g build)
include hbuild hpayloads

omit hpayloads in
private theorem singleton_simulated {declared : Ty} {args : List Ty} {element : NodeId}
    (hwrapped : Wrapped collection payload shape mk) (hlinear : Linear content [element] shape mk)
    (hready : Ready g s m) (hsound : g.Sound types id)
    (hn : g.get? id =
      some (.composite declared (.named (WrapperKind.singleton.className collection) args) content)) :
    Simulated types g (fun n => ∃ p ∈ [element], Leads g.children p n) idle s m
      (do
        let value ← valueAs (context types g) build element
          ((Node.composite declared (.named (WrapperKind.singleton.className collection) args)
            content).elementType 0)
        return .apply (Evaluate.factoryName .singleton collection) [value])
      (Wraps types g .singleton collection args [element] mk) := by
  obtain ⟨_, _, hfit, hdistinct⟩ := node_sound hsound hn
  have helement : g.Sound types element := sound_of_child hsound hn (by simp [hlinear.children])
  refine (valueAs_simulated hbuild hready helement (hlinear.fits hfit element (by simp))
    fun n hlead => ⟨element, by simp, hlead⟩).bind (fun _ h => h) (fun _ h => h.elim) ?_
  rintro e s' m' hready' _ ⟨w, hw, hyields⟩
  exact .pure hready' (wraps_of_wrapped hwrapped hlinear hready' hdistinct [] (.cons hyields .nil)
    (.cons hw .nil) (Evaluate.wrapped_singleton w m') (.inl rfl))

omit hbuild in
private theorem delegated_simulated {declared : Ty} {args : List Ty} (typeArgs : List Ty)
    (hkind : kind ≠ .singleton) (hargs : kind.Retypes args (if typeArgs.isEmpty then args else typeArgs))
    (hwrapped : Wrapped collection payload shape mk)
    (hlinear : Linear content elements shape mk) (hready : Ready g s m)
    (hnew : findValue? id s.built = none) (hsound : g.Sound types id)
    (hn : g.get? id = some (.composite declared (.named (kind.className collection) args) content))
    (hacyclic : ∀ p ∈ elements, ¬ Leads g.children p id) :
    Simulated types g (fun n => ∃ p ∈ elements, Leads g.children p n) idle s m
      (do
        return .function none (Evaluate.factoryName kind collection) typeArgs
          [← build (.delegate payload id)])
      (Wraps types g kind collection args elements mk) := by
  obtain ⟨_, _, _, hdistinct⟩ := node_sound hsound hn
  refine (hpayloads hwrapped hlinear hready hnew hsound hn hacyclic).bind (fun _ h => h)
    (fun _ h => h.elim) ?_
  rintro e s' m' hready' _ ⟨a, o, ws, ho, hbody, rfl, hyields, hws⟩
  have hpayload : o.body = .list ws ∨ o.body = .set ws := by
    cases hwrapped with
    | list => exact .inl hbody
    | set => exact .inr hbody
  exact .pure hready' (wraps_of_wrapped hwrapped hlinear hready' hdistinct typeArgs
    (.cons hyields .nil) hws (Evaluate.wrapped_payload hkind ho hpayload) hargs)

theorem wrapperCall_simulated {declared : Ty} {args : List Ty}
    (hwrapped : Wrapped collection payload shape mk)
    (hlinear : Linear content elements shape mk) (hready : Ready g s m)
    (hnew : findValue? id s.built = none) (hsound : g.Sound types id)
    (hn : g.get? id = some (.composite declared (.named (kind.className collection) args) content))
    (hacyclic : ∀ p ∈ elements, ¬ Leads g.children p id) :
    Simulated types g (fun n => ∃ p ∈ elements, Leads g.children p n) idle s m
      (wrapperCall (context types g) build id
        (.composite declared (.named (kind.className collection) args) content) kind.name
        (Evaluate.factoryName kind collection) payload elements)
      (Wraps types g kind collection args elements mk) := by
  obtain ⟨_, _, _, hdistinct⟩ := node_sound hsound hn
  cases kind with
  | empty =>
    cases elements with
    | nil =>
      exact .pure hready (wraps_of_wrapped hwrapped hlinear hready hdistinct _ .nil .nil
        (Evaluate.wrapped_nil .empty m) (retypes_elementType (.inl rfl)))
    | cons => exact .fail
  | singleton =>
    match elements with
    | [] => exact .fail
    | [element] => exact singleton_simulated hbuild hwrapped hlinear hready hsound hn
    | _ :: _ :: _ => exact .fail
  | unmodifiable | synchronized =>
    exact delegated_simulated hpayloads [] (by decide) (.inr (.inr (.inl rfl))) hwrapped hlinear hready
      hnew hsound hn hacyclic
  | checked =>
    exact delegated_simulated hpayloads _ (by decide) (retypes_elementType (.inr rfl)) hwrapped hlinear
      hready hnew hsound hn hacyclic

end

/-! ### Wrappers -/

theorem wrapperKind?_eq_some {collection name kind : String} :
    wrapperKind? collection name = some kind ↔ name = "collections::" ++ kind ++ collection := by
  unfold wrapperKind?
  simp only [Option.ite_none_right_eq_some, Option.some.injEq]
  constructor
  · rintro ⟨hchars, rfl⟩
    apply String.toList_injective
    simpa using hchars
  · rintro rfl
    have hlength : ("collections::".toList ++ (kind.toList ++ collection.toList)).length -
        "collections::".toList.length - collection.toList.length = kind.toList.length := by
      simp only [List.length_append]
      omega
    rw [String.toList_append, String.toList_append, List.append_assoc, List.drop_left,
      ← String.length_toList, hlength, List.take_left]
    simp

theorem node_wrapperKind? {n : Node} {collection kind : String} :
    n.wrapperKind? collection = some kind ↔
      n.runtime.className? = some ("collections::" ++ kind ++ collection) := by
  unfold Node.wrapperKind?
  cases n.runtime.className? with
  | none => simp
  | some name => simp [wrapperKind?_eq_some]

section

variable {declared runtime : Ty} {elements : List NodeId}

theorem select?_list_wrapper {content : Content} (hcontent : content.kind = .list ∨ content.kind = .set)
    (h : ((Node.composite declared runtime content).wrapperKind? "List").isSome) :
    standard.chain.select? (fun a => a.behaviour.guard.accepts (.composite declared runtime content)) =
      some ⟨"collections-list", some "list", ⟨.wrapper "List", .wrapper "List" "list"⟩⟩ := by
  rcases hcontent with hkind | hkind <;>
    simp [Chain.select?, standard, NodeGuard.accepts, Node.kind, hkind, h]

theorem select?_list
    (h : ¬ ((Node.composite declared runtime (.list elements)).wrapperKind? "List").isSome) :
    standard.chain.select? (fun a => a.behaviour.guard.accepts (.composite declared runtime (.list elements))) =
      some ⟨"list", none, ⟨.kind .list, .list⟩⟩ := by
  simp [Chain.select?, standard, NodeGuard.accepts, Node.kind, Content.kind, h]

variable (hlist : ¬ ((Node.composite declared runtime (.set elements)).wrapperKind? "List").isSome)
include hlist

theorem select?_set_wrapper
    (h : ((Node.composite declared runtime (.set elements)).wrapperKind? "Set").isSome) :
    standard.chain.select? (fun a => a.behaviour.guard.accepts (.composite declared runtime (.set elements))) =
      some ⟨"collections-set", some "set", ⟨.wrapper "Set", .wrapper "Set" "set"⟩⟩ := by
  simp [Chain.select?, standard, NodeGuard.accepts, Node.kind, Content.kind, hlist, h]

theorem select?_set (h : ¬ ((Node.composite declared runtime (.set elements)).wrapperKind? "Set").isSome) :
    standard.chain.select? (fun a => a.behaviour.guard.accepts (.composite declared runtime (.set elements))) =
      some ⟨"set", none, ⟨.kind .set, .set⟩⟩ := by
  simp [Chain.select?, standard, NodeGuard.accepts, Node.kind, Content.kind, hlist, h]

end

theorem eq_className {collection name : String} {kind : WrapperKind}
    (h : wrapperKind? collection name = some kind.name) : name = kind.className collection :=
  wrapperKind?_eq_some.1 h

theorem wrapperCall_unknown {c : Context} {build : Task → Build Expr} {n : Node}
    {kind factory payload : String} {elements : List NodeId} (h : ∀ k : WrapperKind, kind ≠ k.name) :
    wrapperCall c build id n kind factory payload elements = throw (.unknownWrapper (c.graph.print id)) := by
  have hempty := h .empty
  have hsingleton := h .singleton
  have hunmodifiable := h .unmodifiable
  have hsynchronized := h .synchronized
  have hchecked := h .checked
  unfold wrapperCall
  split <;> simp_all [WrapperKind.name]

section

variable {collection payload : String} {mk : List Value → Body} {shape : Shape}
  {content : Content} {elements : List NodeId} {kind : WrapperKind}

/-- A wrapper class goes with the shape of what it wraps. -/
theorem Wrapped.linear (ht : types.ExtendsBuiltin) (hwrapped : Wrapped collection payload shape mk)
    {args : List Ty} {mk' : List Value → Body} {shape' : Shape}
    (hlinear : Linear content elements shape' mk')
    (hsuits : types.suits (.named (kind.className collection) args) content.slots.shape) :
    Linear content elements shape mk := by
  have hhidden := ht.isHidden_wrapper kind hwrapped.mem
  have hinst := ClassTable.ExtendsBuiltin.isInstantiable_of_isHidden hhidden
  have hother : ∀ kind ∈ WrapperKind.all, ∀ k ∈ WrapperKind.all,
      k.className "List" ≠ kind.className "Set" := by
    decide +kernel
  cases hwrapped with
  | list =>
    cases hlinear with
    | list => exact .list _
    | set =>
      simp only [ClassTable.suits, Content.slots, Slots.indexed, ClassTable.allocates, Ty.className?,
        Option.any_some, hinst, Bool.false_and, Bool.false_or, Ty.isWrapper_iff, Ty.named.injEq] at hsuits
      obtain ⟨k, _, heq, _⟩ := hsuits
      exact absurd heq (hother k k.mem_all kind kind.mem_all)
  | set =>
    cases hlinear with
    | set => exact .set _
    | list =>
      simp only [ClassTable.suits, Content.slots, Slots.indexed, ClassTable.allocates, Ty.className?,
        Option.any_some, hinst, Bool.false_and, Bool.false_or, Ty.isWrapper_iff, Ty.named.injEq] at hsuits
      obtain ⟨k, _, heq, _⟩ := hsuits
      exact absurd heq.symm (hother kind kind.mem_all k k.mem_all)

theorem addFunctionImport_simulated (path : String) (hready : Ready g s m) :
    Simulated types g region idle s m (addFunctionImport path) fun s' m' _ =>
      s'.built = s.built ∧ m' = m := by
  intro _ s' hrun
  cases hrun
  exact ⟨[], m, by simp, rfl, ⟨hready.bound, hready.composite, hready.injective, hready.free, hready.numbered,
    hready.keys⟩, ⟨.refl m, fun hl => hl, le_rfl, fun _ ho => ho, fun ha => .inl ha⟩, rfl, rfl⟩

private theorem Wraps.of_built {s' : State} {call : Expr}
    {args : List Ty} (h : Wraps types g kind collection args elements mk s m call)
    (hbuilt : s'.built = s.built) : Wraps types g kind collection args elements mk s' m call := by
  obtain ⟨args', ws, hcall, hargs, hws⟩ := h
  refine ⟨args', ws, hcall, hargs, hws.imp fun _ _ hw => hw.mono (fun hx _ => hx) fun ⟨l, hl, hla⟩ => ?_⟩
  exact ⟨l, hbuilt ▸ hl, hla⟩

variable {build : Task → Build Expr}

/-- What an adaptor for wrappers makes of a list or a set shows it, if it makes anything of it. -/
theorem buildWrapper_simulated (ht : types.ExtendsBuiltin) (hbuild : BuildsValues types g build)
    (hpayloads : BuildsPayloads types g build) (hwrapped : Wrapped collection payload shape mk)
    {declared runtime : Ty} {mk' : List Value → Body} {shape' : Shape}
    (hlinear : Linear content elements shape' mk') (hready : Ready g s m)
    (hnew : findValue? id s.built = none) (hsound : g.Sound types id)
    (hn : g.get? id = some (.composite declared runtime content)) :
    Simulated types g (Leads g.children id) idle s m
      (buildWrapper (context types g) build id (.composite declared runtime content) collection payload
        elements)
      (Renders types g id) := by
  obtain ⟨hsuits, _⟩ := node_sound hsound hn
  unfold buildWrapper
  cases hkind : (Node.composite declared runtime content).wrapperKind? collection with
  | none => exact .fail
  | some name =>
    dsimp only
    by_cases hcycle : onCycle (context types g) id elements = true
    · intro e s' hrun
      simp [hcycle] at hrun
      cases hrun
    by_cases hname : ∀ k : WrapperKind, name ≠ k.name
    · intro e s' hrun
      simp [hcycle, wrapperCall_unknown hname] at hrun
      cases hrun
    obtain ⟨kind, rfl⟩ : ∃ k : WrapperKind, name = k.name := by simpa using hname
    obtain ⟨args, rfl⟩ : ∃ args, runtime = .named (kind.className collection) args := by
      cases runtime with
      | named className args => exact ⟨args, by rw [eq_className hkind]⟩
      | void => cases hkind
      | primitive => cases hkind
      | array => cases hkind
    have hlinear' := hwrapped.linear ht hlinear hsuits
    have hacyclic : ∀ p ∈ elements, ¬ Leads g.children p id := fun p hp hlead =>
      hcycle (onCycle_iff.2 ⟨p, hp, hlead⟩)
    have hid : ¬ ∃ p ∈ elements, Leads g.children p id := by
      rintro ⟨p, hp, hlead⟩
      exact hacyclic p hp hlead
    rw [if_neg hcycle]
    have hcall := (wrapperCall_simulated hbuild hpayloads hwrapped hlinear' hready hnew hsound hn
      hacyclic).unbuilt hnew hid
    have hbelow : ∀ n, (∃ p ∈ elements, Leads g.children p n) → Leads g.children id n := by
      rintro n ⟨p, hp, hlead⟩
      exact leads_of_child hn (hlinear.children ▸ hp) hlead
    refine (hcall.mono hbelow (fun _ h => h) fun _ _ _ h => h).bind (fun _ h => h) (fun _ h => h.elim) ?_
    rintro call s₁ m₁ hready₁ _ ⟨hnew₁, hwraps⟩
    refine (addFunctionImport_simulated _ hready₁).bind (fun _ h => h) (fun _ h => h.elim) ?_
    rintro ⟨⟩ s₂ _ hready₂ _ ⟨hbuilt, rfl⟩
    obtain ⟨typeArgs, ws, hcall, hargs, hws⟩ := hwraps.of_built hbuilt
    have hpublic := ht.publicSupertype_wrapper kind hwrapped.mem args
    simp only [Node.runtime, hpublic]
    refine allocate_simulated hready₂ (hbuilt ▸ hnew₁) hn ?_ .refl hcall fun local_ s₃ m₃ hopen => ?_
    · cases hwrapped with
      | list => exact (by decide : Unnumbered (Ty.named "List" []).localStem)
      | set => exact (by decide : Unnumbered (Ty.named "Set" []).localStem)
    · have hws₃ := hws.imp fun _ _ => Shows.mono (fun hx _ => hx) fun ha => hopen.at_iff.2 (.inl ha)
      refine complete_simulated hopen hopen.ready (.refl s₃ m₃) hn
        (.inr ⟨kind, collection, typeArgs, args, hwrapped.mem, rfl, rfl, hargs⟩) hopen.get? (hlinear'.slots? _ ws) ?_
      rw [hlinear'.slots]
      exact Slots.rel_indexed.2 hws₃

end

end Reenact.Reconstruction
