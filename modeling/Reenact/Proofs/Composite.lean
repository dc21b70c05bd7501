import Mathlib
import Reenact.Proofs.Rebuilding

/-!
Rebuilding composite nodes: collections, maps, arrays, plain objects and wrappers. Each is allocated
under a new local, and after it has been filled it shows its node.
-/

namespace Reenact.Reconstruction

variable {types : ClassTable} {g : Graph} {region : NodeId → Prop} {busy : ObjectId → Prop}
  {s : State} {m : Machine} {build : Task → Build Expr}

/-- Contents that are built by adding their elements to an empty collection. -/
inductive Linear : Content → List NodeId → Shape → (List Value → Body) → Prop where
  | list (elements) : Linear (.list elements) elements .list .list
  | set (elements) : Linear (.set elements) elements .set .set

theorem leads_of_child {id part n : NodeId} {declared runtime : Ty} {content : Content}
    (hn : g.get? id = some (.composite declared runtime content)) (hpart : part ∈ content.children)
    (hlead : Leads g.children part n) : Leads g.children id n := by
  refine .head ?_ hlead
  simpa [Graph.children, hn, Node.children] using hpart

theorem node_sound {id : NodeId} {n : Node} (hsound : g.Sound types id)
    (hn : g.get? id = some n) : n.Sound g types := by
  obtain ⟨n', hn', hnode⟩ := hsound id .refl
  cases hn.symm.trans hn'
  exact hnode

theorem sound_of_child {id part : NodeId} {declared runtime : Ty} {content : Content}
    (hsound : g.Sound types id) (hn : g.get? id = some (.composite declared runtime content))
    (hpart : part ∈ content.children) : g.Sound types part :=
  hsound.child (leads_of_child hn hpart .refl)

/-- A new object has been completed, and code refers to it by its local. -/
theorem complete_simulated {id : NodeId} {class_ : Ty} {body body' : Body} {name : String}
    {declared runtime : Ty} {content : Content} {slots : Slots Value} {s' s'' : State}
    {m' m'' : Machine} (hopen : Opened g s m id class_ body name s' m') (hready : Ready g s'' m'')
    (hgrows : Grows types g region busy s' m' s'' m'')
    (hn : g.get? id = some (.composite declared runtime content))
    (hclass : SameClass class_ runtime)
    (hget : m''.heap.get? m.heap.size = some ⟨class_, body', false⟩)
    (hslots : Obj.slots? ⟨class_, body', false⟩ types = some slots)
    (hrel : Slots.Rel (Shows g (At s'' m'')) slots content.slots) :
    Simulated types g region busy s'' m'' (pure (.loc name)) fun s₃ m₃ e =>
      Rebuilt types g m₃.heap (At s₃ m₃) m.heap.size id ∧ Renders types g id s₃ m₃ e := by
  refine .pure hready ⟨⟨_, slots, declared, runtime, content, hget, hslots, hn, hclass, hrel⟩, ?_⟩
  refine ⟨.object m.heap.size, .object (hgrows.at_mono (hopen.at_iff.2 (.inr ⟨rfl, rfl⟩))), ?_⟩
  exact Evaluate.yields_loc (hgrows.keeps _ _ hopen.stands)

section

variable {id : NodeId} {declared runtime : Ty} {content : Content} {elements : List NodeId}
  {mk : List Value → Body} {shape : Shape}

theorem Linear.children (h : Linear content elements shape mk) :
    content.children = elements := by
  cases h <;> rfl

theorem Linear.slots (h : Linear content elements shape mk) :
    content.slots = .indexed shape elements := by
  cases h <;> rfl

theorem Linear.slots? (h : Linear content elements shape mk) (class_ : Ty)
    (ws : List Value) :
    Obj.slots? ⟨class_, mk ws, false⟩ types = some (.indexed shape ws) := by
  cases h <;> rfl

theorem Linear.distinct (h : Linear content elements shape mk)
    (hdistinct : content.Distinct g types runtime) :
    mk = Body.list ∨ mk = Body.set ∧ elements.Pairwise fun n n' => ¬ g.Alike n n' := by
  cases h with
  | list => exact .inl rfl
  | set => exact .inr ⟨rfl, hdistinct⟩

theorem Linear.fits (h : Linear content elements shape mk)
    (hfit : g.slotsFit (.composite declared runtime content)) :
    ∀ p ∈ elements, g.fits ((Node.composite declared runtime content).elementType 0) p := by
  cases h <;> exact List.all_eq_true.1 hfit

theorem Linear.instantiate (h : Linear content elements shape mk) {class_ : Ty}
    (hlist : types.isList class_ = (shape == .list)) (hset : shape = .set → types.isSet class_)
    (heap : Heap) : Collection.instantiate types class_ heap = heap.alloc class_ (mk []) := by
  unfold Collection.instantiate
  cases h with
  | list => simp [hlist, Heap.newList]
  | set => simp [hlist, hset, Heap.newSet]

theorem fillNew_simulated (hbuild : BuildsValues types g build) {class_ : Ty} {name : String}
    {s' : State} {m' : Machine} (hlinear : Linear content elements shape mk)
    (hopen : Opened g s m id class_ (mk []) name s' m') (hsound : g.Sound types id)
    (hn : g.get? id = some (.composite declared runtime content))
    (hregion : ∀ p ∈ elements, ∀ n, Leads g.children p n → region n) :
    Simulated types g region (· = m.heap.size) s' m'
      (fill (context types g) build name "add" ((Node.composite declared runtime content).elementType 0)
        elements)
      fun s'' m'' _ => ∃ ws, m''.heap.get? m.heap.size = some ⟨class_, mk ws, false⟩ ∧
        List.Forall₂ (Shows g (At s'' m'')) ws elements := by
  obtain ⟨n, hn', hnode⟩ := hsound id .refl
  cases hn.symm.trans hn'
  obtain ⟨_, _, hfit, hdistinct⟩ := hnode
  refine fill_simulated hbuild hopen.ready hopen.get? hopen.stands (hlinear.distinct hdistinct)
    (fun p hp => ?_) (hlinear.fits hfit) hregion
  exact sound_of_child hsound hn (hlinear.children ▸ hp)

theorem buildCollection_simulated (hbuild : BuildsValues types g build)
    (hlinear : Linear content elements shape mk) (hready : Ready g s m)
    (hnew : findValue? id s.built = none) (hsound : g.Sound types id)
    (hn : g.get? id = some (.composite declared runtime content))
    (halloc : types.allocates shape runtime) :
    Simulated types g (Leads g.children id) idle s m
      (buildCollection (context types g) build id (.composite declared runtime content) elements)
      (Renders types g id) := by
  obtain ⟨n, hn', hnode⟩ := hsound id .refl
  cases hn.symm.trans hn'
  simp only [ClassTable.allocates, Bool.and_eq_true, beq_iff_eq] at halloc
  obtain ⟨⟨⟨hclass, hlist⟩, hset⟩, _⟩ := halloc
  have himpl : types.defaultImplementation runtime = runtime := by
    cases runtime <;> simp_all [Ty.className?, ClassTable.defaultImplementation]
  have hinst := hlinear.instantiate hlist (fun h => by rw [hset, h]; rfl) m.heap
  unfold buildCollection
  simp only [context, Node.runtime, himpl]
  refine allocate_simulated hready hnew hn hnode.2.1 .refl (Evaluate.expr_new hinst)
    fun name s' m' hopen => ?_
  have hbusy : ∀ a, a = m.heap.size → a < m'.heap.size := fun a ha => ha ▸ Heap.lt_size hopen.get?
  refine (fillNew_simulated hbuild hlinear hopen hsound hn fun p hp n hlead => ?_).bind
    (fun _ h => h) hbusy ?_
  · exact leads_of_child hn (hlinear.children ▸ hp) hlead
  · rintro ⟨⟩ s'' m'' hready'' hgrows ⟨ws, hget, hws⟩
    refine complete_simulated hopen hready'' hgrows hn (.inl rfl) hget (hlinear.slots? _ ws) ?_
    rw [hlinear.slots]
    exact Slots.rel_indexed.2 hws

/-! ### Maps -/

private theorem mem_children_of_entry {entries : List (NodeId × NodeId)} {e : NodeId × NodeId}
    (he : e ∈ entries) : e.1 ∈ (Content.map entries).children ∧ e.2 ∈ (Content.map entries).children :=
  ⟨List.mem_flatMap.2 ⟨e, he, by simp⟩, List.mem_flatMap.2 ⟨e, he, by simp⟩⟩

theorem buildMap_simulated (hbuild : BuildsValues types g build) {entries : List (NodeId × NodeId)}
    (hready : Ready g s m) (hnew : findValue? id s.built = none) (hsound : g.Sound types id)
    (hn : g.get? id = some (.composite declared runtime (.map entries))) :
    Simulated types g (Leads g.children id) idle s m
      (buildMap (context types g) build id (.composite declared runtime (.map entries)) entries)
      (Renders types g id) := by
  obtain ⟨halloc, hstem, hfit, hdistinct⟩ := node_sound hsound hn
  simp only [ClassTable.suits, Content.slots, Slots.keyed, ClassTable.allocates,
    Bool.and_eq_true, beq_iff_eq] at halloc
  obtain ⟨⟨⟨hclass, hlist⟩, hset⟩, hmap⟩ := halloc
  have himpl : types.defaultImplementation runtime = runtime := by
    cases runtime <;> simp_all [Ty.className?, ClassTable.defaultImplementation]
  have hinst : Collection.instantiate types runtime m.heap = m.heap.alloc runtime (.map []) := by
    simp [Collection.instantiate, hlist, hset, hmap, Heap.newMap]
  unfold buildMap
  simp only [context, Node.runtime, himpl]
  refine allocate_simulated hready hnew hn hstem .refl (Evaluate.expr_new hinst)
    fun name s' m' hopen => ?_
  have hbusy : ∀ a, a = m.heap.size → a < m'.heap.size := fun a ha => ha ▸ Heap.lt_size hopen.get?
  have hfits : ∀ e ∈ entries,
      g.fits ((Node.composite declared runtime (.map entries)).elementType 0) e.1 ∧
        g.fits ((Node.composite declared runtime (.map entries)).elementType 1) e.2 := by
    intro e he
    simpa using List.all_eq_true.1 hfit e he
  refine (fillEntries_simulated hbuild hopen.ready hopen.get? hopen.stands hdistinct ?_ hfits
    ?_).bind (fun _ h => h) hbusy ?_
  · intro e he
    exact ⟨sound_of_child hsound hn (mem_children_of_entry he).1,
      sound_of_child hsound hn (mem_children_of_entry he).2⟩
  · intro e he p hp n hlead
    simp only [List.mem_cons, List.not_mem_nil, or_false] at hp
    rcases hp with rfl | rfl
    · exact leads_of_child hn (mem_children_of_entry he).1 hlead
    · exact leads_of_child hn (mem_children_of_entry he).2 hlead
  · rintro ⟨⟩ s'' m'' hready'' hgrows ⟨ws, hget, hws⟩
    exact complete_simulated hopen hready'' hgrows hn (.inl rfl) hget rfl (Slots.rel_keyed.2 hws)

/-! ### Arrays -/

/-- What does not belong to the region is not built by the step. -/
theorem Simulated.unbuilt {α : Type} {x : Build α} {post : State → Machine → α → Prop}
    (hx : Simulated types g region busy s m x post) (hnew : findValue? id s.built = none)
    (hid : ¬ region id) :
    Simulated types g region busy s m x fun s' m' a => findValue? id s'.built = none ∧ post s' m' a := by
  intro a s' hrun
  obtain ⟨emitted, m', hemitted, hrun', hready, hgrows, hpost⟩ := hx a s' hrun
  refine ⟨emitted, m', hemitted, hrun', hready, hgrows, ?_, hpost⟩
  cases hl : findValue? id s'.built with
  | none => rfl
  | some l =>
    obtain ⟨a, ha, _⟩ := hready.bound hl
    rcases hgrows.new ⟨l, hl, ha⟩ with ⟨l', hl', _⟩ | ⟨_, hregion, _⟩
    · cases hnew.symm.trans hl'
    · exact absurd hregion hid

theorem onCycle_iff {c : Context} {parts : List NodeId} :
    onCycle c id parts = true ↔ ∃ p ∈ parts, Leads c.graph.children p id := by
  simp [onCycle, Graph.reaches_iff]

private theorem yields_defaultElement (component : Ty) :
    Evaluate.Yields (.bare types) m (defaultElement component) (.default component) := by
  cases component with
  | primitive kind => exact Evaluate.yields_literal _
  | void => exact Evaluate.yields_null
  | named => exact Evaluate.yields_null
  | array => exact Evaluate.yields_null

theorem exists_values {parts : List NodeId} {es : List Expr}
    (hes : List.Forall₂ (fun p e => Renders types g p s m e) parts es) :
    ∃ ws, List.Forall₂ (Shows g (At s m)) ws parts ∧
      List.Forall₂ (Evaluate.Yields (.bare types) m) es ws := by
  induction hes with
  | nil => exact ⟨[], .nil, .nil⟩
  | cons he _ ih =>
    obtain ⟨w, hw, hyields⟩ := he
    obtain ⟨ws, hws, hrest⟩ := ih
    exact ⟨w :: ws, .cons hw hws, .cons hyields hrest⟩

theorem buildArray_simulated (hbuild : BuildsValues types g build) {elements : List NodeId}
    (hready : Ready g s m) (hnew : findValue? id s.built = none) (hsound : g.Sound types id)
    (hn : g.get? id = some (.composite declared runtime (.array elements))) :
    Simulated types g (Leads g.children id) idle s m
      (buildArray (context types g) build id (.composite declared runtime (.array elements)) elements)
      (Renders types g id) := by
  obtain ⟨hsuits, hstem, hfit, -⟩ := node_sound hsound hn
  obtain ⟨component, hcomponent, helement⟩ := (Option.any_eq_true _ _).1 hsuits
  obtain rfl : runtime = .array component := by
    cases runtime <;> simp_all [Ty.component?]
  have htype : (Node.composite declared (.array component) (.array elements)).componentType =
      component := rfl
  simp only [Ty.isElementType, Bool.and_eq_true, bne_iff_ne, ne_eq] at helement
  have hfits : ∀ p ∈ elements, g.fits component p := List.all_eq_true.1 hfit
  have hparts : ∀ p ∈ elements, g.Sound types p := fun p hp => sound_of_child hsound hn hp
  have hregion : ∀ p ∈ elements, ∀ n, Leads g.children p n → Leads g.children id n :=
    fun p hp n hlead => leads_of_child hn hp hlead
  unfold buildArray
  simp only [htype]
  by_cases hcycle : onCycle (context types g) id elements = true
  · rw [if_pos hcycle]
    have hblanks : List.Forall₂ (Evaluate.Yields (.bare types) m)
        (elements.map fun _ => defaultElement component)
        (elements.map fun _ => Value.default component) := by
      rw [List.forall₂_map_left_iff, List.forall₂_map_right_iff, List.forall₂_same]
      exact fun _ _ => yields_defaultElement component
    refine allocate_simulated hready hnew hn hstem .refl
      (Evaluate.expr_newArray helement.1 helement.2 hblanks) fun name s' m' hopen => ?_
    have hbusy : ∀ a, a = m.heap.size → a < m'.heap.size := fun a ha => ha ▸ Heap.lt_size hopen.get?
    refine (fillElements_simulated hbuild hopen.ready hopen.get? hopen.stands (by simp) hparts hfits
      hregion).bind (fun _ h => h) hbusy ?_
    rintro ⟨⟩ s'' m'' hready'' hgrows ⟨ws, hget, hws⟩
    exact complete_simulated hopen hready'' hgrows hn (.inl rfl) hget rfl (Slots.rel_indexed.2 hws)
  · rw [if_neg hcycle]
    have hvalues := Simulated.mapM (fun s' m' p e => Renders types g p s' m' e) elements hready
      (fun hgrows he => he.mono hgrows) fun p hp s' m' hready' =>
        @valueAs_simulated _ _ (fun n => ∃ p ∈ elements, Leads g.children p n) _ _ _ hbuild _ _
          hready' (hparts p hp) (hfits p hp) fun n hn => ⟨p, hp, hn⟩
    have hbelow : ∀ n, (∃ p ∈ elements, Leads g.children p n) → Leads g.children id n := by
      rintro n ⟨p, hp, hlead⟩
      exact hregion p hp n hlead
    refine ((hvalues.unbuilt hnew (mt (onCycle_iff (c := context types g)).2 hcycle)).mono hbelow (fun _ h => h)
      fun _ _ _ h => h).bind (fun _ h => h) (fun _ h => h.elim) ?_
    rintro es s' m' hready' _ ⟨hnew', hes⟩
    obtain ⟨ws, hshows, hyields⟩ := exists_values hes
    refine allocate_simulated hready' hnew' hn hstem .refl
      (Evaluate.expr_newArray helement.1 helement.2 hyields) fun name s'' m'' hopen => ?_
    have hshows' := hshows.imp fun _ _ => Shows.mono (fun hx _ => hx) fun ha => hopen.at_iff.2 (.inl ha)
    exact complete_simulated hopen hopen.ready (.refl s'' m'') hn (.inl rfl) hopen.get? rfl
      (Slots.rel_indexed.2 hshows')

/-! ### Plain objects -/

/-- What a new instance holds already need not be stored. -/
private theorem shows_default {at_ : ObjectId → NodeId → Prop} {f : NodeField}
    (hsound : g.Sound types f.value) (hfits : g.fits f.type f.value)
    (hdefault : holdsDefault (context types g) f) : Shows g at_ (.default f.type) f.value := by
  obtain ⟨n, hn, hnode⟩ := hsound f.value .refl
  simp only [holdsDefault, hn] at hdefault
  split at hdefault
  · next type heq =>
    cases heq
    have hnull : Value.default f.type = .null := by
      cases htype : f.type with
      | primitive kind => simp [Graph.fits, htype, hn, Ty.unboxed?, Ty.isPrimitive] at hfits
      | void => rfl
      | named => rfl
      | array => rfl
    exact hnull ▸ .null hn
  · next type value kind heq htype =>
    cases heq
    have hzero : Value.default f.type = .scalar value := by
      rw [htype, beq_iff_eq.1 hdefault]
      rfl
    exact hzero ▸ .scalar hn hnode
  · cases hdefault

/-- The names of a node's fields are distinct, the declared ones coming first. -/
private theorem fields_split {fields : List NodeField} (h : FieldsOf types runtime fields) :
    ∃ own others, fields = own ++ others ∧ (fields.map (·.name)).Nodup ∧
      List.Forall₂ (fun (d : String × FieldDef) f => d.1 = f.owner ∧ d.2.name = f.name ∧ d.2.type = f.type)
        (types.allFields (runtime.className?.getD "")) own ∧
      ∀ f ∈ others, f.name ∉ types.fieldNames runtime ∧ f.owner = runtime.className?.getD "" ∧
        f.type = .object := by
  have ⟨extra, hlabels, hnodup⟩ := h
  obtain ⟨own, others, rfl, hown, hothers⟩ := List.map_eq_append_iff.1 hlabels
  have hdeclared : List.Forall₂
      (fun (d : String × FieldDef) f => d.1 = f.owner ∧ d.2.name = f.name ∧ d.2.type = f.type)
      (types.allFields (runtime.className?.getD "")) own :=
    (map_eq_map_iff_forall₂.1 hown.symm).imp fun d f h => by simpa using h
  refine ⟨own, others, rfl, h.nodup, hdeclared, fun f hf => ?_⟩
  have hlabel : Slot.field f.owner f.name f.type ∈
      extra.map fun name => Slot.field (runtime.className?.getD "") name .object :=
    hothers ▸ List.mem_map.2 ⟨f, hf, rfl⟩
  obtain ⟨name, hname, heq⟩ := List.mem_map.1 hlabel
  obtain ⟨howner, rfl, htype⟩ : runtime.className?.getD "" = f.owner ∧ name = f.name ∧ Ty.object = f.type := by
    simpa using heq
  exact ⟨fun hmem => (List.nodup_append.1 hnodup).2.2 _ hmem _ hname rfl, howner.symm, htype.symm⟩

/-- Whatever is not declared has to be stored. -/
private theorem filter_storedFields {name : String} {args : List Ty} {own others : List NodeField}
    (hown : ∀ f ∈ own, f.name ∈ (types.allFields name).map (·.2.name))
    (hothers : ∀ f ∈ others, f.name ∉ (types.allFields name).map (·.2.name)) :
    (storedFields (context types g) (.named name args) (own ++ others)).filter
      (fun f => decide (f.name ∉ (types.allFields name).map (·.2.name))) = others := by
  have hfields : types.fieldsOf (.named name args) = types.allFields name := rfl
  simp only [storedFields, hfields, List.filter_filter, List.filter_append]
  rw [List.filter_eq_nil_iff.2, List.filter_eq_self.2, List.nil_append]
  · intro f hf
    rw [List.contains_eq_mem, decide_eq_false (hothers f hf), decide_eq_true (hothers f hf)]
    rfl
  · intro f hf
    rw [decide_eq_false (not_not_intro (hown f hf))]
    simp

/-- What a new instance of a class holds. -/
private def freshFields (types : ClassTable) (name : String) : List (String × Value) :=
  (types.allFields name).map fun d => (d.2.name, .default d.2.type)

section

variable {at_ : ObjectId → NodeId → Prop} {name : String} {args : List Ty} {fields : List NodeField}
  {pairs : List (String × Value)}

private theorem nodup_freshFields (hdeclared : ((types.allFields name).map (·.2.name)).Nodup) :
    ((freshFields types name).map (·.1)).Nodup := by
  rw [freshFields, List.map_map]
  exact hdeclared

/-- A declared field shows what was stored into it, and its default if the store was left out. -/
private theorem declared_shown {d : FieldDef} {f : NodeField}
    (hdeclared : ((types.allFields name).map (·.2.name)).Nodup) (hnodup : (fields.map (·.name)).Nodup)
    (hpairs : List.Forall₂ (fun p f => p.1 = f.name ∧ Shows g at_ p.2 f.value) pairs
      (storedFields (context types g) (.named name args) fields))
    (hd : d ∈ (types.allFields name).map (·.2)) (hf : f ∈ fields) (hname : d.name = f.name)
    (htype : d.type = f.type) (hsound : g.Sound types f.value) (hfits : g.fits f.type f.value) :
    Shows g at_ (heldValue (putAll (freshFields types name) pairs) d) f.value := by
  have hnames : pairs.map (·.1) = (storedFields (context types g) (.named name args) fields).map (·.name) :=
    map_eq_map_iff_forall₂.2 (hpairs.imp fun _ _ => And.left)
  have hstored : (pairs.map (·.1)).Nodup := hnames ▸ (List.filter_sublist.map _).nodup hnodup
  have hinit : findValue? d.name (freshFields types name) = some (.default d.type) := by
    obtain ⟨e, he, rfl⟩ := List.mem_map.1 hd
    exact findValue?_of_mem (nodup_freshFields hdeclared) (List.mem_map.2 ⟨e, he, rfl⟩)
  rw [heldValue, findValue?_putAll hstored, hinit]
  by_cases hkept : f ∈ storedFields (context types g) (.named name args) fields
  · obtain ⟨p, hp, hpname, hshows⟩ := forall₂_mem_right hpairs hkept
    have hfound : findValue? d.name pairs = some p.2 := findValue?_of_mem hstored (hname ▸ hpname ▸ hp)
    simpa [hfound] using hshows
  · have hmissing : findValue? d.name pairs = none := by
      rw [findValue?_eq_none, hnames, hname]
      intro hmem
      obtain ⟨f', hf', heq⟩ := List.mem_map.1 hmem
      have hsame := List.inj_on_of_nodup_map hnodup (List.mem_of_mem_filter hf') hf heq
      exact hkept (hsame ▸ hf')
    have hdefault : holdsDefault (context types g) f = true := by
      by_contra hnot
      exact hkept (List.mem_filter.2 ⟨hf, by simp [hnot]⟩)
    simpa [hmissing, htype] using shows_default hsound hfits hdefault

/-- Whatever is not declared is stored, and comes behind the declared fields. -/
private theorem others_shown {own others : List NodeField} (hnodup : ((own ++ others).map (·.name)).Nodup)
    (hown : ∀ f ∈ own, f.name ∈ (types.allFields name).map (·.2.name))
    (hothers : ∀ f ∈ others, f.name ∉ (types.allFields name).map (·.2.name) ∧ f.owner = name ∧ f.type = .object)
    (hpairs : List.Forall₂ (fun p f => p.1 = f.name ∧ Shows g at_ p.2 f.value) pairs
      (storedFields (context types g) (.named name args) (own ++ others))) :
    List.Forall₂ (fun x y => x.1 = y.1 ∧ Shows g at_ x.2 y.2)
      (extraSlots name (types.allFields name) (putAll (freshFields types name) pairs))
      (others.map fun f => (.field f.owner f.name f.type, f.value)) := by
  have hnames := map_eq_map_iff_forall₂.2 (hpairs.imp fun _ _ => And.left)
  have hstored : (pairs.map (·.1)).Nodup := hnames ▸ (List.filter_sublist.map _).nodup hnodup
  have hnone : (freshFields types name).filter
      (fun e => decide (e.1 ∉ (types.allFields name).map (·.2.name))) = [] := by
    refine List.filter_eq_nil_iff.2 fun e he => ?_
    obtain ⟨d, hd, rfl⟩ := List.mem_map.1 he
    simpa using ⟨d.1, d.2, hd, rfl⟩
  have hextra := List.rel_filter (p := fun e : String × Value =>
      decide (e.1 ∉ (types.allFields name).map (·.2.name)))
    (q := fun f : NodeField => decide (f.name ∉ (types.allFields name).map (·.2.name)))
    (fun e f h => by dsimp only; rw [h.1]) hpairs
  rw [filter_storedFields hown fun f hf => (hothers f hf).1] at hextra
  rw [extraSlots, filter_putAll fun n => decide (n ∉ (types.allFields name).map (·.2.name)), hnone,
    @putAll_of_nodup _ _ _ [] _ ((List.filter_sublist.map _).nodup hstored), List.nil_append,
    List.forall₂_map_left_iff, List.forall₂_map_right_iff]
  refine ((List.forall₂_and_left _ _).2 ⟨hothers, hextra.flip⟩).flip.imp ?_
  rintro e f ⟨⟨_, howner, htype⟩, hname, hshows⟩
  exact ⟨by simp [howner, htype, hname], hshows⟩

/-- Storing into a new instance whatever it does not hold already makes it show the node. -/
private theorem fields_shown (hfields : FieldsOf types (.named name args) fields)
    (hsound : ∀ f ∈ fields, g.Sound types f.value) (hfits : ∀ f ∈ fields, g.fits f.type f.value)
    (hpairs : List.Forall₂ (fun p f => p.1 = f.name ∧ Shows g at_ p.2 f.value) pairs
      (storedFields (context types g) (.named name args) fields)) :
    Slots.Rel (Shows g at_)
      ⟨.object, fieldSlots name (types.allFields name) (putAll (freshFields types name) pairs)⟩
      (Content.object fields).slots := by
  obtain ⟨own, others, rfl, hnodup, hown, hothers⟩ := fields_split hfields
  have hdeclared : ((types.allFields name).map (·.2.name)).Nodup := by
    obtain ⟨_, _, hnames⟩ := hfields
    exact (List.nodup_append.1 hnames).1
  refine ⟨rfl, ?_⟩
  rw [fieldSlots_eq name hdeclared (nodup_putAll (nodup_freshFields hdeclared)), heldSlots]
  simp only [Content.slots, List.map_append]
  refine List.rel_append ?_ (others_shown hnodup (fun f hf => ?_) hothers hpairs)
  · have hmember := (List.forall₂_and_left _ _).2 ⟨fun d (hd : d ∈ types.allFields name) => hd, hown⟩
    have hboth := (List.forall₂_and_left _ _).2 ⟨fun f (hf : f ∈ own) => hf, hmember.flip⟩
    rw [List.forall₂_map_left_iff, List.forall₂_map_right_iff]
    refine hboth.flip.imp ?_
    rintro ⟨owner, d⟩ f ⟨hf, hd, howner, hname, htype⟩
    dsimp only at howner hname htype
    subst howner
    have hmem : f ∈ own ++ others := List.mem_append_left _ hf
    exact ⟨by simp [hname, htype], declared_shown hdeclared hnodup hpairs (List.mem_map_of_mem hd) hmem hname
      htype (hsound f hmem) (hfits f hmem)⟩
  · obtain ⟨d, hd, heq⟩ := forall₂_mem_right hown hf
    exact List.mem_map.2 ⟨d, hd, heq.2.1⟩

end

theorem buildFields_simulated (hbuild : BuildsValues types g build) {fields : List NodeField}
    (hready : Ready g s m) (hnew : findValue? id s.built = none) (hsound : g.Sound types id)
    (hn : g.get? id = some (.composite declared runtime (.object fields))) :
    Simulated types g (Leads g.children id) idle s m
      (buildFields (context types g) build id (.composite declared runtime (.object fields)) fields)
      (Renders types g id) := by
  obtain ⟨hsuits, hstem, hfit, hfields⟩ := node_sound hsound hn
  simp only [ClassTable.suits, Content.slots, Bool.and_eq_true, Bool.not_eq_true'] at hsuits
  obtain ⟨⟨hlist, hset⟩, hmap⟩ := hsuits
  unfold buildFields
  by_cases hmake : isConstructible (context types g) runtime = true
  · obtain ⟨name, args, rfl⟩ : ∃ name args, runtime = .named name args := by
      cases runtime <;> simp_all [isConstructible]
    have hdeclared : ((types.allFields name).map (·.2.name)).Nodup := by
      obtain ⟨_, _, hnames⟩ := hfields
      exact (List.nodup_append.1 hnames).1
    have hinst : Collection.instantiate types (.named name args) m.heap =
        m.heap.alloc (.named name args) (.fields (freshFields types name)) := by
      simp only [Collection.instantiate, hlist, hset, hmap]
      exact Heap.newObject_of_nodup _ (nodup_freshFields hdeclared)
    have hparts : ∀ f ∈ fields, g.Sound types f.value := fun f hf =>
      sound_of_child hsound hn (List.mem_map.2 ⟨f, hf, rfl⟩)
    have hfits : ∀ f ∈ fields, g.fits f.type f.value := List.all_eq_true.1 hfit
    have hsub : ∀ f ∈ storedFields (context types g) (.named name args) fields, f ∈ fields :=
      fun f hf => List.mem_of_mem_filter hf
    simp only [Node.runtime, hmake, Bool.not_true, Bool.false_eq_true, if_false]
    refine allocate_simulated hready hnew hn hstem .refl (Evaluate.expr_new hinst)
      fun local_ s' m' hopen => ?_
    have hbusy : ∀ a, a = m.heap.size → a < m'.heap.size := fun a ha => ha ▸ Heap.lt_size hopen.get?
    refine (storeFields_simulated hbuild hopen.ready hopen.get? hopen.stands
      (fun f hf => hparts f (hsub f hf)) (fun f hf => hfits f (hsub f hf)) fun f hf n hlead =>
        leads_of_child hn (List.mem_map.2 ⟨f, hsub f hf, rfl⟩) hlead).bind (fun _ h => h) hbusy ?_
    rintro ⟨⟩ s'' m'' hready'' hgrows ⟨pairs, hget, hpairs⟩
    exact complete_simulated hopen hready'' hgrows hn (.inl rfl) hget rfl
      (fields_shown hfields hparts hfits hpairs)
  · intro e s' hrun
    simp [Node.runtime, hmake] at hrun
    cases hrun

end

end Reenact.Reconstruction
