import Mathlib
import Reenact.Proofs.Expectations
import Reenact.Proofs.Pairing
import Reenact.Proofs.Simulation
import Reenact.Proofs.Views

/-!
What matchers accept, in terms of what the matchers of the parts accept. The matcher that describes a node
accepts every value that shows the node.
-/

namespace Reenact.Matcher

variable {types : ClassTable} {g : Graph} {h : Heap} {at_ : ObjectId → NodeId → Prop}

/-- The node is met again below the other one. -/
def Below (g : Graph) (k id : NodeId) : Prop := ∃ part ∈ g.children k, Leads g.children part id

/-- An object of the class passes for one of the class that a node has: it differs at most in its type
arguments, and not in a way that a check of the class would notice where there is one. -/
structure Fits (types : ClassTable) (g : Graph) (n : NodeId) (content : Content) (actual runtime : Ty) :
    Prop where
  erasure : actual.erasure = runtime.erasure
  component : actual.component? = runtime.component?
  assignable : content.slots.shape = .object ∨ Below g n n →
    types.isAssignable actual (types.publicSupertype runtime) = true

/-- Every object that stands for a node has the slots of the node, and passes for one of its class. -/
def Mirrored (types : ClassTable) (g : Graph) (h : Heap) (at_ : ObjectId → NodeId → Prop) : Prop :=
  ∀ a n, at_ a n → ∃ o slots declared runtime content, h.get? a = some o ∧ o.slots? types = some slots ∧
    g.get? n = some (.composite declared runtime content) ∧ Fits types g n content o.type runtime ∧
      Slots.Rel (Shows g at_) slots content.slots

theorem Mirrored.later {h' : Heap} (hm : Mirrored types g h at_)
    (hobject : ∀ {a o}, h.get? a = some o → h'.get? a = some o) : Mirrored types g h' at_ := by
  intro a n ha
  obtain ⟨o, slots, declared, runtime, content, ho, hrest⟩ := hm a n ha
  exact ⟨o, slots, declared, runtime, content, hobject ho, hrest⟩

/-- The matcher accepts whatever shows the node. -/
def Accepts (types : ClassTable) (g : Graph) (h : Heap) (at_ : ObjectId → NodeId → Prop) (p : Matcher)
    (n : NodeId) : Prop :=
  ∀ v, Shows g at_ v n → p.accepts h types v = true

theorem Mirrored.composite (hm : Mirrored types g h at_) {a : ObjectId} {n : NodeId} (ha : at_ a n) :
    ∃ declared runtime content, g.get? n = some (.composite declared runtime content) := by
  obtain ⟨_, _, declared, runtime, content, _, _, hn, _⟩ := hm a n ha
  exact ⟨declared, runtime, content, hn⟩

section

variable {type declared runtime : Ty} {l : Literal} {name : String} {content : Content} {n : NodeId}
  {v : Value} (hm : Mirrored types g h at_) (hv : Shows g at_ v n)
include hm hv

theorem Mirrored.eq_scalar (hn : g.get? n = some (.atom (.literal type l))) : v = .scalar l := by
  cases hv with
  | scalar hn' => cases hn.symm.trans hn'; rfl
  | null hn' => cases hn.symm.trans hn'
  | constant hn' => cases hn.symm.trans hn'
  | object ha =>
    obtain ⟨_, _, _, hn'⟩ := hm.composite ha
    cases hn.symm.trans hn'

theorem Mirrored.eq_null (hn : g.get? n = some (.atom (.null type))) : v = .null := by
  cases hv with
  | null => rfl
  | scalar hn' => cases hn.symm.trans hn'
  | constant hn' => cases hn.symm.trans hn'
  | object ha =>
    obtain ⟨_, _, _, hn'⟩ := hm.composite ha
    cases hn.symm.trans hn'

theorem Mirrored.eq_constant (hn : g.get? n = some (.constant declared runtime name)) :
    v = .constant runtime.erasure.erasure.text name := by
  cases hv with
  | constant hn' => cases hn.symm.trans hn'; rfl
  | null hn' => cases hn.symm.trans hn'
  | scalar hn' => cases hn.symm.trans hn'
  | object ha =>
    obtain ⟨_, _, _, hn'⟩ := hm.composite ha
    cases hn.symm.trans hn'

theorem Mirrored.object (hn : g.get? n = some (.composite declared runtime content)) :
    ∃ a o slots, v = .object a ∧ h.get? a = some o ∧ o.slots? types = some slots ∧
      Fits types g n content o.type runtime ∧ Slots.Rel (Shows g at_) slots content.slots := by
  obtain ⟨a, rfl, ha⟩ := hv.exists_object hn
  obtain ⟨o, slots, _, _, _, ho, hslots, hn', hfits, hrel⟩ := hm a n ha
  cases hn.symm.trans hn'
  exact ⟨a, o, slots, rfl, ho, hslots, hfits, hrel⟩

end

/-! ### Plain values -/

theorem inspect_object_ne_plain (id : ObjectId) (p : Plain) : h.inspect types (.object id) ≠ .plain p := by
  unfold Heap.inspect
  dsimp only
  split
  · simp
  · split <;> simp

/-- What is no object is paired with itself only, and leaves the worklist as it was. -/
theorem pair_plain {v : Value} (hv : v.object? = none) (w : Value) (work : Worklist Value Value) :
    DeepEquality.pair (h.structure types) (h.structure types) v w work = (decide (v = w), work) := by
  have hidentity : h.identity v = none := by
    cases v with
    | object => cases hv
    | null | scalar | constant => rfl
  unfold DeepEquality.pair Heap.structure
  simp only [hidentity]
  cases w with
  | object id =>
    have hne : v ≠ .object id := by
      rintro rfl
      cases hv
    cases hinspect : h.inspect types (.object id) with
    | plain p => exact absurd hinspect (inspect_object_ne_plain id p)
    | composite | unreadable => simp [hne]
  | null | scalar | constant =>
    cases v with
    | object => cases hv
    | null | scalar | constant => simp [Heap.inspect, beq_eq_decide]

theorem drain_empty :
    (DeepEquality.drain (h.structure types) (h.structure types) .empty).1 = true := by
  unfold DeepEquality.drain
  cases hb : (h.structure types).bound * (h.structure types).bound <;>
    simp [Worklist.empty, DeepEquality.drainUpTo]

theorem equal_plain {v : Value} (hv : v.object? = none) (w : Value) : h.equal types v w = decide (v = w) := by
  unfold Heap.equal DeepEquality.equals
  rw [pair_plain hv]
  cases decide (v = w) with
  | true => exact drain_empty
  | false => rfl

theorem accepts_equal_plain {v : Value} (hv : v.object? = none) (w : Value) :
    accepts h types (.equalTo v) w = true ↔ w = v := by
  rw [accepts, equal_plain hv, decide_eq_true_iff, eq_comm]

theorem accepts_null_value (w : Value) : accepts h types .nullValue w = true ↔ w = .null := by
  rw [accepts, beq_iff_eq]

theorem accepts_literal (hm : Mirrored types g h at_) {type : Ty} {l : Literal} {n : NodeId}
    (hn : g.get? n = some (.atom (.literal type l))) : Accepts types g h at_ (.equalTo (.scalar l)) n := by
  intro v hv
  exact (accepts_equal_plain rfl v).2 (hm.eq_scalar hv hn)

theorem accepts_null (hm : Mirrored types g h at_) {type : Ty} {n : NodeId}
    (hn : g.get? n = some (.atom (.null type))) : Accepts types g h at_ .nullValue n := by
  intro v hv
  exact (accepts_null_value v).2 (hm.eq_null hv hn)

theorem accepts_constant (hm : Mirrored types g h at_) {declared runtime : Ty} {name : String} {n : NodeId}
    (hn : g.get? n = some (.constant declared runtime name)) :
    Accepts types g h at_ (.equalTo (.constant runtime.erasure.erasure.text name)) n := by
  intro v hv
  exact (accepts_equal_plain rfl v).2 (hm.eq_constant hv hn)

/-! ### Collections -/

theorem parts?_eq_some {shapes : List Shape} (hshapes : Shape.object ∉ shapes) {v : Value} {items : List Value} :
    parts? h types shapes v = some items ↔
      ∃ id o, v = .object id ∧ h.get? id = some o ∧ o.locked = false ∧ o.body.shape ∈ shapes ∧
        o.body.values = items := by
  cases v with
  | null | scalar | constant => simp [parts?]
  | object id =>
    cases ho : h.get? id with
    | none => simp [parts?, Heap.slots?, ho]
    | some o =>
      cases hslots : o.slots? types with
      | none =>
        have hlocked : o.locked = true := by simpa [hslots] using Obj.slots?_isSome (o := o) types
        simp [parts?, Heap.slots?, ho, hslots, hlocked]
      | some slots =>
        have hlocked : o.locked = false := Obj.unlocked_of_slots? hslots
        simp only [parts?, Heap.slots?, ho, hslots, Obj.shape_of_slots? hslots]
        by_cases hshape : o.body.shape ∈ shapes
        · rw [if_pos hshape, Obj.nodes_of_slots? hslots fun heq => hshapes (heq ▸ hshape)]
          simp [ho, hlocked, hshape]
        · simp [ho, hshape]

theorem parts_of_shows (hm : Mirrored types g h at_) {shapes : List Shape} {declared runtime : Ty}
    {content : Content} {n : NodeId} (hn : g.get? n = some (.composite declared runtime content))
    (hshape : content.slots.shape ∈ shapes) {v : Value} (hv : Shows g at_ v n) :
    ∃ items, parts? h types shapes v = some items ∧ List.Forall₂ (Shows g at_) items content.children := by
  obtain ⟨a, o, slots, rfl, ho, hslots, _, hrel⟩ := hm.object hv hn
  refine ⟨slots.nodes, ?_, Content.nodes_slots content ▸ hrel.nodes⟩
  unfold parts?
  simp only [Heap.slots?, ho, hslots]
  rw [if_pos (hrel.1 ▸ hshape)]

theorem accepts_of_shows {ps : List Matcher} {ns : List NodeId} {vs : List Value}
    (hps : List.Forall₂ (Accepts types g h at_) ps ns) (hvs : List.Forall₂ (Shows g at_) vs ns) :
    List.Forall₂ (fun p v => accepts h types p v = true) ps vs :=
  (forall₂_join hps hvs).imp fun _ v ⟨_, hp, hv⟩ => hp v hv

theorem acceptsEach_iff {ps : List Matcher} {vs : List Value} (hlen : vs.length = ps.length) :
    acceptsEach h types ps vs = true ↔ List.Forall₂ (fun p v => accepts h types p v = true) ps vs := by
  induction ps generalizing vs with
  | nil =>
    cases List.length_eq_zero_iff.1 hlen
    simp [acceptsEach]
  | cons p ps ih =>
    cases vs with
    | nil => cases hlen
    | cons v vs => rw [acceptsEach, Bool.and_eq_true, ih (Nat.succ.inj hlen), List.forall₂_cons]

/-- Matchers for the parts in order accept what has such parts, if they accept these one by one. -/
theorem accepts_each_iff {shapes : List Shape} {ps : List Matcher} {v : Value} :
    (match parts? h types shapes v with
      | some items => items.length == ps.length && acceptsEach h types ps items
      | none => false) = true ↔
      ∃ items, parts? h types shapes v = some items ∧
        List.Forall₂ (fun p w => accepts h types p w = true) ps items := by
  cases parts? h types shapes v with
  | none => simp
  | some items =>
    simp only [Bool.and_eq_true, beq_iff_eq, Option.some.injEq, exists_eq_left']
    exact ⟨fun ⟨hlen, heach⟩ => (acceptsEach_iff hlen).1 heach,
      fun heach => ⟨heach.length_eq.symm, (acceptsEach_iff heach.length_eq.symm).2 heach⟩⟩

/-- Matchers for the parts in any order accept what has such parts, if these can be matched up. -/
theorem accepts_matched_iff {α β : Type} {f : α → β → Bool} {ps : List α} {items : List β} :
    (items.length == ps.length && Pairing.perfect (ps.map fun p => items.map (f p))) = true ↔
      Matched (fun p w => f p w = true) ps items := by
  simp only [Bool.and_eq_true, beq_iff_eq]
  exact ⟨fun ⟨hlen, hperfect⟩ => (Pairing.perfect_iff_matched hlen.symm).1 hperfect,
    fun hmatched => ⟨hmatched.length_eq.symm, (Pairing.perfect_iff_matched hmatched.length_eq).2 hmatched⟩⟩

theorem accepts_in_order_iff {ps : List Matcher} {v : Value} : accepts h types (.inOrder ps) v = true ↔
    ∃ items, parts? h types [.list, .set] v = some items ∧
      List.Forall₂ (fun p w => accepts h types p w = true) ps items := by
  rw [accepts]
  exact accepts_each_iff

theorem accepts_array_of_iff {ps : List Matcher} {v : Value} : accepts h types (.arrayOf ps) v = true ↔
    ∃ items, parts? h types [.array] v = some items ∧
      List.Forall₂ (fun p w => accepts h types p w = true) ps items := by
  rw [accepts]
  exact accepts_each_iff

theorem elementTable_eq (ps : List Matcher) (vs : List Value) :
    elementTable h types ps vs = ps.map fun p => vs.map fun v => accepts h types p v := by
  induction ps with
  | nil => rfl
  | cons p ps ih => rw [elementTable, ih, List.map_cons]

theorem accepts_any_order_iff {ps : List Matcher} {v : Value} : accepts h types (.anyOrder ps) v = true ↔
    ∃ items, parts? h types [.list, .set, .array] v = some items ∧
      Matched (fun p w => accepts h types p w = true) ps items := by
  rw [accepts]
  cases parts? h types [.list, .set, .array] v with
  | none => simp
  | some items =>
    simp only [elementTable_eq, Option.some.injEq, exists_eq_left']
    exact accepts_matched_iff

section

variable {declared runtime : Ty} {elements : List NodeId} {n : NodeId} {ps : List Matcher}

theorem accepts_array (hm : Mirrored types g h at_)
    (hn : g.get? n = some (.composite declared runtime (.array elements)))
    (hps : List.Forall₂ (Accepts types g h at_) ps elements) : Accepts types g h at_ (.arrayOf ps) n := by
  intro v hv
  obtain ⟨items, hparts, hitems⟩ := parts_of_shows hm hn (List.mem_singleton_self _) hv
  exact accepts_array_of_iff.2 ⟨items, hparts, accepts_of_shows hps hitems⟩

theorem accepts_list (hm : Mirrored types g h at_)
    (hn : g.get? n = some (.composite declared runtime (.list elements)))
    (hps : List.Forall₂ (Accepts types g h at_) ps elements) : Accepts types g h at_ (.inOrder ps) n := by
  intro v hv
  obtain ⟨items, hparts, hitems⟩ := parts_of_shows hm hn List.mem_cons_self hv
  exact accepts_in_order_iff.2 ⟨items, hparts, accepts_of_shows hps hitems⟩

theorem accepts_set (hm : Mirrored types g h at_)
    (hn : g.get? n = some (.composite declared runtime (.set elements)))
    (hps : List.Forall₂ (Accepts types g h at_) ps elements) : Accepts types g h at_ (.anyOrder ps) n := by
  intro v hv
  obtain ⟨items, hparts, hitems⟩ := parts_of_shows hm hn (List.mem_cons_of_mem _ List.mem_cons_self) hv
  exact accepts_any_order_iff.2 ⟨items, hparts, items, accepts_of_shows hps hitems, .refl items⟩

end

/-! ### Maps -/

theorem entryTable_eq (ps : List (Matcher × Matcher)) (vs : List (Value × Value)) :
    entryTable h types ps vs =
      ps.map fun p => vs.map fun v => accepts h types p.1 v.1 && accepts h types p.2 v.2 := by
  induction ps with
  | nil => rfl
  | cons p ps ih =>
    obtain ⟨k, m⟩ := p
    rw [entryTable, ih, List.map_cons]

theorem accepts_map_of_iff {ps : List (Matcher × Matcher)} {v : Value} :
    accepts h types (.mapOf ps) v = true ↔ ∃ items, parts? h types [.map] v = some items ∧
      Matched (fun p x => accepts h types p.1 x.1 = true ∧ accepts h types p.2 x.2 = true) ps
        (DeepEquality.unzipEntries items) := by
  rw [accepts]
  cases parts? h types [.map] v with
  | none => simp
  | some items =>
    simp only [entryTable_eq, Option.some.injEq, exists_eq_left']
    rw [accepts_matched_iff]
    simp only [Bool.and_eq_true]

theorem accepts_map (hm : Mirrored types g h at_) {declared runtime : Ty} {entries : List (NodeId × NodeId)}
    {n : NodeId} (hn : g.get? n = some (.composite declared runtime (.map entries)))
    {ps : List (Matcher × Matcher)}
    (hps : List.Forall₂ (fun p e => Accepts types g h at_ p.1 e.1 ∧ Accepts types g h at_ p.2 e.2)
      ps entries) : Accepts types g h at_ (.mapOf ps) n := by
  intro v hv
  obtain ⟨items, hparts, hitems⟩ := parts_of_shows hm hn (List.mem_singleton_self _) hv
  have hentries : List.Forall₂ (fun e x => Shows g at_ e.1 x.1 ∧ Shows g at_ e.2 x.2)
      (DeepEquality.unzipEntries items) entries := by
    have hunzip := DeepEquality.unzipEntries_forall₂ hitems
    rwa [show (Content.map entries).children = entries.flatMap fun e => [e.1, e.2] from rfl,
      DeepEquality.unzipEntries_flatMap] at hunzip
  have hboth : List.Forall₂ (fun (p : Matcher × Matcher) (e : Value × Value) =>
      accepts h types p.1 e.1 = true ∧ accepts h types p.2 e.2 = true) ps
      (DeepEquality.unzipEntries items) :=
    (forall₂_join hps hentries).imp fun _ e ⟨_, hp, he⟩ => ⟨hp.1 e.1 he.1, hp.2 e.2 he.2⟩
  exact accepts_map_of_iff.2 ⟨items, hparts, _, hboth, .refl _⟩

/-! ### Arrays of primitives -/

theorem map_literal?_eq {items : List Value} {ls : List Literal} :
    items.map Value.literal? = ls.map some ↔ items = ls.map .scalar := by
  have hliteral : ∀ (v : Value) (l : Literal), v.literal? = some l ↔ id v = .scalar l := by
    intro v l
    cases v <;> simp [Value.literal?]
  rw [show items = ls.map .scalar ↔ items.map id = ls.map .scalar by rw [List.map_id],
    map_eq_map_iff_forall₂, map_eq_map_iff_forall₂]
  simp only [hliteral]

theorem accepts_primitives_iff {kind : Primitive} {ls : List Literal} {v : Value} :
    accepts h types (.primitives kind ls) v = true ↔ componentOf? h v = some (.primitive kind) ∧
      parts? h types [.array] v = some (ls.map .scalar) := by
  rw [accepts, Bool.and_eq_true, beq_iff_eq, beq_iff_eq]
  cases parts? h types [.array] v with
  | none => simp
  | some items => simp [map_literal?_eq]

theorem accepts_primitives (hm : Mirrored types g h at_) {declared runtime : Ty} {elements : List NodeId}
    {n : NodeId} (hn : g.get? n = some (.composite declared runtime (.array elements)))
    {kind : Primitive} (hcomponent : runtime.component? = some (.primitive kind)) {ls : List Literal}
    (hls : List.Forall₂ (fun l e => ∃ type, g.get? e = some (.atom (.literal type l))) ls elements) :
    Accepts types g h at_ (.primitives kind ls) n := by
  intro v hv
  obtain ⟨items, hparts, hitems⟩ := parts_of_shows hm hn (List.mem_singleton_self _) hv
  obtain ⟨a, o, slots, rfl, ho, -, hfits, -⟩ := hm.object hv hn
  have htype : o.type.component? = some (.primitive kind) := hfits.component.trans hcomponent
  have hvalues : items = ls.map .scalar := by
    rw [← List.map_id items, eq_comm, map_eq_map_iff_forall₂]
    exact (forall₂_join hls hitems).imp fun l w ⟨e, ⟨type, he⟩, hw⟩ => (hm.eq_scalar hw he).symm
  exact accepts_primitives_iff.2 ⟨by simpa [componentOf?, ho] using htype, hvalues ▸ hparts⟩

/-! ### Classes -/

theorem accepts_instance (hm : Mirrored types g h at_) {declared runtime : Ty} {content : Content}
    {n : NodeId} (hn : g.get? n = some (.composite declared runtime content)) (hbelow : Below g n n) :
    Accepts types g h at_ (.instanceOf (types.publicSupertype runtime)) n := by
  intro v hv
  obtain ⟨a, o, slots, rfl, ho, -, hfits, -⟩ := hm.object hv hn
  unfold accepts isInstance
  simp only [Heap.typeOf?, ho, Option.map_some]
  exact hfits.assignable (.inr hbelow)

/-! ### Plain objects -/

/-- The first field of a name is the only one. -/
theorem field?_of_rel {slots : Slots Value} {fields : List NodeField}
    (hrel : Slots.Rel (Shows g at_) slots (Content.object fields).slots)
    (hnames : (fields.map (·.name)).Nodup) {f : NodeField} (hf : f ∈ fields) :
    ∃ v, slots.field? f.name = some v ∧ Shows g at_ v f.value := by
  have hentries := hrel.2
  unfold Slots.field?
  generalize slots.entries = entries at hentries
  simp only [Content.slots, List.forall₂_map_right_iff] at hentries
  clear hrel
  induction hentries with
  | nil => cases hf
  | @cons e x entries rest hhead _ ih =>
    rw [List.map_cons, List.nodup_cons] at hnames
    obtain ⟨slot, v⟩ := e
    obtain ⟨rfl, hv⟩ := hhead
    rcases List.mem_cons.1 hf with rfl | hrest
    · exact ⟨v, by simp [Slot.fieldName?], hv⟩
    · have hne : x.name ≠ f.name := fun heq => hnames.1 (heq ▸ List.mem_map_of_mem hrest)
      obtain ⟨w, hw, hshows⟩ := ih hnames.2 hrest
      exact ⟨w, by simpa [Slot.fieldName?, hne] using hw, hshows⟩

/-- The expectation is a literal that the node holds, or a matcher that tells of it. -/
def Expects (g : Graph) (tells : Matcher → NodeId → Prop) (e : String × (Value ⊕ Matcher))
    (f : NodeField) : Prop :=
  e.1 = f.name ∧
    match e.2 with
    | .inl v => ∃ type l, v = .scalar l ∧ g.get? f.value = some (.atom (.literal type l))
    | .inr p => tells p f.value

theorem Expects.imp {tells tells' : Matcher → NodeId → Prop} (h : ∀ p n, tells p n → tells' p n)
    {e : String × (Value ⊕ Matcher)} {f : NodeField} (he : Expects g tells e f) : Expects g tells' e f := by
  obtain ⟨name, v | p⟩ := e
  · exact he
  · exact ⟨he.1, h p f.value he.2⟩

/-- The first field of the name is as expected. -/
def Meets (h : Heap) (types : ClassTable) (slots : Slots Value) (e : String × (Value ⊕ Matcher)) : Prop :=
  ∃ w, slots.field? e.1 = some w ∧
    match e.2 with
    | .inl v => w = v
    | .inr p => accepts h types p w = true

/-- An expected value that is no object has to be the field's value itself. -/
theorem answers_iff_meets {slots : Slots Value} {e : String × (Value ⊕ Matcher)}
    (hplain : ∀ v, e.2 = .inl v → v.object? = none) : Answers h types slots e ↔ Meets h types slots e := by
  obtain ⟨name, v | p⟩ := e
  · refine exists_congr fun w => and_congr_right fun _ => ?_
    change h.equal types v w = true ↔ w = v
    rw [equal_plain (hplain v rfl), decide_eq_true_iff, eq_comm]
  · exact Iff.rfl

theorem Expects.plain {tells : Matcher → NodeId → Prop} {fields : List NodeField}
    {es : List (String × (Value ⊕ Matcher))} (hes : List.Forall₂ (Expects g tells) es fields) :
    ∀ e ∈ es, ∀ v, e.2 = .inl v → v.object? = none := by
  intro e he v hv
  obtain ⟨f, -, hexpects⟩ := forall₂_mem_left hes he
  obtain ⟨name, expected⟩ := e
  cases hv
  obtain ⟨type, l, rfl, -⟩ := hexpects.2
  rfl

theorem accepts_fieldwise_iff {exact : Bool} {type : Ty} {es : List (String × (Value ⊕ Matcher))} {v : Value}
    (hplain : ∀ e ∈ es, ∀ v, e.2 = .inl v → v.object? = none) :
    accepts h types (.fieldwise exact type es) v = true ↔
      ∃ slots, acceptedSlots? h types exact type v = some slots ∧ ∀ e ∈ es, Meets h types slots e := by
  rw [accepts_fieldwise_answers]
  refine exists_congr fun slots => and_congr_right fun _ => forall₂_congr fun e he => ?_
  exact answers_iff_meets (hplain e he)

theorem accepts_fieldwise (hm : Mirrored types g h at_) {declared runtime : Ty} {fields : List NodeField}
    {n : NodeId} (hn : g.get? n = some (.composite declared runtime (.object fields)))
    (hnames : (fields.map (·.name)).Nodup) {exact : Bool} {type : Ty}
    (htype : ∀ actual, Fits types g n (.object fields) actual runtime →
      (if exact then decide (actual.erasure = type.erasure) else types.isAssignable actual type) = true)
    {es : List (String × (Value ⊕ Matcher))}
    (hes : List.Forall₂ (Expects g (Accepts types g h at_)) es fields) :
    Accepts types g h at_ (.fieldwise exact type es) n := by
  intro v hv
  obtain ⟨a, o, slots, rfl, ho, hslots, hfits, hrel⟩ := hm.object hv hn
  have haccepted : acceptedSlots? h types exact type (.object a) = some slots := by
    simp only [acceptedSlots?, ho, htype o.type hfits, if_true, hslots]
  refine (accepts_fieldwise_iff (Expects.plain hes)).2 ⟨slots, haccepted, fun e he => ?_⟩
  obtain ⟨f, hf, hname, hexpected⟩ := forall₂_mem_left hes he
  obtain ⟨w, hw, hshows⟩ := field?_of_rel hrel hnames hf
  refine ⟨w, hname ▸ hw, ?_⟩
  split
  · next hlit =>
    rw [hlit] at hexpected
    obtain ⟨type, l, rfl, hliteral⟩ := hexpected
    exact hm.eq_scalar hshows hliteral
  · next p hmatcher =>
    rw [hmatcher] at hexpected
    exact hexpected w hshows

end Reenact.Matcher
