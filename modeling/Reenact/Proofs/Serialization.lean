import Mathlib
import Reenact.Capture.Serializer
import Reenact.Proofs.Assoc
import Reenact.Proofs.Effect
import Reenact.Proofs.Graph
import Reenact.Proofs.Reachability
import Reenact.Proofs.Slots

/-!
What the standard serializers make of a readable value: they always succeed, and every object they
meet becomes one node, which shows the slots of the object.
-/

namespace Reenact

namespace Heap

variable {h : Heap} {v : Value} {id : ObjectId}

/-- Every object reachable from the value exists and is not being written to. -/
def Readable (h : Heap) (v : Value) : Prop :=
  ∀ id ∈ h.reachable v, (h.get? id).any fun o => !o.locked

instance (h : Heap) (v : Value) : Decidable (h.Readable v) :=
  inferInstanceAs (Decidable (∀ id ∈ h.reachable v, _))

theorem Readable.get? (hv : h.Readable (.object id)) : ∃ o, h.get? id = some o ∧ o.locked = false := by
  have hid := hv id (mem_reachable.2 ⟨id, rfl, .refl⟩)
  cases ho : h.get? id with
  | none => simp [ho] at hid
  | some o => exact ⟨o, rfl, by simpa [ho] using hid⟩

theorem readable_of_object?_eq_none (hv : v.object? = none) : h.Readable v := by
  cases v with
  | object => cases hv
  | null => simp [Readable, reachable]
  | scalar => simp [Readable, reachable]
  | constant => simp [Readable, reachable]

theorem Readable.part {o : Obj} (hv : h.Readable (.object id)) (ho : h.get? id = some o)
    {w : Value} (hw : w ∈ o.body.values) : h.Readable w := by
  cases hobj : w.object? with
  | none => exact readable_of_object?_eq_none hobj
  | some child =>
    intro a ha
    obtain ⟨root, rfl, hlead⟩ := mem_reachable.1 ha
    refine hv a (mem_reachable.2 ⟨id, rfl, .head ?_ hlead⟩)
    rw [references_of_get? ho]
    exact List.mem_filterMap.2 ⟨_, hw, rfl⟩

/-- The slots show parts of the object and values without parts. -/
theorem Readable.slot {o : Obj} (hv : h.Readable (.object id)) (ho : h.get? id = some o)
    {types : ClassTable} {slots : Slots Value} (hs : o.slots? types = some slots)
    {e : Slot × Value} (he : e ∈ slots.entries) : h.Readable e.2 :=
  (Obj.mem_slots hs he).elim (hv.part ho) readable_of_object?_eq_none

end Heap

/-- The type of a captured literal is its own class or its primitive type. -/
def Literal.HasType (l : Literal) (type : Ty) : Prop :=
  type = l.naturalType ∨ ∃ kind, type = .primitive kind ∧ l.kind? = some kind

/-- The node shows the value: the same plain value, or the node an object became. -/
inductive Shows (g : Graph) (met : ObjectId → NodeId → Prop) : Value → NodeId → Prop where
  | null {type n} : g.get? n = some (.atom (.null type)) → Shows g met .null n
  | scalar {type l n} : g.get? n = some (.atom (.literal type l)) → l.HasType type →
      Shows g met (.scalar l) n
  | constant {declared type name n} :
      g.get? n = some (.constant declared (.ofClass type) name) → Shows g met (.constant type name) n
  | object {id n} : met id n → Shows g met (.object id) n

/-- The node is a composite of the object's class with the object's slots. -/
def Holds (h : Heap) (types : ClassTable) (g : Graph) (met : ObjectId → NodeId → Prop)
    (id : ObjectId) (n : NodeId) : Prop :=
  ∃ o slots declared content, h.get? id = some o ∧ o.slots? types = some slots ∧
    g.get? n = some (.composite declared o.type content) ∧
      Slots.Rel (Shows g met) slots content.slots

section

variable {h : Heap} {types : ClassTable} {g g' : Graph} {met met' : ObjectId → NodeId → Prop}

/-- Whatever happens to composite nodes, plain values stay shown. -/
theorem Shows.mono {v : Value} {n : NodeId}
    (hg : ∀ {n x}, g.get? n = some x → x.isReference = false → g'.get? n = some x)
    (hmet : ∀ {id n}, met id n → met' id n) (hv : Shows g met v n) : Shows g' met' v n := by
  cases hv with
  | null hn => exact .null (hg hn rfl)
  | scalar hn hl => exact .scalar (hg hn rfl) hl
  | constant hn => exact .constant (hg hn rfl)
  | object hid => exact .object (hmet hid)

theorem Shows.exists_object {v : Value} {n : NodeId} (hv : Shows g met v n) {declared runtime : Ty}
    {content : Content} (hn : g.get? n = some (.composite declared runtime content)) :
    ∃ id, v = .object id ∧ met id n := by
  cases hv with
  | null hn' => cases hn.symm.trans hn'
  | scalar hn' => cases hn.symm.trans hn'
  | constant hn' => cases hn.symm.trans hn'
  | object hm => exact ⟨_, rfl, hm⟩

theorem Holds.mono {id : ObjectId} {n : NodeId}
    (hg : ∀ {n x}, g.get? n = some x → g'.get? n = some x)
    (hmet : ∀ {id n}, met id n → met' id n) (hn : Holds h types g met id n) :
    Holds h types g' met' id n := by
  obtain ⟨o, slots, declared, content, ho, hslots, hnode, hrel⟩ := hn
  exact ⟨o, slots, declared, content, ho, hslots, hg hnode,
    hrel.imp fun _ _ => Shows.mono (fun hx _ => hg hx) hmet⟩

end

/-- Every object with a node has one node of its own, which holds its slots. -/
structure Captured (h : Heap) (types : ClassTable) (g : Graph) (met : ObjectId → NodeId → Prop) :
    Prop where
  holds : ∀ {id n}, met id n → Holds h types g met id n
  injective : ∀ {a b n}, met a n → met b n → a = b
  functional : ∀ {id m n}, met id m → met id n → m = n

theorem Captured.mono {h : Heap} {types : ClassTable} {g g' : Graph}
    {met : ObjectId → NodeId → Prop} (hc : Captured h types g met)
    (hg : ∀ {n x}, g.get? n = some x → g'.get? n = some x) : Captured h types g' met where
  holds hm := (hc.holds hm).mono hg fun hm => hm
  injective := hc.injective
  functional := hc.functional

namespace Serialization

def standard : SerializerRegistry := ⟨⟨standardSerializers⟩, true⟩

/-- The default serializers with the fallback on make the standard registry. -/
theorem build_standard : Registry.build [] standardSerializers true = .ok standard := rfl

/-- The object was met and became the node. -/
def State.Met (s : State) (id : ObjectId) (n : NodeId) : Prop := findValue? id s.identities = some n

structure Tidy (s : State) : Prop where
  lt_size : ∀ {id n}, s.Met id n → n < s.graph.size
  injective : ∀ {a b n}, s.Met a n → s.Met b n → a = b

theorem tidy_of_identities_eq_nil {s : State} (hs : s.identities = []) : Tidy s where
  lt_size hm := by unfold State.Met at hm; rw [hs] at hm; cases hm
  injective hm := by unfold State.Met at hm; rw [hs] at hm; cases hm

variable (h : Heap) (types : ClassTable)

/-- What serializing leaves of a state: nodes and identities stay, and objects met on the way hold
their slots in new nodes. -/
structure Grows (s t : State) : Prop where
  node : ∀ {n x}, s.graph.get? n = some x → t.graph.get? n = some x
  met : ∀ {id n}, s.Met id n → t.Met id n
  new : ∀ {id n}, t.Met id n →
    s.Met id n ∨ s.graph.size ≤ n ∧ Holds h types t.graph t.Met id n

variable {h types}

theorem Grows.size_le {s t : State} (hst : Grows h types s t) : s.graph.size ≤ t.graph.size := by
  by_contra hlt
  have hsome := Graph.get?_isSome.2 (Nat.lt_of_not_le hlt)
  obtain ⟨x, hx⟩ := Option.isSome_iff_exists.1 hsome
  exact absurd (Graph.lt_size (hst.node hx)) (Nat.lt_irrefl _)

theorem Grows.refl (s : State) : Grows h types s s where
  node hx := hx
  met hm := hm
  new hm := .inl hm

theorem Grows.trans {s t u : State} (hst : Grows h types s t) (htu : Grows h types t u) :
    Grows h types s u where
  node hx := htu.node (hst.node hx)
  met hm := htu.met (hst.met hm)
  new hm := by
    rcases htu.new hm with hm | ⟨hle, hholds⟩
    · exact (hst.new hm).imp_right fun hnew => ⟨hnew.1, hnew.2.mono htu.node htu.met⟩
    · exact .inr ⟨hst.size_le.trans hle, hholds⟩

theorem Grows.shows {s t : State} (hst : Grows h types s t) {v : Value} {n : NodeId}
    (hv : Shows s.graph s.Met v n) : Shows t.graph t.Met v n :=
  hv.mono (fun hx _ => hst.node hx) hst.met

theorem Grows.captured {s t : State} (hst : Grows h types s t) (hs : s.identities = [])
    (ht : Tidy t) : Captured h types t.graph t.Met where
  holds hm := by
    rcases hst.new hm with hold | ⟨_, hholds⟩
    · unfold State.Met at hold
      rw [hs] at hold
      cases hold
    · exact hholds
  injective := ht.injective
  functional hm hn := Option.some.inj (hm.symm.trans hn)

/-- The objects of the heap that were not met. -/
def unmet (h : Heap) (s : State) : Finset ObjectId :=
  (Finset.range h.size).filter fun id => findValue? id s.identities = none

theorem Grows.unmet_subset {s t : State} (hst : Grows h types s t) : unmet h t ⊆ unmet h s := by
  intro id hid
  simp only [unmet, Finset.mem_filter] at hid ⊢
  refine ⟨hid.1, ?_⟩
  cases hs : findValue? id s.identities with
  | none => rfl
  | some n => cases hid.2.symm.trans (hst.met hs)

theorem Grows.unmet_le {s t : State} (hst : Grows h types s t) :
    (unmet h t).card ≤ (unmet h s).card :=
  Finset.card_le_card hst.unmet_subset

theorem grows_push {s t : State} (n : Node) (hgraph : t.graph = (s.graph.push n).1)
    (hids : t.identities = s.identities) : Grows h types s t where
  node {m x} hx := by
    rw [hgraph, Graph.get?_push, if_neg (Nat.ne_of_lt (Graph.lt_size hx))]
    exact hx
  met hm := by unfold State.Met; rw [hids]; exact hm
  new hm := by unfold State.Met at hm; rw [hids] at hm; exact .inl hm

theorem tidy_push {s t : State} (n : Node) (hs : Tidy s) (hgraph : t.graph = (s.graph.push n).1)
    (hids : t.identities = s.identities) : Tidy t where
  lt_size hm := by
    unfold State.Met at hm
    rw [hids] at hm
    rw [hgraph, Graph.size_push]
    exact Nat.lt_succ_of_lt (hs.lt_size hm)
  injective ha hb := by
    unfold State.Met at ha hb
    rw [hids] at ha hb
    exact hs.injective ha hb

/-! ### Steps -/

variable {α β : Type} {depth : Nat}

variable (h types) in
/-- From every tidy state with fewer than `depth` objects to meet, the step succeeds, and its result
is as `post` says. -/
def Succeeds (depth : Nat) (x : Serialize α) (post : State → α → Prop) : Prop :=
  ∀ s, Tidy s → (unmet h s).card < depth →
    ∃ a t, x s = (.ok a, t) ∧ Grows h types s t ∧ Tidy t ∧ post t a

theorem Succeeds.map {x : Serialize α} {f : α → β} {post : State → α → Prop}
    {post' : State → β → Prop} (hx : Succeeds h types depth x post)
    (hf : ∀ t a, post t a → post' t (f a)) : Succeeds h types depth (f <$> x) post' := by
  intro s hs hd
  obtain ⟨a, t, hrun, hgrows, ht, hpost⟩ := hx s hs hd
  exact ⟨f a, t, Effect.map_of_ok hrun, hgrows, ht, hf t a hpost⟩

theorem Succeeds.bind {x : Serialize α} {f : α → Serialize β} {post : State → α → Prop}
    {post' : State → β → Prop} (hx : Succeeds h types depth x post)
    (hf : ∀ a, Succeeds h types depth (f a) fun u b => ∀ t, Grows h types t u → post t a → post' u b) :
    Succeeds h types depth (x >>= f) post' := by
  intro s hs hd
  obtain ⟨a, t, hrun, hst, ht, hpost⟩ := hx s hs hd
  obtain ⟨b, u, hrun', htu, hu, hpost'⟩ := hf a t ht (hst.unmet_le.trans_lt hd)
  exact ⟨b, u, (Effect.bind_of_ok hrun).trans hrun', hst.trans htu, hu, hpost' t htu hpost⟩

theorem Succeeds.pure {a : α} {post : State → α → Prop} (hpost : ∀ t, post t a) :
    Succeeds h types depth (pure a) post :=
  fun s hs _ => ⟨a, s, rfl, .refl s, hs, hpost s⟩

theorem Succeeds.mapM {f : α → Serialize β} {post : State → α → β → Prop} {as : List α}
    (hpost : ∀ {s t a b}, Grows h types s t → post s a b → post t a b)
    (hf : ∀ a ∈ as, Succeeds h types depth (f a) fun t b => post t a b) :
    Succeeds h types depth (as.mapM f) fun t bs => List.Forall₂ (post t) as bs := by
  induction as with
  | nil => exact .pure fun _ => .nil
  | cons a as ih =>
    rw [List.mapM_cons]
    refine (hf a List.mem_cons_self).bind fun b => ?_
    refine (ih fun a' ha' => hf a' (List.mem_cons_of_mem _ ha')).bind fun bs => ?_
    exact .pure fun _ _ htail hbs _ hhead hb => .cons (hpost hhead hb) (hbs.imp fun _ _ => hpost htail)

theorem atom_succeeds (a : Atom) :
    Succeeds h types depth (atom a) fun t n => t.graph.get? n = some (.atom a) := by
  intro s hs hd
  cases found : s.graph.atomId? a with
  | some n =>
    have hrun : atom a s = (.ok n, s) := by
      unfold atom
      rw [Effect.bind_of_ok (Effect.get_apply s)]
      simp only [found]
      rfl
    exact ⟨n, s, hrun, .refl s, hs, Graph.get?_of_atomId? found⟩
  | none =>
    let t : State :=
      { s with graph := (s.graph.push (.atom a)).1, interner := (s.interner.intern a).1 }
    have hrun : atom a s = (.ok s.graph.size, t) := by
      unfold atom
      rw [Effect.bind_of_ok (Effect.get_apply s)]
      simp only [found]
      rfl
    exact ⟨s.graph.size, t, hrun, grows_push (.atom a) rfl rfl, tidy_push (.atom a) hs rfl rfl, by
      simp [t, Graph.get?_push]⟩

theorem push_succeeds (n : Node) :
    Succeeds h types depth (push n) fun t id => t.graph.get? id = some n := by
  intro s hs _
  exact ⟨s.graph.size, { s with graph := (s.graph.push n).1 }, rfl, grows_push n rfl rfl,
    tidy_push n hs rfl rfl, by simp [Graph.get?_push]⟩

/-- The state in which an object has become the empty node at the end of the graph. -/
def State.reserved (s : State) (id : ObjectId) (declared runtime : Ty) (blank : Content) : State :=
  { s with
    graph := (s.graph.push (.composite declared runtime blank)).1
    identities := putEntry id s.graph.size s.identities }

def State.filled (s : State) (n : NodeId) (content : Content) : State :=
  { s with graph := s.graph.setContent n content }

theorem composite_apply {id : ObjectId} {o : Obj} {declared : Ty} {blank content : Content}
    {parts : Serialize Content} {s t : State}
    (hparts : parts (s.reserved id declared o.type blank) = (.ok content, t)) :
    composite id o declared blank parts s =
      (.ok s.graph.size, t.filled s.graph.size content) := by
  have hreserve : reserve id declared o.type blank s =
      (.ok s.graph.size, s.reserved id declared o.type blank) := rfl
  unfold composite
  rw [Effect.bind_of_ok hreserve, Effect.bind_of_ok hparts]
  rfl

section

variable {s t : State} {id : ObjectId} {declared runtime : Ty} {blank content : Content}

theorem reserved_met {a : ObjectId} {n : NodeId} :
    (s.reserved id declared runtime blank).Met a n ↔
      a = id ∧ n = s.graph.size ∨ a ≠ id ∧ s.Met a n := by
  unfold State.Met State.reserved
  rw [findValue?_putEntry]
  by_cases ha : a = id
  · simp [ha, eq_comm]
  · simp [ha]

theorem reserved_size :
    (s.reserved id declared runtime blank).graph.size = s.graph.size + 1 := Graph.size_push _

theorem reserved_tidy (hs : Tidy s) : Tidy (s.reserved id declared runtime blank) where
  lt_size {a n} hm := by
    rw [reserved_size]
    rcases reserved_met.1 hm with ⟨_, rfl⟩ | ⟨_, hm⟩
    · exact Nat.lt_succ_self _
    · exact Nat.lt_succ_of_lt (hs.lt_size hm)
  injective {a b n} ha hb := by
    rcases reserved_met.1 ha with ⟨rfl, rfl⟩ | ⟨_, holda⟩
    · rcases reserved_met.1 hb with ⟨rfl, _⟩ | ⟨_, holdb⟩
      · rfl
      · exact absurd (hs.lt_size holdb) (Nat.lt_irrefl _)
    · rcases reserved_met.1 hb with ⟨rfl, rfl⟩ | ⟨_, holdb⟩
      · exact absurd (hs.lt_size holda) (Nat.lt_irrefl _)
      · exact hs.injective holda holdb

theorem unmet_reserved (declared runtime : Ty) (blank : Content) (hid : id ∈ unmet h s) :
    (unmet h (s.reserved id declared runtime blank)).card < (unmet h s).card := by
  refine Finset.card_lt_card ((Finset.ssubset_iff_of_subset ?_).2 ⟨id, hid, ?_⟩)
  · intro a ha
    simp only [unmet, State.reserved, findValue?_putEntry, Finset.mem_filter] at ha ⊢
    refine ⟨ha.1, ?_⟩
    have hnone := ha.2
    split at hnone
    · cases hnone
    · exact hnone
  · simp [unmet, State.reserved]

/-- Filling the reserved node with what shows the slots of its object completes it. -/
theorem filled_grows {o : Obj} {slots : Slots Value} (ho : h.get? id = some o)
    (hslots : o.slots? types = some slots) (hnew : ∀ n, ¬ s.Met id n)
    (hst : Grows h types (s.reserved id declared o.type blank) t)
    (hrel : Slots.Rel (Shows t.graph t.Met) slots content.slots) :
    Grows h types s (t.filled s.graph.size content) := by
  have hnode : t.graph.get? s.graph.size = some (.composite declared o.type blank) :=
    hst.node (by simp [State.reserved, Graph.get?_push])
  have hkept : ∀ {n x}, n ≠ s.graph.size → t.graph.get? n = some x →
      (t.filled s.graph.size content).graph.get? n = some x := by
    intro n x hne hx
    exact (Graph.get?_setContent_of_ne content hne).trans hx
  have hshows : Slots.Rel (Shows (t.filled s.graph.size content).graph t.Met) slots content.slots :=
    hrel.imp fun _ _ => Shows.mono
      (fun hx hplain => Graph.get?_setContent_of_not_isReference content hx hplain) fun hm => hm
  refine ⟨fun {n x} hx => ?_, fun {a n} hm => ?_, fun {a n} hm => ?_⟩
  · have hlt := Graph.lt_size hx
    refine hkept (Nat.ne_of_lt hlt) (hst.node ?_)
    simpa [State.reserved, Graph.get?_push, Nat.ne_of_lt hlt] using hx
  · refine hst.met (reserved_met.2 (.inr ⟨?_, hm⟩))
    rintro rfl
    exact hnew n hm
  · rcases hst.new hm with hm | ⟨hle, hholds⟩
    · rcases reserved_met.1 hm with ⟨rfl, rfl⟩ | ⟨_, hm⟩
      · exact .inr ⟨le_rfl, o, slots, declared, content, ho, hslots,
          Graph.get?_setContent content hnode, hshows⟩
      · exact .inl hm
    · rw [reserved_size] at hle
      obtain ⟨o', slots', declared', content', ho', hslots', hnode', hrel'⟩ := hholds
      refine .inr ⟨Nat.le_of_succ_le hle, o', slots', declared', content', ho', hslots',
        hkept (Nat.ne_of_gt hle) hnode', ?_⟩
      exact hrel'.imp fun _ _ => Shows.mono
        (fun hx hplain => Graph.get?_setContent_of_not_isReference content hx hplain) fun hm => hm

/-- The object has become its node when the node is filled. -/
theorem filled_met {o : Obj} {slots : Slots Value} (ho : h.get? id = some o)
    (hslots : o.slots? types = some slots) (hnew : findValue? id s.identities = none)
    (hst : Grows h types (s.reserved id declared o.type blank) t) (ht : Tidy t)
    (hrel : Slots.Rel (Shows t.graph t.Met) slots content.slots) :
    Grows h types s (t.filled s.graph.size content) ∧ Tidy (t.filled s.graph.size content) ∧
      (t.filled s.graph.size content).Met id s.graph.size := by
  refine ⟨filled_grows ho hslots (fun n hm => ?_) hst hrel, ⟨?_, ?_⟩, ?_⟩
  · cases hnew.symm.trans hm
  · intro a n hm
    exact (Graph.size_setContent content).symm ▸ ht.lt_size hm
  · intro a b n ha hb
    exact ht.injective ha hb
  · exact hst.met (reserved_met.2 (.inl ⟨rfl, rfl⟩))

end

theorem composite_succeeds {id : ObjectId} {o : Obj} {slots : Slots Value} {declared : Ty}
    {blank : Content} {parts : Serialize Content} {s : State} (ho : h.get? id = some o)
    (hslots : o.slots? types = some slots)
    (hparts : Succeeds h types depth parts fun t content =>
      Slots.Rel (Shows t.graph t.Met) slots content.slots)
    (hs : Tidy s) (hd : (unmet h s).card < depth + 1)
    (hnew : findValue? id s.identities = none) :
    ∃ n t, composite id o declared blank parts s = (.ok n, t) ∧ Grows h types s t ∧ Tidy t ∧
      t.Met id n := by
  have hid : id ∈ unmet h s :=
    Finset.mem_filter.2 ⟨Finset.mem_range.2 (Heap.get?_isSome.1 (by simp [ho])), hnew⟩
  have hless := unmet_reserved declared o.type blank hid
  obtain ⟨content, t, hrun, hst, ht, hrel⟩ := hparts _ (reserved_tidy hs)
    (hless.trans_le (Nat.le_of_lt_succ hd))
  exact ⟨s.graph.size, _, composite_apply hrun, filled_met ho hslots hnew hst ht hrel⟩

theorem literalType_hasType (declared : Ty) (l : Literal) : l.HasType (literalType declared l) := by
  unfold literalType
  split
  · split
    · next kind _ actual heq => subst heq; exact .inr ⟨_, rfl, by assumption⟩
    · exact .inl rfl
  · exact .inl rfl

/-! ### Parts -/

section

variable {value : Value → Ty → Serialize NodeId}

theorem values_succeeds {declared : Ty} {items : List Value}
    (hvalue : ∀ v ∈ items, ∀ type, Succeeds h types depth (value v type) fun t n =>
      Shows t.graph t.Met v n) :
    Succeeds h types depth (values value declared items) fun t ns =>
      List.Forall₂ (Shows t.graph t.Met) items ns :=
  .mapM (fun hst hv => hst.shows hv) fun v hv => hvalue v hv declared

theorem entries_succeeds {keyType valueType : Ty} {es : List (Value × Value)}
    (hvalue : ∀ e ∈ es, ∀ v ∈ [e.1, e.2], ∀ type, Succeeds h types depth (value v type) fun t n =>
      Shows t.graph t.Met v n) :
    Succeeds h types depth (entries value keyType valueType es) fun t ns =>
      List.Forall₂ (fun x y => Shows t.graph t.Met x.1 y.1 ∧ Shows t.graph t.Met x.2 y.2) es ns := by
  refine .mapM (fun hst hv => ⟨hst.shows hv.1, hst.shows hv.2⟩) fun e he => ?_
  refine (hvalue e he e.1 (by simp) keyType).bind fun k => ?_
  refine (hvalue e he e.2 (by simp) valueType).bind fun v => ?_
  exact .pure fun _ _ hv hshows _ hk hshows' => ⟨hk.shows hshows', hv.shows hshows⟩

theorem fieldNodes_succeeds {o : Obj} {slots : List (Slot × Value)}
    (hslots : ∀ e ∈ slots, ∃ owner name type, e.1 = .field owner name type)
    (hvalue : ∀ e ∈ slots, ∀ type, Succeeds h types depth (value e.2 type) fun t n =>
      Shows t.graph t.Met e.2 n) :
    Succeeds h types depth (fieldNodes value o slots) fun t fields =>
      List.Forall₂ (fun e f => e.1 = .field f.owner f.name f.type ∧ Shows t.graph t.Met e.2 f.value)
        slots fields := by
  refine .mapM (fun hst hv => ⟨hv.1, hst.shows hv.2⟩) fun e he => ?_
  obtain ⟨slot, v⟩ := e
  obtain ⟨owner, name, type, rfl⟩ := hslots _ he
  refine (hvalue _ he type).bind fun n => ?_
  exact .pure fun _ _ hn hshows => ⟨rfl, hn.shows hshows⟩

theorem body_of_unlocked {o : Obj} (hlocked : o.locked = false) : body o = pure o.body := by
  simp [body, hlocked]

theorem body_of_locked {o : Obj} (hlocked : o.locked = true) : body o = throw .waits := by
  simp [body, hlocked]

/-- Whether the guard lets an object pass that can be read. -/
def passes (o : Obj) : SerializerGuard → Bool
  | .shape s => o.body.shape == s
  | .runtimeClass name => o.type.className? == some name
  | .anything => true

theorem select_of_unlocked {o : Obj} (hlocked : o.locked = false) (c : Chain SerializerBehaviour) :
    (c.selectM? fun a => accepts o a.behaviour.guard) =
      (pure (c.select? fun a => passes o a.behaviour.guard) : Serialize _) := by
  have haccepts : ∀ guard, accepts o guard = pure (passes o guard) := by
    intro guard
    cases guard <;> simp [accepts, passes, body_of_unlocked hlocked]
  simp only [haccepts]
  exact List.findM?_pure _ c.entries

variable (h types) in
/-- An object that can be read goes to the serializer of its shape. -/
theorem dispatch_eq {id : ObjectId} {o : Obj} (declared : Ty) (ho : h.get? id = some o)
    (hlocked : o.locked = false) :
    dispatch ⟨h, types, standard⟩ value id declared =
      match o.body with
      | .array items => arrayNode value id o declared items
      | .list items => listNode value id o declared items
      | .set items => setNode value id o declared items
      | .map es => mapNode value id o declared es
      | .fields _ => fieldsNode ⟨h, types, standard⟩ value id o declared := by
  unfold dispatch
  simp only [ho, select_of_unlocked hlocked, pure_bind]
  cases hbody : o.body <;>
    simp [hbody, body_of_unlocked hlocked, standard, standardSerializers, Chain.select?, passes,
      Body.shape, serializeBy]

theorem dispatch_succeeds {id : ObjectId} (declared : Ty) {s : State}
    (hvalue : ∀ v type, h.Readable v → Succeeds h types depth (value v type) fun t n =>
      Shows t.graph t.Met v n)
    (hv : h.Readable (.object id)) (hs : Tidy s) (hd : (unmet h s).card < depth + 1)
    (hnew : findValue? id s.identities = none) :
    ∃ n t, dispatch ⟨h, types, standard⟩ value id declared s = (.ok n, t) ∧ Grows h types s t ∧
      Tidy t ∧ t.Met id n := by
  obtain ⟨o, ho, hlocked⟩ := hv.get?
  have hpart : ∀ v ∈ o.body.values, ∀ type, Succeeds h types depth (value v type) fun t n =>
      Shows t.graph t.Met v n := fun v hmem type => hvalue v type (hv.part ho hmem)
  rw [dispatch_eq h types declared ho hlocked]
  cases hbody : o.body with
  | array items =>
    have hslots : o.slots? types = some (.indexed .array items) := by
      simp [Obj.slots?, hlocked, hbody]
    rw [hbody] at hpart
    refine composite_succeeds ho hslots ?_ hs hd hnew
    exact (values_succeeds hpart).map fun _ _ hns => Slots.rel_indexed.2 hns
  | list items =>
    have hslots : o.slots? types = some (.indexed .list items) := by
      simp [Obj.slots?, hlocked, hbody]
    rw [hbody] at hpart
    refine composite_succeeds ho hslots ?_ hs hd hnew
    exact (values_succeeds hpart).map fun _ _ hns => Slots.rel_indexed.2 hns
  | set items =>
    have hslots : o.slots? types = some (.indexed .set items) := by
      simp [Obj.slots?, hlocked, hbody]
    rw [hbody] at hpart
    refine composite_succeeds ho hslots ?_ hs hd hnew
    exact (values_succeeds hpart).map fun _ _ hns => Slots.rel_indexed.2 hns
  | map es =>
    have hslots : o.slots? types = some (.keyed es) := by
      simp [Obj.slots?, hlocked, hbody]
    rw [hbody] at hpart
    refine composite_succeeds ho hslots ?_ hs hd hnew
    refine (entries_succeeds fun e he v hmem => hpart v ?_).map fun _ _ hns =>
      Slots.rel_keyed.2 hns
    exact List.mem_flatMap.2 ⟨e, he, hmem⟩
  | fields stored =>
    obtain ⟨slots, hslots⟩ := Obj.exists_slots? types hlocked
    have hfields : fieldsNode ⟨h, types, standard⟩ value id o declared =
        composite id o declared (.object []) (.object <$> fieldNodes value o slots.entries) := by
      simp only [fieldsNode, hslots]
    have hentries : slots = ⟨.object, fieldSlots (o.type.className?.getD "")
        (types.allFields (o.type.className?.getD "")) stored⟩ := by
      simpa [Obj.slots?, hlocked, hbody, eq_comm] using hslots
    rw [hfields]
    refine composite_succeeds ho hslots ?_ hs hd hnew
    refine (fieldNodes_succeeds ?_ ?_).map fun t fields hns => ⟨?_, ?_⟩
    · rw [hentries]; exact fieldSlots_isField
    · exact fun e he type => hvalue e.2 type (hv.slot ho hslots he)
    · rw [hentries]; rfl
    · exact List.forall₂_map_right_iff.2 hns

end

/-- Every level down meets another object, so the depth is enough when it exceeds the number of
objects to meet. -/
theorem valueAt_succeeds (v : Value) (declared : Ty) (hv : h.Readable v) :
    Succeeds h types depth (valueAt ⟨h, types, standard⟩ depth v declared) fun t n =>
      Shows t.graph t.Met v n := by
  induction depth generalizing v declared with
  | zero => intro s _ hd; omega
  | succ depth ih =>
    cases v with
    | null =>
      intro s hs hd
      obtain ⟨n, t, hrun, hst, ht, hn⟩ := atom_succeeds (.null (nullType declared)) s hs hd
      exact ⟨n, t, hrun, hst, ht, .null hn⟩
    | scalar l =>
      intro s hs hd
      obtain ⟨n, t, hrun, hst, ht, hn⟩ :=
        atom_succeeds (.literal (literalType declared l) l) s hs hd
      exact ⟨n, t, hrun, hst, ht, .scalar hn (literalType_hasType declared l)⟩
    | constant type name =>
      intro s hs hd
      obtain ⟨n, t, hrun, hst, ht, hn⟩ :=
        push_succeeds (.constant declared (.ofClass type) name) s hs hd
      exact ⟨n, t, hrun, hst, ht, .constant hn⟩
    | object id =>
      intro s hs hd
      cases found : findValue? id s.identities with
      | some n =>
        refine ⟨n, s, ?_, .refl s, hs, .object found⟩
        unfold valueAt
        rw [Effect.bind_of_ok (Effect.get_apply s)]
        simp only [found]
        rfl
      | none =>
        obtain ⟨n, t, hrun, hst, ht, hmet⟩ :=
          dispatch_succeeds declared (fun v type hv => ih v type hv) hv hs hd found
        refine ⟨n, t, ?_, hst, ht, .object hmet⟩
        unfold valueAt
        rw [Effect.bind_of_ok (Effect.get_apply s)]
        simp only [found]
        exact hrun

variable (types) in
/-- Serializing a readable value succeeds, whatever was serialized before. -/
theorem node_succeeds {s : State} (v : Value) (declared : Ty) (hv : h.Readable v) (hs : Tidy s) :
    ∃ n t, node ⟨h, types, standard⟩ v declared s = (.ok n, t) ∧ Grows h types s t ∧ Tidy t ∧
      Shows t.graph t.Met v n := by
  have hcard : (unmet h s).card ≤ h.size :=
    (Finset.card_filter_le _ _).trans_eq (Finset.card_range h.size)
  exact valueAt_succeeds v declared hv s hs (Nat.lt_succ_of_le hcard)

end Serialization

end Reenact
