import Mathlib
import Reenact.Equality
import Reenact.Generate.Verification
import Reenact.Proofs.Builtin
import Reenact.Proofs.LocalNames
import Reenact.Proofs.Serialization

/-!
Values that generated code can rebuild: objects whose class goes with their shape, and captured
slots that hold what they are typed for. Capturing well-formed objects gives sound nodes.
-/

namespace Reenact

namespace Ty

/-- A class of wrappers around the collection. -/
def isWrapper (collection : String) : Ty → Bool
  | .named name _ => WrapperKind.all.any fun kind => name == kind.className collection
  | _ => false

theorem isWrapper_iff {collection : String} {type : Ty} :
    type.isWrapper collection ↔ ∃ kind args, type = .named (WrapperKind.className kind collection) args := by
  cases type with
  | named name args =>
    simp only [isWrapper, List.any_eq_true, beq_iff_eq, Ty.named.injEq]
    constructor
    · rintro ⟨kind, _, rfl⟩
      exact ⟨kind, args, rfl, rfl⟩
    · rintro ⟨kind, _, rfl, _⟩
      exact ⟨kind, kind.mem_all, rfl⟩
  | void => simp [isWrapper]
  | primitive => simp [isWrapper]
  | array => simp [isWrapper]

/-- An array literal of this component type is an array, and not a sequence of matchers. -/
def isElementType (component : Ty) : Bool :=
  component.className? != Verification.matcherType.className?
    && component.className? != Verification.entryType.className?

end Ty

namespace ClassTable

/-- Code can allocate the class, and its instances have this shape and no other. -/
def allocates (t : ClassTable) (shape : Shape) (type : Ty) : Bool :=
  type.className?.any t.isInstantiable && t.isList type == (shape == .list)
    && t.isSet type == (shape == .set) && t.isMap type == (shape == .map)

/-- The class goes with the shape. -/
def suits (t : ClassTable) (type : Ty) : Shape → Bool
  | .object => !t.isList type && !t.isSet type && !t.isMap type
  | .array => type.component?.any Ty.isElementType
  | .list => t.allocates .list type || type.isWrapper "List"
  | .set => t.allocates .set type || type.isWrapper "Set"
  | .map => t.allocates .map type

end ClassTable

/-- No element, key or field occurs twice. -/
def Body.Distinct : Body → Prop
  | .fields stored => (stored.map (·.1)).Nodup
  | .set items => items.Nodup
  | .map entries => (entries.map (·.1)).Nodup
  | _ => True

instance : (body : Body) → Decidable body.Distinct
  | .fields _ => inferInstanceAs (Decidable (List.Nodup _))
  | .array _ => inferInstanceAs (Decidable True)
  | .list _ => inferInstanceAs (Decidable True)
  | .set _ => inferInstanceAs (Decidable (List.Nodup _))
  | .map _ => inferInstanceAs (Decidable (List.Nodup _))

namespace ClassTable

/-- The names of the fields that instances of a type have. -/
def fieldNames (t : ClassTable) (type : Ty) : List String :=
  (t.allFields (type.className?.getD "")).map (·.2.name)

end ClassTable

/-- An object that can be read, of a class that goes with its shape, shadows no field and has a name
for locals. -/
def Obj.WellFormed (t : ClassTable) (o : Obj) : Prop :=
  o.locked = false ∧ t.suits o.type o.body.shape ∧ Unnumbered o.type.localStem ∧ o.body.Distinct ∧
    (t.fieldNames o.type).Nodup

instance (t : ClassTable) (o : Obj) : Decidable (o.WellFormed t) :=
  inferInstanceAs (Decidable (_ ∧ _))

/-- Every object reachable from the value is well-formed. -/
def Heap.WellFormed (h : Heap) (t : ClassTable) (v : Value) : Prop :=
  ∀ id ∈ h.reachable v, (h.get? id).any fun o => decide (o.WellFormed t)

instance (h : Heap) (t : ClassTable) (v : Value) : Decidable (h.WellFormed t v) :=
  inferInstanceAs (Decidable (∀ id ∈ h.reachable v, _))

theorem Heap.WellFormed.get? {h : Heap} {t : ClassTable} {v : Value} (hv : h.WellFormed t v)
    {id : ObjectId} (hid : id ∈ h.reachable v) : ∃ o, h.get? id = some o ∧ o.WellFormed t := by
  have hany := hv id hid
  cases ho : h.get? id with
  | none => simp [ho] at hany
  | some o => exact ⟨o, rfl, by simpa [ho] using hany⟩

theorem Heap.WellFormed.readable {h : Heap} {t : ClassTable} {v : Value} (hv : h.WellFormed t v) :
    h.Readable v := by
  intro id hid
  obtain ⟨o, ho, hlocked, _⟩ := hv.get? hid
  simp [ho, hlocked]

namespace Graph

/-- What the node shows may be stored where the type is declared: primitive types take scalars of
their kind, boxed classes those and null. -/
def fits (g : Graph) (declared : Ty) (id : NodeId) : Bool :=
  match declared.unboxed?, g.get? id with
  | none, _ => true
  | some kind, some (.atom (.literal _ l)) => l.kind? == some kind
  | some _, some (.atom (.null _)) => !declared.isPrimitive
  | some _, _ => false

/-- Every slot of the node holds what fits its type. -/
def slotsFit (g : Graph) (n : Node) : Bool :=
  match n with
  | .composite _ _ (.array elements) => elements.all (g.fits n.componentType)
  | .composite _ _ (.list elements) => elements.all (g.fits (n.elementType 0))
  | .composite _ _ (.set elements) => elements.all (g.fits (n.elementType 0))
  | .composite _ _ (.map entries) =>
    entries.all fun (k, v) => g.fits (n.elementType 0) k && g.fits (n.elementType 1) v
  | .composite _ _ (.object fields) => fields.all fun f => g.fits f.type f.value
  | _ => true

/-- Every slot reachable from the node holds what fits its type. -/
def WellTyped (g : Graph) (root : NodeId) : Prop :=
  ∀ id ∈ g.reachable root, (g.get? id).all g.slotsFit

instance (g : Graph) (root : NodeId) : Decidable (g.WellTyped root) :=
  inferInstanceAs (Decidable (∀ id ∈ g.reachable root, _))

/-- The nodes stand for the same value. -/
def Alike (g : Graph) (m n : NodeId) : Prop :=
  m = n ∨ ∃ p, g.inspect m = .plain p ∧ g.inspect n = .plain p

end Graph

/-- The fields are those of the class in order, and then others, no name occurring twice. -/
def FieldsOf (t : ClassTable) (runtime : Ty) (fields : List NodeField) : Prop :=
  ∃ extra : List String,
    fields.map (fun f => Slot.field f.owner f.name f.type) =
      (t.allFields (runtime.className?.getD "")).map (fun d => .field d.1 d.2.name d.2.type) ++
        extra.map (fun name => .field (runtime.className?.getD "") name .object) ∧
    (t.fieldNames runtime ++ extra).Nodup

theorem FieldsOf.nodup {t : ClassTable} {runtime : Ty} {fields : List NodeField}
    (h : FieldsOf t runtime fields) : (fields.map (·.name)).Nodup := by
  obtain ⟨extra, hlabels, hnodup⟩ := h
  have hnames := congrArg (List.filterMap Slot.fieldName?) hlabels
  simp only [List.filterMap_append, List.filterMap_map] at hnames
  have heq : fields.map (·.name) = t.fieldNames runtime ++ extra := by
    simpa [Function.comp_def, Slot.fieldName?, ClassTable.fieldNames] using hnames
  rwa [heq]

/-- A plain object has the fields of its class. -/
theorem fieldsOf_of_rel {t : ClassTable} {runtime : Ty} {R : Value → NodeId → Prop}
    {stored : List (String × Value)} {fields : List NodeField} (hdeclared : (t.fieldNames runtime).Nodup)
    (hstored : (stored.map (·.1)).Nodup)
    (hrel : List.Forall₂ (fun x y => x.1 = y.1 ∧ R x.2 y.2)
      (fieldSlots (runtime.className?.getD "") (t.allFields (runtime.className?.getD "")) stored)
      (Content.object fields).slots.entries) : FieldsOf t runtime fields := by
  obtain ⟨extra, hlabels, hnodup⟩ := labels_fieldSlots (runtime.className?.getD "") hdeclared hstored
  refine ⟨extra, ?_, hnodup⟩
  rw [← hlabels]
  generalize fieldSlots _ _ stored = entries at hrel
  simp only [Content.slots, List.forall₂_map_right_iff] at hrel
  clear hlabels
  induction hrel with
  | nil => rfl
  | cons hhead _ ih => rw [List.map_cons, List.map_cons, ih, hhead.1]

/-- The parts of a composite are distinct where its shape demands it. -/
def Content.Distinct (g : Graph) (t : ClassTable) (runtime : Ty) : Content → Prop
  | .set elements => elements.Pairwise fun m n => ¬ g.Alike m n
  | .map entries => (entries.map (·.1)).Pairwise fun m n => ¬ g.Alike m n
  | .object fields => FieldsOf t runtime fields
  | _ => True

/-- What code needs to know of a node in order to rebuild it. -/
def Node.Sound (g : Graph) (t : ClassTable) : Node → Prop
  | .atom (.literal type l) => l.HasType type
  | .atom (.null _) => True
  | .constant _ runtime _ => ∃ name, runtime = .ofClass name
  | .composite declared runtime content =>
    t.suits runtime content.slots.shape ∧ Unnumbered runtime.localStem ∧
      g.slotsFit (.composite declared runtime content) ∧ content.Distinct g t runtime

/-- Every node reachable from the root exists and is sound. -/
def Graph.Sound (g : Graph) (t : ClassTable) (root : NodeId) : Prop :=
  ∀ id, Leads g.children root id → ∃ n, g.get? id = some n ∧ n.Sound g t

theorem Graph.Sound.child {g : Graph} {t : ClassTable} {root id : NodeId} (h : g.Sound t root)
    (hid : Leads g.children root id) : g.Sound t id := fun n hn => h n (hid.trans hn)

/-- The live value that is shown. -/
def Plain.value : Plain → Value
  | .null => .null
  | .scalar l => .scalar l
  | .constant type name => .constant type name

theorem shows_cases {g : Graph} {met : ObjectId → NodeId → Prop} {v : Value} {n : NodeId}
    (hv : Shows g met v n) :
    (∃ p : Plain, v = p.value ∧ g.inspect n = .plain p) ∨ ∃ id, v = .object id ∧ met id n := by
  cases hv with
  | null hn => exact .inl ⟨.null, rfl, by simp [Graph.inspect, hn]⟩
  | @scalar _ l _ hn => exact .inl ⟨.scalar l, rfl, by simp [Graph.inspect, hn]⟩
  | @constant _ type name _ hn =>
    exact .inl ⟨.constant type name, rfl, by simp [Graph.inspect, hn, Ty.ofClass, Ty.className?]⟩
  | object hm => exact .inr ⟨_, rfl, hm⟩

section

variable {h : Heap} {t : ClassTable} {g : Graph} {met : ObjectId → NodeId → Prop}

theorem Captured.get? (hc : Captured h t g met) {id : ObjectId} {n : NodeId} (hm : met id n) :
    ∃ declared runtime content, g.get? n = some (.composite declared runtime content) := by
  obtain ⟨o, _, declared, content, _, _, hn, _⟩ := hc.holds hm
  exact ⟨declared, o.type, content, hn⟩

theorem Captured.inspect (hc : Captured h t g met) {id : ObjectId} {n : NodeId} (hm : met id n)
    {p : Plain} : g.inspect n ≠ .plain p := by
  obtain ⟨_, _, _, hn⟩ := hc.get? hm
  simp [Graph.inspect, hn]

/-- Nodes that stand for one value show one value. -/
theorem Captured.eq_of_alike (hc : Captured h t g met) {v w : Value} {m n : NodeId}
    (hv : Shows g met v m) (hw : Shows g met w n) (halike : g.Alike m n) : v = w := by
  rcases shows_cases hv with ⟨p, rfl, hp⟩ | ⟨a, rfl, ha⟩ <;>
    rcases shows_cases hw with ⟨q, rfl, hq⟩ | ⟨b, rfl, hb⟩ <;>
      rcases halike with rfl | ⟨r, hm, hn⟩
  · cases hp.symm.trans hq
    rfl
  · cases hp.symm.trans hm
    cases hq.symm.trans hn
    rfl
  · exact absurd hp (hc.inspect hb)
  · exact absurd hn (hc.inspect hb)
  · exact absurd hq (hc.inspect ha)
  · exact absurd hm (hc.inspect ha)
  · rw [hc.injective ha hb]
  · exact absurd hm (hc.inspect ha)

/-- A child of a node that shows an object shows a value that the object refers to. -/
theorem Captured.child (hc : Captured h t g met) {id : ObjectId} {n k : NodeId} (hm : met id n)
    (hk : k ∈ g.children n) :
    ∃ v, Shows g met v k ∧ ∀ a, v = .object a → a ∈ h.references id := by
  obtain ⟨o, slots, declared, content, ho, hslots, hn, hrel⟩ := hc.holds hm
  have hmem : k ∈ content.slots.nodes := by
    rw [Content.nodes_slots]
    simpa [Graph.children, hn, Node.children] using hk
  obtain ⟨v, hv, hshows⟩ := forall₂_mem_right hrel.nodes hmem
  obtain ⟨e, he, rfl⟩ := List.mem_map.1 hv
  refine ⟨e.2, hshows, fun a ha => ?_⟩
  rw [Heap.references_of_get? ho]
  rcases Obj.mem_slots hslots he with hbody | hnone
  · exact List.mem_filterMap.2 ⟨e.2, hbody, by rw [ha]; rfl⟩
  · simp [ha, Value.object?] at hnone

/-- Whatever can be reached from a node shows a value that can be reached from the live one. -/
theorem Captured.shown (hc : Captured h t g met) {v : Value} {root n : NodeId}
    (hv : Shows g met v root) (hn : Leads g.children root n) :
    ∃ w, Shows g met w n ∧ ∀ a, w = .object a → a ∈ h.reachable v := by
  induction hn with
  | refl => exact ⟨v, hv, fun a ha => Heap.mem_reachable.2 ⟨a, ha, .refl⟩⟩
  | @tail m k _ hk ih =>
    obtain ⟨w, hw, hreach⟩ := ih
    rcases shows_cases hw with ⟨p, _, hp⟩ | ⟨id, rfl, hm⟩
    · have hnone : g.children m = [] := by
        unfold Graph.inspect at hp
        split at hp <;> simp_all [Graph.children, Node.children]
      rw [hnone] at hk
      cases hk
    · obtain ⟨u, hu, hrefs⟩ := hc.child hm hk
      refine ⟨u, hu, fun a ha => ?_⟩
      obtain ⟨start, rfl, hlead⟩ := Heap.mem_reachable.1 (hreach id rfl)
      exact Heap.mem_reachable.2 ⟨start, rfl, hlead.tail (hrefs a ha)⟩

private theorem Captured.pairwise (hc : Captured h t g met) {vs : List Value} {ns : List NodeId}
    (hshows : List.Forall₂ (Shows g met) vs ns) (hvs : vs.Nodup) :
    ns.Pairwise fun m n => ¬ g.Alike m n := by
  induction hshows with
  | nil => exact .nil
  | cons hv hrest ih =>
    rw [List.nodup_cons] at hvs
    refine .cons (fun n hn halike => ?_) (ih hvs.2)
    obtain ⟨w, hw, hshow⟩ := forall₂_mem_right hrest hn
    exact hvs.1 (hc.eq_of_alike hv hshow halike ▸ hw)

theorem Captured.distinct (hc : Captured h t g met) {o : Obj} {slots : Slots Value}
    {content : Content} (ho : o.WellFormed t) (hslots : o.slots? t = some slots)
    (hrel : Slots.Rel (Shows g met) slots content.slots) : content.Distinct g t o.type := by
  obtain ⟨hlocked, _, _, hdistinct, hfields⟩ := ho
  unfold Obj.slots? at hslots
  simp only [hlocked] at hslots
  cases hbody : o.body with
  | fields stored =>
    simp only [hbody, Bool.false_eq_true, if_false, Option.some.injEq] at hslots hdistinct
    subst hslots
    cases content with
    | object fields => exact fieldsOf_of_rel hfields hdistinct hrel.2
    | array => cases hrel.1
    | list => cases hrel.1
    | set => cases hrel.1
    | map => cases hrel.1
  | array | list =>
    simp only [hbody, Bool.false_eq_true, if_false, Option.some.injEq] at hslots
    subst hslots
    cases content with
    | array => trivial
    | list => trivial
    | set => cases hrel.1
    | map => cases hrel.1
    | object => cases hrel.1
  | set items =>
    simp only [hbody, Bool.false_eq_true, if_false, Option.some.injEq] at hslots hdistinct
    subst hslots
    cases content with
    | set elements => exact hc.pairwise (Slots.rel_indexed.1 hrel) hdistinct
    | array => trivial
    | list => trivial
    | map => cases hrel.1
    | object => cases hrel.1
  | map entries =>
    simp only [hbody, Bool.false_eq_true, if_false, Option.some.injEq] at hslots hdistinct
    subst hslots
    cases content with
    | map nodes =>
      refine hc.pairwise ?_ hdistinct
      exact List.forall₂_map_left_iff.2 (List.forall₂_map_right_iff.2
        ((Slots.rel_keyed.1 hrel).imp fun _ _ => And.left))
    | array => trivial
    | list => trivial
    | set => cases hrel.1
    | object => cases hrel.1

theorem Captured.exists_node (hc : Captured h t g met) {v : Value} {n : NodeId} (hv : Shows g met v n) :
    ∃ x, g.get? n = some x := by
  cases hv with
  | null hn => exact ⟨_, hn⟩
  | scalar hn => exact ⟨_, hn⟩
  | constant hn => exact ⟨_, hn⟩
  | object hm =>
    obtain ⟨_, _, _, hn⟩ := hc.get? hm
    exact ⟨_, hn⟩

private theorem slotsFit_of_agree {g g' : Graph} {x : Node} (hagree : ∀ n ∈ x.children, g'.get? n = g.get? n)
    (hfit : g.slotsFit x = true) : g'.slotsFit x = true := by
  have hfits : ∀ declared, ∀ n ∈ x.children, g.fits declared n = true → g'.fits declared n = true := by
    intro declared n hn hfit
    unfold Graph.fits at hfit ⊢
    rwa [hagree n hn]
  match x with
  | .atom _ | .constant .. => rfl
  | .composite _ _ (.array _) | .composite _ _ (.list _) | .composite _ _ (.set _) =>
    exact List.all_eq_true.2 fun n hn => hfits _ n hn (List.all_eq_true.1 hfit n hn)
  | .composite _ _ (.map entries) =>
    refine List.all_eq_true.2 fun e he => ?_
    have hboth := Bool.and_eq_true_iff.1 (List.all_eq_true.1 hfit e he)
    have hpart : ∀ n ∈ [e.1, e.2], n ∈ entries.flatMap fun e => [e.1, e.2] :=
      fun n hn => List.mem_flatMap.2 ⟨e, he, hn⟩
    exact Bool.and_eq_true_iff.2 ⟨hfits _ _ (hpart _ (by simp)) hboth.1, hfits _ _ (hpart _ (by simp)) hboth.2⟩
  | .composite _ _ (.object fields) =>
    refine List.all_eq_true.2 fun f hf => ?_
    exact hfits _ _ (List.mem_map.2 ⟨f, hf, rfl⟩) (List.all_eq_true.1 hfit f hf)

/-- What is captured later changes nothing about the slots of what was captured. -/
theorem Captured.wellTyped_mono (hc : Captured h t g met) {v : Value} {root : NodeId}
    (hv : Shows g met v root) {g' : Graph} (hg : ∀ {n x}, g.get? n = some x → g'.get? n = some x)
    (htyped : g.WellTyped root) : g'.WellTyped root := by
  have hnode : ∀ {n}, Leads g.children root n → g'.get? n = g.get? n := by
    intro n hn
    obtain ⟨w, hw, -⟩ := hc.shown hv hn
    obtain ⟨x, hx⟩ := hc.exists_node hw
    rw [hx, hg hx]
  have hchildren : ∀ {n}, Leads g.children root n → g'.children n = g.children n := by
    intro n hn
    unfold Graph.children
    rw [hnode hn]
  have hback : ∀ n, Leads g'.children root n → Leads g.children root n := by
    intro n hn
    induction hn with
    | refl => exact .refl
    | tail _ hstep ih => exact ih.tail (hchildren ih ▸ hstep)
  intro n hn
  have hlead := hback n (Graph.mem_reachable.1 hn)
  have hfit := htyped n (Graph.mem_reachable.2 hlead)
  rw [hnode hlead]
  cases hx : g.get? n with
  | none => rfl
  | some x =>
    rw [hx] at hfit
    refine slotsFit_of_agree (fun k hk => hnode (hlead.tail ?_)) hfit
    simpa [Graph.children, hx] using hk

/-- Capturing a well-formed value gives sound nodes, if the slots hold what they are typed for. -/
theorem Captured.sound (hc : Captured h t g met) {v : Value} {root : NodeId}
    (hshows : Shows g met v root) (hv : h.WellFormed t v) (htyped : g.WellTyped root) :
    g.Sound t root := by
  intro n hn
  obtain ⟨w, hw, hreach⟩ := hc.shown hshows hn
  cases hw with
  | null hn => exact ⟨_, hn, trivial⟩
  | scalar hn hl => exact ⟨_, hn, hl⟩
  | constant hn => exact ⟨_, hn, _, rfl⟩
  | object hm =>
    obtain ⟨o, slots, declared, content, ho, hslots, hnode, hrel⟩ := hc.holds hm
    obtain ⟨o', ho', hwell⟩ := hv.get? (hreach _ rfl)
    cases ho.symm.trans ho'
    have hshape : content.slots.shape = o.body.shape :=
      hrel.1.symm.trans (Obj.shape_of_slots? hslots)
    have hfit := htyped n (Graph.mem_reachable.2 hn)
    rw [hnode] at hfit
    exact ⟨_, hnode, hshape ▸ hwell.2.1, hwell.2.2.1, hfit, hc.distinct hwell hslots hrel⟩

end

end Reenact
