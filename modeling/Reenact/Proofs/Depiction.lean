import Mathlib
import Reenact.Proofs.WellFormed

/-!
Capturing as drawing a graph: the nodes that a readable value becomes are the objects reachable from it,
one for one, with the same class, shape and slots. The bound on the depth is no part of this: any that
is large enough gives the same nodes.
-/

namespace Reenact

namespace Serialization

/-! ### The depth -/

variable {α β : Type}

/-- What succeeds one way does so the other way, with the same result. -/
def Refines (x y : Serialize α) : Prop := ∀ s a t, x s = (.ok a, t) → y s = (.ok a, t)

theorem Refines.refl (x : Serialize α) : Refines x x := fun _ _ _ h => h

theorem Refines.bind {x y : Serialize α} {f f' : α → Serialize β} (hx : Refines x y)
    (hf : ∀ a, Refines (f a) (f' a)) : Refines (x >>= f) (y >>= f') := by
  intro s b u h
  obtain ⟨a, t, hrun, hrest⟩ := Effect.bind_ok.1 h
  exact Effect.bind_ok.2 ⟨a, t, hx s a t hrun, hf a t b u hrest⟩

theorem Refines.map {x y : Serialize α} (hx : Refines x y) (f : α → β) : Refines (f <$> x) (f <$> y) := by
  intro s b t h
  obtain ⟨a, hrun, rfl⟩ := Effect.map_ok.1 h
  exact Effect.map_ok.2 ⟨a, hx s a t hrun, rfl⟩

theorem Refines.mapM {f f' : α → Serialize β} (hf : ∀ a, Refines (f a) (f' a)) (as : List α) :
    Refines (as.mapM f) (as.mapM f') := by
  induction as with
  | nil => exact .refl _
  | cons a as ih =>
    rw [List.mapM_cons, List.mapM_cons]
    exact (hf a).bind fun b => ih.bind fun bs => .refl _

section

variable {c : Context} {value value' : Value → Ty → Serialize NodeId} {id : ObjectId} {o : Obj}

theorem composite_refines {parts parts' : Serialize Content} (h : Refines parts parts') (declared : Ty)
    (blank : Content) : Refines (composite id o declared blank parts) (composite id o declared blank parts') :=
  (Refines.refl _).bind fun _ => h.bind fun _ => .refl _

variable (hvalue : ∀ v declared, Refines (value v declared) (value' v declared))
include hvalue

theorem fieldsNode_refines (declared : Ty) :
    Refines (fieldsNode c value id o declared) (fieldsNode c value' id o declared) := by
  unfold fieldsNode
  split
  · exact .refl _
  · refine composite_refines (Refines.map (.mapM (fun e => ?_) _) _) declared _
    obtain ⟨slot, v⟩ := e
    cases slot with
    | field owner name type => exact (hvalue v type).bind fun _ => .refl _
    | element => exact .refl _
    | key => exact .refl _
    | value => exact .refl _

theorem serializeBy_refines (declared : Ty) (rule : SerializerRule) :
    Refines (serializeBy c value id o declared rule) (serializeBy c value' id o declared rule) := by
  have hvalues : ∀ type items, Refines (values value type items) (values value' type items) :=
    fun type items => .mapM (fun v => hvalue v type) items
  have hentries : ∀ keyType valueType es,
      Refines (entries value keyType valueType es) (entries value' keyType valueType es) := by
    refine fun keyType valueType es => .mapM (fun e => ?_) es
    exact (hvalue e.1 keyType).bind fun _ => (hvalue e.2 valueType).bind fun _ => .refl _
  cases rule with
  | array =>
    apply (Refines.refl _).bind
    intro held
    cases held with
    | array items => exact composite_refines ((hvalues _ _).map _) declared _
    | _ => exact .refl _
  | list =>
    apply (Refines.refl _).bind
    intro held
    cases held with
    | list items => exact composite_refines ((hvalues _ _).map _) declared _
    | _ => exact .refl _
  | set =>
    apply (Refines.refl _).bind
    intro held
    cases held with
    | set items => exact composite_refines ((hvalues _ _).map _) declared _
    | _ => exact .refl _
  | map =>
    apply (Refines.refl _).bind
    intro held
    cases held with
    | map es => exact composite_refines ((hentries _ _ _).map _) declared _
    | _ => exact .refl _
  | fields => exact fieldsNode_refines hvalue declared
  | null => exact hvalue .null declared
  | refuse => exact .refl _
  | crash => exact .refl _
  | stall => exact .refl _

theorem dispatch_refines (declared : Ty) :
    Refines (dispatch c value id declared) (dispatch c value' id declared) := by
  unfold dispatch
  split
  · exact .refl _
  · apply (Refines.refl _).bind
    intro selected
    cases selected with
    | some a => exact serializeBy_refines hvalue declared _
    | none =>
      dsimp only
      split
      · exact fieldsNode_refines hvalue declared
      · exact .refl _

end

/-- A depth that is enough can be exceeded. -/
theorem valueAt_refines (c : Context) {depth depth' : ℕ} (hle : depth ≤ depth') (v : Value) (declared : Ty) :
    Refines (valueAt c depth v declared) (valueAt c depth' v declared) := by
  induction depth generalizing depth' v declared with
  | zero =>
    cases v with
    | object id =>
      intro s n t h
      cases h
    | null => cases depth' <;> exact .refl _
    | scalar l => cases depth' <;> exact .refl _
    | constant type name => cases depth' <;> exact .refl _
  | succ depth ih =>
    obtain ⟨depth', rfl⟩ := Nat.exists_eq_add_one_of_ne_zero (Nat.ne_zero_of_lt hle)
    cases v with
    | object id =>
      refine (Refines.refl _).bind fun s => ?_
      cases findValue? id s.identities with
      | some n => exact .refl _
      | none => exact dispatch_refines (fun v declared => ih (Nat.le_of_succ_le_succ hle) v declared) declared
    | null => exact .refl _
    | scalar l => exact .refl _
    | constant type name => exact .refl _

end Serialization

/-! ### The drawing -/

/-- The nodes reachable from `n` draw the objects reachable from `v`: each object has a node of its own,
of its class and shape, whose slots show what those of the object hold. -/
structure Depicts (h : Heap) (types : ClassTable) (v : Value) (g : Graph) (n : NodeId)
    (image : ObjectId → NodeId) : Prop where
  value : Shows g (image · = ·) v n
  bijOn : Set.BijOn image {a | a ∈ h.reachable v}
    {k | k ∈ g.reachable n ∧ (g.get? k).any Node.isReference}
  object : ∀ a ∈ h.reachable v, ∃ o slots declared content, h.get? a = some o ∧
    o.slots? types = some slots ∧ g.get? (image a) = some (.composite declared o.type content) ∧
    content.slots.shape = o.body.shape ∧ Slots.Rel (Shows g (image · = ·)) slots content.slots

section

variable {h : Heap} {types : ClassTable} {g : Graph} {met : ObjectId → NodeId → Prop} {v : Value}
  {n : NodeId}

/-- Whatever can be reached from a value has a node that can be reached from that of the value. -/
theorem Captured.exists_reachable (hc : Captured h types g met) (hv : Shows g met v n) {a : ObjectId}
    (ha : a ∈ h.reachable v) : ∃ k ∈ g.reachable n, met a k := by
  obtain ⟨root, rfl, hlead⟩ := Heap.mem_reachable.1 ha
  clear ha
  induction hlead with
  | refl =>
    cases hv with
    | object hm => exact ⟨n, Graph.mem_reachable.2 .refl, hm⟩
  | @tail b a _ hstep ih =>
    obtain ⟨k, hk, hm⟩ := ih
    obtain ⟨o, slots, declared, content, ho, hslots, hnode, hrel⟩ := hc.holds hm
    rw [Heap.references_of_get? ho] at hstep
    obtain ⟨w, hw, hobject⟩ := List.mem_filterMap.1 hstep
    cases w with
    | object id =>
      cases hobject
      obtain ⟨e, he, heq⟩ := Obj.mem_slots_of_mem hslots hw
      obtain ⟨e', he', -, hshows⟩ := forall₂_mem_left hrel.2 he
      rw [heq] at hshows
      cases hshows with
      | object hchild =>
        refine ⟨e'.2, Graph.mem_reachable.2 ((Graph.mem_reachable.1 hk).tail ?_), hchild⟩
        have hmem : e'.2 ∈ content.children := Content.nodes_slots content ▸ List.mem_map_of_mem he'
        simpa [Graph.children, hnode, Node.children] using hmem
    | null => cases hobject
    | scalar => cases hobject
    | constant => cases hobject

/-- Objects that were captured are drawn by the nodes that they became. -/
theorem Captured.depicts (hc : Captured h types g met) (hv : Shows g met v n) {image : ObjectId → NodeId}
    (himage : ∀ {a k}, met a k → image a = k) : Depicts h types v g n image := by
  have hshows : ∀ {w k}, Shows g met w k → Shows g (image · = ·) w k :=
    fun hw => hw.mono (fun hx _ => hx) himage
  refine ⟨hshows hv, ⟨fun a ha => ?_, fun a ha b hb heq => ?_, fun k hk => ?_⟩, fun a ha => ?_⟩
  · obtain ⟨k, hk, hm⟩ := hc.exists_reachable hv ha
    obtain ⟨_, _, _, hnode⟩ := hc.get? hm
    rw [himage hm]
    exact ⟨hk, by rw [hnode]; rfl⟩
  · obtain ⟨k, -, hm⟩ := hc.exists_reachable hv ha
    obtain ⟨l, -, hm'⟩ := hc.exists_reachable hv hb
    rw [himage hm, himage hm'] at heq
    exact hc.injective hm (heq ▸ hm')
  · obtain ⟨w, hw, hreach⟩ := hc.shown hv (Graph.mem_reachable.1 hk.1)
    obtain ⟨x, hx⟩ := hc.exists_node hw
    have hreference := hk.2
    rw [hx] at hreference
    cases x with
    | composite declared runtime content =>
      obtain ⟨a, rfl, hm⟩ := hw.exists_object hx
      exact ⟨a, hreach a rfl, himage hm⟩
    | atom => cases hreference
    | constant => cases hreference
  · obtain ⟨k, -, hm⟩ := hc.exists_reachable hv ha
    obtain ⟨o, slots, declared, content, ho, hslots, hnode, hrel⟩ := hc.holds hm
    refine ⟨o, slots, declared, content, ho, hslots, himage hm ▸ hnode, ?_, hrel.imp fun _ _ => hshows⟩
    exact hrel.1.symm.trans (Obj.shape_of_slots? hslots)

end

namespace Serialization

/-- Serializing a readable value afresh succeeds at every depth beyond the size of the heap, keeps the
nodes that there are, and draws what is reachable from the value. -/
theorem node_depicts {h : Heap} {v : Value} (hv : h.Readable v) (types : ClassTable) (declared : Ty)
    (g : Graph) (i : Interner) :
    ∃ n t image, node ⟨h, types, standard⟩ v declared (.start g i) = (.ok n, t) ∧
      (∀ depth, h.size < depth →
        valueAt ⟨h, types, standard⟩ depth v declared (.start g i) = (.ok n, t)) ∧
      (∀ k x, g.get? k = some x → t.graph.get? k = some x) ∧ Depicts h types v t.graph n image := by
  have hfresh : (State.start g i).identities = [] := rfl
  obtain ⟨n, t, hrun, hgrows, htidy, hshows⟩ :=
    node_succeeds types v declared hv (tidy_of_identities_eq_nil hfresh)
  have hcaptured := hgrows.captured hfresh htidy
  refine ⟨n, t, fun a => (findValue? a t.identities).getD 0, hrun, fun depth hdepth => ?_,
    fun k x hx => hgrows.node hx, hcaptured.depicts hshows fun hm => ?_⟩
  · exact valueAt_refines _ hdepth v declared _ n t hrun
  · rw [hm, Option.getD_some]

/-- Two lists that contain each other. -/
theorem linked_lists_depicted :
    let h : Heap := ⟨#[⟨.ofClass "ArrayList", .list [.object 1, .null], false⟩,
      ⟨.ofClass "LinkedList", .list [.object 0], false⟩]⟩
    ∃ n t image, node ⟨h, .builtin, standard⟩ (.object 0) .object (.start .empty .empty) = (.ok n, t) ∧
      Depicts h .builtin (.object 0) t.graph n image := by
  obtain ⟨n, t, image, hrun, -, -, hdepicts⟩ := node_depicts
    (h := ⟨#[⟨.ofClass "ArrayList", .list [.object 1, .null], false⟩,
      ⟨.ofClass "LinkedList", .list [.object 0], false⟩]⟩)
    (v := .object 0) (by decide) .builtin .object .empty .empty
  exact ⟨n, t, image, hrun, hdepicts⟩

end Serialization

end Reenact
