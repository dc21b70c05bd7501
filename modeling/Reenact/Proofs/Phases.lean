import Mathlib
import Reenact.Class.Builtin
import Reenact.Proofs.Additions
import Reenact.Proofs.Population
import Reenact.Proofs.WellFormed

/-!
The phases of a snapshot kept apart. All phases write into one graph and share its atoms, but what
a phase captures lies in a stretch of the graph of its own: composite nodes that two phases both lead to
would have to lie in both stretches. Nothing is assumed of the values beyond that capturing them went well.
-/

namespace Reenact

namespace Serialization

/-! ### What success leaves -/

/-- The default serializers, with the fallback or without it. -/
def defaults (fallback : Bool) : SerializerRegistry := ⟨⟨standardSerializers⟩, fallback⟩

theorem build_defaults (fallback : Bool) :
    Registry.build [] standardSerializers fallback = .ok (defaults fallback) := by
  cases fallback <;> rfl

variable {α β : Type} {h : Heap} {types : ClassTable}

variable (h types) in
/-- Where the step succeeds, the state has grown and the result is as `post` says. -/
def Gives (x : Serialize α) (post : State → α → Prop) : Prop :=
  ∀ (s : State) a t, Tidy s → x s = (.ok a, t) → Grows h types s t ∧ Tidy t ∧ post t a

namespace Gives

variable {post : State → α → Prop} {post' : State → β → Prop}

theorem of_succeeds {x : Serialize α} (hx : ∀ depth, Succeeds h types depth x post) :
    Gives h types x post := by
  intro s a t hs hrun
  obtain ⟨a', t', hrun', hpost⟩ := hx _ s hs (Nat.lt_succ_self _)
  cases hrun.symm.trans hrun'
  exact hpost

theorem stop (e : Stop) : Gives h types (throw e : Serialize α) post := by
  intro s a t _ hrun
  cases hrun

theorem pure {a : α} (hpost : ∀ t, post t a) : Gives h types (pure a) post := by
  intro s a' t hs hrun
  cases hrun
  exact ⟨.refl s, hs, hpost s⟩

theorem bind {x : Serialize α} {f : α → Serialize β} (hx : Gives h types x post)
    (hf : ∀ a, Gives h types (f a) fun u b => ∀ t, Grows h types t u → post t a → post' u b) :
    Gives h types (x >>= f) post' := by
  intro s b u hs hrun
  obtain ⟨a, t, hfirst, hrest⟩ := Effect.bind_ok.1 hrun
  obtain ⟨hst, ht, hpost⟩ := hx s a t hs hfirst
  obtain ⟨htu, hu, hpost'⟩ := hf a t b u ht hrest
  exact ⟨hst.trans htu, hu, hpost' t htu hpost⟩

theorem map {x : Serialize α} {f : α → β} (hx : Gives h types x post)
    (hf : ∀ t a, post t a → post' t (f a)) : Gives h types (f <$> x) post' := by
  intro s b t hs hrun
  obtain ⟨a, hfirst, rfl⟩ := Effect.map_ok.1 hrun
  obtain ⟨hst, ht, hpost⟩ := hx s a t hs hfirst
  exact ⟨hst, ht, hf t a hpost⟩

theorem imp {x : Serialize α} {post' : State → α → Prop} (hx : Gives h types x post)
    (hpost : ∀ t a, post t a → post' t a) : Gives h types x post' := by
  intro s a t hs hrun
  obtain ⟨hst, ht, ha⟩ := hx s a t hs hrun
  exact ⟨hst, ht, hpost t a ha⟩

theorem mapM {f : α → Serialize β} {post : State → α → β → Prop} {as : List α}
    (hpost : ∀ {s t a b}, Grows h types s t → post s a b → post t a b)
    (hf : ∀ a ∈ as, Gives h types (f a) fun t b => post t a b) :
    Gives h types (as.mapM f) fun t bs => List.Forall₂ (post t) as bs := by
  induction as with
  | nil => exact .pure fun _ => .nil
  | cons a as ih =>
    rw [List.mapM_cons]
    apply (hf a List.mem_cons_self).bind
    intro b
    apply (ih fun a' ha' => hf a' (List.mem_cons_of_mem _ ha')).bind
    intro bs
    exact .pure fun _ _ htail hbs _ hhead hb => .cons (hpost hhead hb) (hbs.imp fun _ _ => hpost htail)

end Gives

section

variable {value : Value → Ty → Serialize NodeId} {id : ObjectId} {declared : Ty}

theorem composite_gives {o : Obj} {slots : Slots Value} {blank : Content} {parts : Serialize Content}
    (ho : h.get? id = some o) (hslots : o.slots? types = some slots)
    (hparts : Gives h types parts fun t content => Slots.Rel (Shows t.graph t.Met) slots content.slots)
    {s t : State} {n : NodeId} (hs : Tidy s) (hnew : findValue? id s.identities = none)
    (hrun : composite id o declared blank parts s = (.ok n, t)) :
    Grows h types s t ∧ Tidy t ∧ t.Met id n := by
  have hreserve : reserve id declared o.type blank s =
      (.ok s.graph.size, s.reserved id declared o.type blank) := rfl
  unfold composite at hrun
  rw [Effect.bind_of_ok hreserve] at hrun
  obtain ⟨content, u, hfilled, hrest⟩ := Effect.bind_ok.1 hrun
  cases hrest
  obtain ⟨hgrows, hu, hrel⟩ := hparts _ content u (reserved_tidy hs) hfilled
  exact filled_met ho hslots hnew hgrows hu hrel

variable (hvalue : ∀ v type, Gives h types (value v type) fun t n => Shows t.graph t.Met v n)
include hvalue

theorem values_gives (items : List Value) :
    Gives h types (values value declared items) fun t ns =>
      List.Forall₂ (Shows t.graph t.Met) items ns :=
  .mapM (fun hst hv => hst.shows hv) fun v _ => hvalue v declared

theorem entries_gives (keyType valueType : Ty) (es : List (Value × Value)) :
    Gives h types (entries value keyType valueType es) fun t ns =>
      List.Forall₂ (fun x y => Shows t.graph t.Met x.1 y.1 ∧ Shows t.graph t.Met x.2 y.2) es ns := by
  apply Gives.mapM (fun hst hv => ⟨hst.shows hv.1, hst.shows hv.2⟩)
  rintro ⟨k, v⟩ _
  apply (hvalue k keyType).bind
  intro k'
  apply (hvalue v valueType).bind
  intro v'
  exact .pure fun _ _ hv hshows _ hk hshows' => ⟨hk.shows hshows', hv.shows hshows⟩

theorem fieldNodes_gives (o : Obj) (slots : List (Slot × Value)) :
    Gives h types (fieldNodes value o slots) fun t fields =>
      List.Forall₂ (fun e f => e.1 = .field f.owner f.name f.type ∧ Shows t.graph t.Met e.2 f.value)
        slots fields := by
  apply Gives.mapM (fun hst hv => ⟨hv.1, hst.shows hv.2⟩)
  rintro ⟨slot, v⟩ _
  cases slot with
  | field owner name type =>
    apply (hvalue v type).bind
    intro n
    exact .pure fun _ _ hn hshows => ⟨rfl, hn.shows hshows⟩
  | element => exact .stop _
  | key => exact .stop _
  | value => exact .stop _

omit hvalue in
/-- An object that someone is writing to is waited for: the default serializers go by its shape. -/
theorem dispatch_locked (fallback : Bool) {o : Obj} (ho : h.get? id = some o) (hlocked : o.locked = true) :
    dispatch ⟨h, types, defaults fallback⟩ value id declared = throw .waits := by
  have hselect : ((defaults fallback).chain.selectM? fun a => accepts o a.behaviour.guard) =
      (throw .waits : Serialize _) := by
    simp only [defaults, standardSerializers, Chain.selectM?, List.findM?, accepts, body_of_locked hlocked]
    rfl
  unfold dispatch
  simp only [ho, hselect]
  rfl

omit hvalue in
/-- Without the fallback, plain objects are refused, and all else is as with it. -/
theorem dispatch_fallback (fallback : Bool) (id : ObjectId) (declared : Ty) :
    (∃ e, dispatch ⟨h, types, defaults fallback⟩ value id declared = throw e) ∨
      dispatch ⟨h, types, defaults fallback⟩ value id declared =
        dispatch ⟨h, types, standard⟩ value id declared := by
  cases fallback with
  | true => exact .inr rfl
  | false =>
    cases ho : h.get? id with
    | none => exact .inl ⟨_, by unfold dispatch; simp only [ho]; rfl⟩
    | some o =>
      cases hlocked : o.locked with
      | true => exact .inl ⟨_, dispatch_locked false ho hlocked⟩
      | false =>
        unfold dispatch
        simp only [ho, select_of_unlocked hlocked, pure_bind]
        cases hbody : o.body <;>
          simp [hbody, defaults, standard, standardSerializers, Chain.select?, passes, Body.shape,
            serializeBy, fail]

/-- An object is refused, or it becomes a composite node that is filled with its slots. -/
theorem dispatch_cases (id : ObjectId) (declared : Ty) :
    (∃ e, dispatch ⟨h, types, standard⟩ value id declared = throw e) ∨
    ∃ o slots blank parts, h.get? id = some o ∧ o.slots? types = some slots ∧
      dispatch ⟨h, types, standard⟩ value id declared = composite id o declared blank parts ∧
      Gives h types parts fun t content => Slots.Rel (Shows t.graph t.Met) slots content.slots := by
  cases ho : h.get? id with
  | none =>
    left
    exact ⟨_, by unfold dispatch; simp only [ho]; rfl⟩
  | some o =>
    cases hlocked : o.locked with
    | true =>
      left
      exact ⟨_, dispatch_locked true ho hlocked⟩
    | false =>
      right
      have hitems : ∀ type items shape (make : List NodeId → Content),
          (∀ ns, (make ns).slots = .indexed shape ns) →
          Gives h types (make <$> values value type items) fun t content =>
            Slots.Rel (Shows t.graph t.Met) (.indexed shape items) content.slots := by
        intro type items shape make hmake
        apply (values_gives hvalue items).map
        intro t ns hns
        rw [hmake]
        exact Slots.rel_indexed.2 hns
      rw [dispatch_eq h types declared ho hlocked]
      cases hbody : o.body with
      | array items =>
        refine ⟨o, .indexed .array items, _, _, rfl, ?_, rfl, hitems _ _ _ .array fun _ => rfl⟩
        simp [Obj.slots?, hlocked, hbody]
      | list items =>
        refine ⟨o, .indexed .list items, _, _, rfl, ?_, rfl, hitems _ _ _ .list fun _ => rfl⟩
        simp [Obj.slots?, hlocked, hbody]
      | set items =>
        refine ⟨o, .indexed .set items, _, _, rfl, ?_, rfl, hitems _ _ _ .set fun _ => rfl⟩
        simp [Obj.slots?, hlocked, hbody]
      | map es =>
        refine ⟨o, .keyed es, _, _, rfl, ?_, rfl, ?_⟩
        · simp [Obj.slots?, hlocked, hbody]
        · exact (entries_gives hvalue _ _ es).map fun _ _ hns => Slots.rel_keyed.2 hns
      | fields stored =>
        obtain ⟨slots, hslots⟩ := Obj.exists_slots? types hlocked
        refine ⟨o, slots, .object [], .object <$> fieldNodes value o slots.entries, rfl, hslots, ?_, ?_⟩
        · simp only [fieldsNode, hslots]
        · apply (fieldNodes_gives hvalue o slots.entries).map
          intro t fields hns
          refine ⟨?_, List.forall₂_map_right_iff.2 hns⟩
          rw [Obj.shape_of_slots? hslots, hbody]
          rfl

theorem dispatch_gives (fallback : Bool) {s t : State} {n : NodeId} (hs : Tidy s)
    (hnew : findValue? id s.identities = none)
    (hrun : dispatch ⟨h, types, defaults fallback⟩ value id declared s = (.ok n, t)) :
    Grows h types s t ∧ Tidy t ∧ t.Met id n := by
  rcases dispatch_fallback fallback id declared with ⟨e, heq⟩ | heq
  · rw [heq] at hrun
    cases hrun
  rw [heq] at hrun
  rcases dispatch_cases hvalue id declared with ⟨e, heq⟩ | ⟨o, slots, blank, parts, ho, hslots, heq, hparts⟩
  · rw [heq] at hrun
    cases hrun
  rw [heq] at hrun
  exact composite_gives ho hslots hparts hs hnew hrun

end

theorem null_gives (declared : Ty) :
    Gives h types (atom (.null (nullType declared))) fun t n => Shows t.graph t.Met .null n :=
  (Gives.of_succeeds fun _ => atom_succeeds _).imp fun _ _ => .null

theorem scalar_gives (l : Literal) (declared : Ty) :
    Gives h types (atom (.literal (literalType declared l) l)) fun t n =>
      Shows t.graph t.Met (.scalar l) n :=
  (Gives.of_succeeds fun _ => atom_succeeds _).imp fun _ _ hn => .scalar hn (literalType_hasType declared l)

theorem constant_gives (type name : String) (declared : Ty) :
    Gives h types (push (.constant declared (.ofClass type) name)) fun t n =>
      Shows t.graph t.Met (.constant type name) n :=
  (Gives.of_succeeds fun _ => push_succeeds _).imp fun _ _ => .constant

/-- A value that was captured is shown by its node, whatever was captured before it. -/
theorem valueAt_gives (fallback : Bool) (depth : Nat) (v : Value) (declared : Ty) :
    Gives h types (valueAt ⟨h, types, defaults fallback⟩ depth v declared) fun t n =>
      Shows t.graph t.Met v n := by
  induction depth generalizing v declared with
  | zero =>
    cases v with
    | null => exact null_gives declared
    | scalar l => exact scalar_gives l declared
    | constant type name => exact constant_gives type name declared
    | object id => exact .stop _
  | succ depth ih =>
    cases v with
    | null => exact null_gives declared
    | scalar l => exact scalar_gives l declared
    | constant type name => exact constant_gives type name declared
    | object id =>
      intro s n t hs hrun
      unfold valueAt at hrun
      rw [Effect.bind_of_ok (Effect.get_apply s)] at hrun
      cases found : findValue? id s.identities with
      | some m =>
        simp only [found] at hrun
        cases hrun
        exact ⟨.refl s, hs, .object found⟩
      | none =>
        simp only [found] at hrun
        obtain ⟨hst, ht, hmet⟩ := dispatch_gives ih fallback hs found hrun
        exact ⟨hst, ht, .object hmet⟩

end Serialization

namespace Graph

/-- No composite node can be reached from both. -/
def Apart (g : Graph) (as bs : List NodeId) : Prop :=
  ∀ a ∈ as, ∀ b ∈ bs, ∀ n x, Leads g.children a n → Leads g.children b n → g.get? n = some x →
    x.isReference = false

/-- All composite nodes that can be reached from the roots lie in one stretch of the graph. -/
def Spans (g : Graph) (roots : List NodeId) (first last : NodeId) : Prop :=
  ∀ r ∈ roots, ∀ n x, Leads g.children r n → g.get? n = some x → x.isReference = true →
    first ≤ n ∧ n < last

theorem Spans.apart {g : Graph} {as bs : List NodeId} {i j k l : NodeId} (ha : g.Spans as i j)
    (hb : g.Spans bs k l) (hjk : j ≤ k) : g.Apart as bs := by
  intro a hamem b hbmem n x han hbn hx
  by_contra hreference
  rw [Bool.not_eq_false] at hreference
  have hlow := (ha a hamem n x han hx hreference).2
  have hhigh := (hb b hbmem n x hbn hx hreference).1
  exact absurd (hlow.trans_le (hjk.trans hhigh)) (Nat.lt_irrefl n)

theorem Spans.append {g : Graph} {as bs : List NodeId} {i j : NodeId} (ha : g.Spans as i j)
    (hb : g.Spans bs i j) : g.Spans (as ++ bs) i j := by
  intro r hr
  rcases List.mem_append.1 hr with hr | hr
  · exact ha r hr
  · exact hb r hr

theorem Spans.mono {g : Graph} {roots : List NodeId} {i j i' j' : NodeId} (h : g.Spans roots i j)
    (hi : i' ≤ i) (hj : j ≤ j') : g.Spans roots i' j' := by
  intro r hr n x hn hx hreference
  obtain ⟨hlow, hhigh⟩ := h r hr n x hn hx hreference
  exact ⟨hi.trans hlow, hhigh.trans_le hj⟩

theorem Extended.get? {g g' : Graph} (h : g.Extended g') {n : NodeId} {x : Node}
    (hx : g.get? n = some x) : g'.get? n = some x := by
  rw [h.get?_eq (lt_size hx), hx]

/-- What leads to nodes of the graph only, leads to the same nodes when the graph has grown. -/
theorem Extended.spans {g g' : Graph} (h : g.Extended g') {r : NodeId}
    (hr : ∀ n, Leads g.children r n → n < g.size) : g'.Spans [r] 0 g.size := by
  have hback : ∀ n, Leads g'.children r n → Leads g.children r n := by
    intro n hn
    induction hn with
    | refl => exact .refl
    | tail _ hstep ih =>
      apply ih.tail
      unfold children at hstep ⊢
      rwa [h.get?_eq (hr _ ih)] at hstep
  intro r' hr' n x hn _ _
  cases List.mem_singleton.1 hr'
  exact ⟨Nat.zero_le n, hr n (hback n hn)⟩

end Graph

/-- The objects that were captured have their nodes in one stretch of the graph. -/
structure CapturedWithin (h : Heap) (types : ClassTable) (g : Graph) (met : ObjectId → NodeId → Prop)
    (first last : NodeId) : Prop where
  captured : Captured h types g met
  within : ∀ {id n}, met id n → first ≤ n ∧ n < last

namespace CapturedWithin

variable {h : Heap} {types : ClassTable} {g : Graph} {met : ObjectId → NodeId → Prop} {first last : NodeId}

theorem mono (hc : CapturedWithin h types g met first last) {g' : Graph}
    (hg : ∀ {n x}, g.get? n = some x → g'.get? n = some x) :
    CapturedWithin h types g' met first last where
  captured := hc.captured.mono hg
  within := hc.within

/-- Captured values lead to composite nodes of captured objects only. -/
theorem spans (hc : CapturedWithin h types g met first last) {roots : List NodeId}
    (hroots : ∀ r ∈ roots, ∃ v, Shows g met v r) : g.Spans roots first last := by
  intro r hr n x hn hx hreference
  obtain ⟨v, hv⟩ := hroots r hr
  obtain ⟨w, hw, -⟩ := hc.captured.shown hv hn
  cases x with
  | composite declared runtime content =>
    obtain ⟨id, -, hm⟩ := hw.exists_object hx
    exact hc.within hm
  | atom => cases hreference
  | constant => cases hreference

end CapturedWithin

/-- What was captured since the identities were forgotten lies beyond what the graph held then. -/
theorem Serialization.Grows.capturedWithin {h : Heap} {types : ClassTable} {s t : Serialization.State}
    (hst : Grows h types s t) (hs : s.identities = []) (ht : Tidy t) :
    CapturedWithin h types t.graph t.Met s.graph.size t.graph.size where
  captured := hst.captured hs ht
  within {id n} hm := by
    refine ⟨?_, ht.lt_size hm⟩
    rcases hst.new hm with hold | ⟨hle, -⟩
    · unfold State.Met at hold
      rw [hs] at hold
      cases hold
    · exact hle

namespace Population

open Serialization

/-- The record of a nested call shows what was passed. -/
structure Retells (g : Graph) (met : ObjectId → NodeId → Prop) (call : LiveCall) (r : CallRecord) :
    Prop where
  owner : r.owner = call.owner
  member : r.member = call.member
  params : r.params = call.params
  args : List.Forall₂ (Shows g met) call.args r.args
  result : Option.Rel (Shows g met) call.result r.result

section

variable {g g' : Graph} {met met' : ObjectId → NodeId → Prop}

theorem Retells.mono {call : LiveCall} {r : CallRecord} (h : Retells g met call r)
    (hshows : ∀ {v n}, Shows g met v n → Shows g' met' v n) : Retells g' met' call r where
  owner := h.owner
  member := h.member
  params := h.params
  args := h.args.imp fun _ _ => hshows
  result := rel_imp hshows h.result

theorem shown_of_forall₂ {vs : List Value} {ns : List NodeId} (h : List.Forall₂ (Shows g met) vs ns)
    {n : NodeId} (hn : n ∈ ns) : ∃ v, Shows g met v n := by
  obtain ⟨v, -, hv⟩ := forall₂_mem_right h hn
  exact ⟨v, hv⟩

theorem shown_of_optionRel {v : Option Value} {m : Option NodeId} (h : Option.Rel (Shows g met) v m)
    {n : NodeId} (hn : n ∈ m.toList) : ∃ v, Shows g met v n := by
  cases h with
  | none => cases hn
  | some hv => exact ⟨_, List.mem_singleton.1 hn ▸ hv⟩

theorem Portrays.roots {globals : List GlobalRef} {live : LiveState} {p : PhaseState}
    (h : Portrays g met globals live p) : ∀ n ∈ p.roots, ∃ v, Shows g met v n := by
  intro n hn
  rw [PhaseState.roots, List.mem_append, List.mem_append] at hn
  rcases hn with (hn | hn) | hn
  · exact shown_of_optionRel h.receiver hn
  · exact shown_of_forall₂ h.args hn
  · obtain ⟨c, hc, rfl⟩ := List.mem_map.1 hn
    obtain ⟨e, -, -, hv⟩ := forall₂_mem_right h.globals hc
    exact ⟨e.2, hv⟩

theorem Reported.roots {sig : Signature} {outcome : LiveOutcome} {o : Outcome}
    (h : Reported sig g met outcome o) : ∀ n ∈ o.roots, ∃ v, Shows g met v n := by
  intro n hn
  cases h with
  | void => cases hn
  | value _ hresult => exact shown_of_optionRel hresult hn
  | error he => exact ⟨_, List.mem_singleton.1 hn ▸ he⟩

theorem Retells.roots {calls : List LiveCall} {rs : List CallRecord}
    (h : List.Forall₂ (Retells g met) calls rs) :
    ∀ n ∈ rs.flatMap CallRecord.roots, ∃ v, Shows g met v n := by
  intro n hn
  obtain ⟨r, hr, hn⟩ := List.mem_flatMap.1 hn
  obtain ⟨call, -, hcall⟩ := forall₂_mem_right h hr
  rw [CallRecord.roots, List.mem_append] at hn
  rcases hn with hn | hn
  · exact shown_of_forall₂ hcall.args hn
  · exact shown_of_optionRel hcall.result hn

end

/-! ### Populations that went well -/

section

variable {h : Heap} {types : ClassTable} (fallback : Bool)

theorem node_gives (v : Value) (declared : Ty) :
    Gives h types (node ⟨h, types, defaults fallback⟩ v declared) fun t n => Shows t.graph t.Met v n :=
  valueAt_gives fallback _ v declared

theorem optionalNode_gives (v : Option Value) (declared : Ty) :
    Gives h types (optionalNode ⟨h, types, defaults fallback⟩ v declared) fun t n =>
      Option.Rel (Shows t.graph t.Met) v n := by
  cases v with
  | none => exact .pure fun _ => .none
  | some v => exact (node_gives fallback v declared).map fun _ _ hn => .some hn

theorem argNodes_gives (params : List Ty) (args : List Value) :
    Gives h types (argNodes ⟨h, types, defaults fallback⟩ params args) fun t ns =>
      List.Forall₂ (Shows t.graph t.Met) args ns := by
  have hall : Gives h types (argNodes ⟨h, types, defaults fallback⟩ params args) fun t ns =>
      List.Forall₂ (fun (a : Value × Nat) n => Shows t.graph t.Met a.1 n) args.zipIdx ns :=
    .mapM (fun hst hv => hst.shows hv) fun a _ => node_gives fallback a.1 _
  apply hall.imp
  intro t ns hns
  rw [← List.forall₂_map_left_iff, List.zipIdx_map_fst] at hns
  exact hns

theorem phaseState_gives (phase : Phase) (sig : Signature) (globals : List GlobalRef) (live : LiveState) :
    Gives h types (phaseState ⟨h, types, defaults fallback⟩ phase sig globals live) fun t p =>
      Portrays t.graph t.Met globals live p := by
  unfold phaseState
  dsimp only
  split
  · exact (Gives.stop (α := PhaseState) _)
  apply (optionalNode_gives fallback live.receiver sig.declaring).bind
  intro receiver
  apply (argNodes_gives fallback sig.params live.args).bind
  intro args
  have hglobals : Gives h types ((globals.zip live.globals).mapM fun x => do
      return (⟨x.1, ← node ⟨h, types, defaults fallback⟩ x.2 x.1.type⟩ : CapturedGlobal)) fun t ns =>
        List.Forall₂ (fun e n => n.global = e.1 ∧ Shows t.graph t.Met e.2 n.value)
          (globals.zip live.globals) ns := by
    apply Gives.mapM (fun hst hv => ⟨hv.1, hst.shows hv.2⟩)
    intro e _
    apply (node_gives fallback e.2 e.1.type).bind
    intro n
    exact .pure fun _ _ hst hn => ⟨rfl, hst.shows hn⟩
  apply hglobals.bind
  intro gs
  exact .pure fun _ _ htu hgs _ hsu hargs _ hru hreceiver =>
    ⟨rel_imp hru.shows hreceiver, hargs.imp fun _ _ => hsu.shows,
      hgs.imp fun _ _ => And.imp_right htu.shows⟩

theorem outcomeNodes_gives (sig : Signature) (outcome : LiveOutcome) :
    Gives h types (outcomeNodes ⟨h, types, defaults fallback⟩ sig outcome) fun t o =>
      Reported sig t.graph t.Met outcome o := by
  cases outcome with
  | returned result =>
    rw [outcomeNodes]
    by_cases hvoid : sig.isVoid
    · rw [if_pos hvoid]
      exact .pure fun _ => .void hvoid
    · rw [if_neg hvoid]
      exact (optionalNode_gives fallback result sig.result).map fun _ _ hn =>
        .value (by simpa using hvoid) hn
  | threw e => exact (node_gives fallback e .object).map fun _ _ hn => .error hn

theorem callRecord_gives (call : LiveCall) :
    Gives h types (callRecord ⟨h, types, defaults fallback⟩ call) fun t r =>
      Retells t.graph t.Met call r := by
  apply (argNodes_gives fallback call.params call.args).bind
  intro args
  apply (optionalNode_gives fallback call.result .object).bind
  intro result
  exact .pure fun _ _ hst hresult _ hru hargs =>
    ⟨rfl, rfl, rfl, hargs.imp fun _ _ => hru.shows, rel_imp hst.shows hresult⟩

theorem callRecords_gives (calls : List LiveCall) :
    Gives h types (calls.mapM (callRecord ⟨h, types, defaults fallback⟩)) fun t rs =>
      List.Forall₂ (Retells t.graph t.Met) calls rs :=
  .mapM (fun hst hr => hr.mono hst.shows) fun call _ => callRecord_gives fallback call

variable {fallback} {globals : List GlobalRef} {live : LiveState} {outcome : LiveOutcome}
  {inputs outputs : List LiveCall} {s : Snapshot} {i : Interner}

theorem setup_captures (hok : (setup ⟨h, types, defaults fallback⟩ globals live s i).answer = .ok ()) :
    ∃ p g met, (setup ⟨h, types, defaults fallback⟩ globals live s i).snapshot =
        { s with graph := g, setup := p } ∧
      CapturedWithin h types g met s.graph.size g.size ∧ Portrays g met globals live p := by
  obtain ⟨p, t, hrun, hsnapshot⟩ := run_ok hok
  obtain ⟨hgrows, ht, hportrays⟩ :=
    phaseState_gives fallback .setup s.signature globals live _ p t (start_tidy s.graph i) hrun
  exact ⟨p, t.graph, t.Met, hsnapshot, hgrows.capturedWithin rfl ht, hportrays⟩

/-- The nodes of what is observed after a call: those of the objects in calls into the observed code come
after those of all other objects. -/
structure Aftermath.Captures (h : Heap) (types : ClassTable) (g : Graph) (first last : NodeId)
    (sig : Signature) (globals : List GlobalRef) (live : LiveState) (outcome : LiveOutcome)
    (inputs outputs : List LiveCall) (a : Aftermath) (met met' : ObjectId → NodeId → Prop) : Prop where
  captured : CapturedWithin h types g met first last
  state : Portrays g met globals live a.state
  outcome : Reported sig g met outcome a.outcome
  outputs : List.Forall₂ (Retells g met) outputs a.outputs
  first_le : first ≤ last
  last_le : last ≤ g.size
  captured' : CapturedWithin h types g met' last g.size
  inputs : List.Forall₂ (Retells g met') inputs a.inputs

theorem expect_captures
    (hok : (expect ⟨h, types, defaults fallback⟩ globals live outcome inputs outputs s i).answer = .ok ()) :
    ∃ a g met met' last, (expect ⟨h, types, defaults fallback⟩ globals live outcome inputs outputs s i).snapshot =
        { s with
          graph := g
          expect := a.state
          outcome := a.outcome
          inputs := s.inputs ++ a.inputs
          outputs := s.outputs ++ a.outputs } ∧
      Aftermath.Captures h types g s.graph.size last s.signature globals live outcome inputs outputs a
        met met' := by
  obtain ⟨a, x, hrun, hsnapshot⟩ := run_ok hok
  obtain ⟨t, u, w, hstate, houtcome, houtputs, hinputs⟩ := aftermath_ok hrun
  obtain ⟨hst, ht, hportrays⟩ :=
    phaseState_gives fallback .expect s.signature globals live _ _ _ (start_tidy s.graph i) hstate
  obtain ⟨htu, hu, hreported⟩ := outcomeNodes_gives fallback s.signature outcome _ _ _ ht houtcome
  obtain ⟨huw, hw, houts⟩ := callRecords_gives fallback outputs _ _ _ hu houtputs
  obtain ⟨hwx, hx, hins⟩ :=
    callRecords_gives fallback inputs _ _ _ (tidy_of_identities_eq_nil rfl) hinputs
  have hgrows := (hst.trans htu).trans huw
  have hshows : ∀ {v n}, Shows w.graph w.Met v n → Shows x.graph w.Met v n :=
    fun hv => hv.mono (fun hx _ => hwx.node hx) fun hm => hm
  refine ⟨a, x.graph, w.Met, x.Met, w.graph.size, hsnapshot, ?_⟩
  constructor
  · exact (hgrows.capturedWithin rfl hw).mono hwx.node
  · exact hportrays.mono fun hv => hshows ((htu.trans huw).shows hv)
  · exact hreported.mono fun hv => hshows (huw.shows hv)
  · exact houts.imp fun _ _ hr => hr.mono hshows
  · exact hgrows.size_le
  · exact hwx.size_le
  · exact hwx.capturedWithin rfl hx
  · exact hins

end

/-! ### Phases apart -/

/-- No composite node is reached from two phases: from the state before the call, from the state after it
with the outcome and the calls out of the observed code, and from the calls into that code. -/
structure Isolated (g : Graph) (setup expect inputs : List NodeId) : Prop where
  setup_expect : g.Apart setup expect
  setup_inputs : g.Apart setup inputs
  expect_inputs : g.Apart expect inputs

/-- Populating a snapshot before and after a call keeps every node of the first phase. The phases share
plain values at most, also with what the snapshot held before, and after the call one live object is
one node. -/
theorem phases_isolated (fallback : Bool) (types : ClassTable) (h h' : Heap)
    (globals globals' : List GlobalRef) (live live' : LiveState) (outcome : LiveOutcome)
    (inputs outputs : List LiveCall) (s : Snapshot) (i i' : Interner) :
    let before := setup ⟨h, types, defaults fallback⟩ globals live s i
    let after := expect ⟨h', types, defaults fallback⟩ globals' live' outcome inputs outputs
      before.snapshot i'
    before.answer = .ok () → after.answer = .ok () →
      before.snapshot.graph.Extended after.snapshot.graph ∧
      after.snapshot.setup = before.snapshot.setup ∧
      ∃ ins outs, after.snapshot.inputs = s.inputs ++ ins ∧ after.snapshot.outputs = s.outputs ++ outs ∧
        let setupRoots := after.snapshot.setup.roots
        let expectRoots := after.snapshot.expect.roots ++ after.snapshot.outcome.roots ++
          outs.flatMap CallRecord.roots
        let inputRoots := ins.flatMap CallRecord.roots
        Isolated after.snapshot.graph setupRoots expectRoots inputRoots ∧
        (∀ r, (∀ n, Leads s.graph.children r n → n < s.graph.size) →
          after.snapshot.graph.Apart [r] (setupRoots ++ expectRoots ++ inputRoots)) ∧
        ∃ met, Captured h' types after.snapshot.graph met ∧
          Portrays after.snapshot.graph met globals' live' after.snapshot.expect ∧
          Reported s.signature after.snapshot.graph met outcome after.snapshot.outcome ∧
          List.Forall₂ (Retells after.snapshot.graph met) outputs outs := by
  intro before after hbefore hafter
  have hextended₁ : s.graph.Extended before.snapshot.graph := setup_extended _ _ _ s i
  have hextended : before.snapshot.graph.Extended after.snapshot.graph :=
    expect_extended _ _ _ _ _ _ before.snapshot i'
  obtain ⟨p, g, met₀, hsetup, hcaptured, hportrays⟩ := setup_captures hbefore
  obtain ⟨a, g', met, met', last, hexpect, hcaptures⟩ := expect_captures hafter
  have hbeforeEq : before.snapshot = _ := hsetup
  have hafterEq : after.snapshot = _ := hexpect
  rw [hbeforeEq] at hcaptures hextended hextended₁ hafterEq
  rw [hafterEq] at hextended
  rw [hafterEq, hbeforeEq]
  dsimp only at hcaptures hextended hextended₁ ⊢
  have hshown : ∀ {v n}, Shows g met₀ v n → Shows g' met₀ v n :=
    fun hv => hv.mono (fun hx _ => hextended.get? hx) fun hm => hm
  have hsetupSpans := (hcaptured.mono hextended.get?).spans (hportrays.mono hshown).roots
  have hexpectSpans := ((hcaptures.captured.spans hcaptures.state.roots).append
    (hcaptures.captured.spans hcaptures.outcome.roots)).append
      (hcaptures.captured.spans (Retells.roots hcaptures.outputs))
  have hinputSpans := hcaptures.captured'.spans (Retells.roots hcaptures.inputs)
  refine ⟨hextended, rfl, a.inputs, a.outputs, rfl, rfl, ?_, ?_, met, hcaptures.captured.captured,
    hcaptures.state, hcaptures.outcome, hcaptures.outputs⟩
  · constructor
    · exact hsetupSpans.apart hexpectSpans le_rfl
    · exact hsetupSpans.apart hinputSpans hcaptures.first_le
    · exact hexpectSpans.apart hinputSpans le_rfl
  · intro r hr
    have hnew : g'.Spans (p.roots ++ (a.state.roots ++ a.outcome.roots ++
        a.outputs.flatMap CallRecord.roots) ++ a.inputs.flatMap CallRecord.roots) s.graph.size g'.size := by
      have hmid := hextended₁.size_le.trans hcaptures.first_le
      apply Graph.Spans.append
      · apply Graph.Spans.append
        · exact hsetupSpans.mono le_rfl hextended.size_le
        · exact hexpectSpans.mono hextended₁.size_le hcaptures.last_le
      · exact hinputSpans.mono hmid le_rfl
    exact ((hextended₁.trans hextended).spans hr).apart hnew le_rfl

/-- A list that holds itself and a set, as the receiver, the arguments, the result and what is passed in
calls into and out of the observed code. -/
theorem shared_list_isolated :
    let list : List Value → Obj := fun items => ⟨.ofClass "ArrayList", .list items, false⟩
    let set : Obj := ⟨.ofClass "HashSet", .set [.scalar (.bool true)], false⟩
    let live : LiveState := ⟨some (.object 0), [.object 0, .object 1], []⟩
    let before := setup ⟨⟨#[list [.object 0, .object 1], set]⟩, .builtin, standard⟩ [] live
      (.new ⟨.ofClass "List", "rotate", [.object], .object⟩ .empty) .empty
    let after := expect ⟨⟨#[list [.object 1, .object 0], set]⟩, .builtin, standard⟩ [] live
      (.returned (some (.object 0))) [⟨.ofClass "Peer", "tell", [], [.object 1, .object 0], none⟩]
      [⟨.ofClass "Log", "note", [], [.object 0], some (.object 1)⟩] before.snapshot before.interner
    before.answer = .ok () ∧ after.answer = .ok () ∧ before.snapshot.graph.size = 3 ∧
      after.snapshot.graph.size = 7 ∧ ∃ ins outs, Isolated after.snapshot.graph after.snapshot.setup.roots
        (after.snapshot.expect.roots ++ after.snapshot.outcome.roots ++ outs) ins := by
  intro list set live before after
  have hbefore : before.answer = .ok () := by decide +kernel
  have hafter : after.answer = .ok () := by decide +kernel
  obtain ⟨-, -, ins, outs, -, -, hisolated, -⟩ :=
    phases_isolated true .builtin _ _ [] [] live live _ _ _ _ .empty before.interner hbefore hafter
  exact ⟨hbefore, hafter, by decide +kernel, by decide +kernel, _, _, hisolated⟩

end Population

end Reenact
