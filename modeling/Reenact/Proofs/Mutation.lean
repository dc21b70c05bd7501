import Mathlib
import Reenact.Proofs.Evaluation
import Reenact.Proofs.Isomorphism
import Reenact.Proofs.WellFormed

/-!
Calls that fill a collection: what they make of their receiver, and that on heaps that stand for
each other they do the same.
-/

namespace Reenact

/-- A call of the method that fills collections of a shape. -/
inductive Fills : Shape → String → List Value → Prop where
  | list (v : Value) : Fills .list "add" [v]
  | set (v : Value) : Fills .set "add" [v]
  | map (k v : Value) : Fills .map "put" [k, v]

/-- The body of the receiver before and after such a call, and its result. -/
inductive Filled : String → List Value → Body → Body → Value → Prop where
  | list {v items} : Filled "add" [v] (.list items) (.list (items ++ [v])) (.scalar (.bool true))
  | new {v items} : v ∉ items →
      Filled "add" [v] (.set items) (.set (items ++ [v])) (.scalar (.bool true))
  | held {v items} : v ∈ items → Filled "add" [v] (.set items) (.set items) (.scalar (.bool false))
  | map {k v entries} : Filled "put" [k, v] (.map entries) (.map (putEntry k v entries))
      ((findValue? k entries).getD .null)

/-- The same collection up to which object is which. -/
inductive Body.Beside (R : ObjectId → ObjectId → Prop) : Body → Body → Prop where
  | list {items items'} : List.Forall₂ (Renamed R) items items' → Beside R (.list items) (.list items')
  | set {items items'} : List.Forall₂ (Renamed R) items items' → Beside R (.set items) (.set items')
  | map {entries entries'} :
      List.Forall₂ (fun x y => Renamed R x.1 y.1 ∧ Renamed R x.2 y.2) entries entries' →
      Beside R (.map entries) (.map entries')

section

variable {method : String} {args : List Value} {body after : Body} {result : Value} {id : ObjectId}
  {o : Obj}

theorem Filled.call (h : Filled method args o.body after result) {m : Machine}
    (ho : m.heap.get? id = some o) :
    Collection.call id o method args m = (.ok result, { m with heap := m.heap.setBody id after }) := by
  obtain ⟨type, body, locked⟩ := o
  dsimp only at h
  cases h with
  | list => rw [Evaluate.call_add, Heap.push_list ho rfl]
  | new hv => rw [Evaluate.call_add, Heap.push_set ho rfl hv]
  | held hv => rw [Evaluate.call_add, Heap.push_set_of_mem ho rfl hv, Heap.setBody_self ho]
  | map => rw [Evaluate.call_put, Heap.put_map ho rfl]

theorem Fills.filled (h : Fills body.shape method args) : ∃ after result, Filled method args body after result := by
  generalize hshape : body.shape = shape at h
  cases h with
  | list v =>
    cases body with
    | list items => exact ⟨_, _, .list⟩
    | _ => cases hshape
  | set v =>
    cases body with
    | set items =>
      by_cases hv : v ∈ items
      · exact ⟨_, _, .held hv⟩
      · exact ⟨_, _, .new hv⟩
    | _ => cases hshape
  | map k v =>
    cases body with
    | map entries => exact ⟨_, _, .map⟩
    | _ => cases hshape

theorem Filled.shape (h : Filled method args body after result) : after.shape = body.shape := by
  cases h <;> rfl

theorem Filled.distinct (h : Filled method args body after result) (hdistinct : body.Distinct) :
    after.Distinct := by
  cases h with
  | list => trivial
  | new hv =>
    rw [← List.concat_eq_append]
    exact List.Nodup.concat hv hdistinct
  | held => exact hdistinct
  | map => exact nodup_putEntry hdistinct

/-- Nothing is held afterwards but what was held before and the arguments. -/
theorem Filled.mem_values (h : Filled method args body after result) {w : Value} (hw : w ∈ after.values) :
    w ∈ body.values ∨ w ∈ args := by
  cases h with
  | list => exact List.mem_append.1 hw
  | new => exact List.mem_append.1 hw
  | held => exact .inl hw
  | @map k v entries =>
    obtain ⟨e, he, hw⟩ := List.mem_flatMap.1 hw
    rcases mem_putEntry he with rfl | he
    · exact .inr hw
    · exact .inl (List.mem_flatMap.2 ⟨e, he, hw⟩)

theorem Filled.result_mem (h : Filled method args body after result) :
    result ∈ body.values ∨ result.object? = none := by
  cases h with
  | @map k v entries =>
    cases hfound : findValue? k entries with
    | none => exact .inr rfl
    | some w => exact .inl (List.mem_flatMap.2 ⟨_, mem_of_findValue? hfound, by simp⟩)
  | _ => exact .inr rfl

end

/-! ### Side by side -/

section

variable {R : ObjectId → ObjectId → Prop} (hunique : Relator.BiUnique R)
include hunique

theorem Renamed.eq_iff {v v' w w' : Value} (hv : Renamed R v v') (hw : Renamed R w w') :
    v = w ↔ v' = w' := by
  cases v with
  | object a =>
    obtain ⟨b, rfl, hab⟩ := hv.object_left
    constructor
    · rintro rfl
      obtain ⟨c, rfl, hac⟩ := hw.object_left
      rw [hunique.2 hab hac]
    · rintro rfl
      obtain ⟨c, rfl, hac⟩ := hw.flip.object_left
      rw [hunique.1 hab hac]
  | null | scalar | constant =>
    cases (show _ = v' from hv)
    constructor
    · rintro rfl
      exact hw
    · rintro rfl
      cases w with
      | object => obtain ⟨_, heq, _⟩ := hw.object_left; cases heq
      | _ => exact (show _ = _ from hw).symm

private theorem mem_iff_of_renamed {items items' : List Value} {v v' : Value}
    (hitems : List.Forall₂ (Renamed R) items items') (hv : Renamed R v v') : v ∈ items ↔ v' ∈ items' := by
  constructor
  · intro hmem
    obtain ⟨w', hw', hw⟩ := forall₂_mem_left hitems hmem
    rwa [(Renamed.eq_iff hunique hv hw).1 rfl]
  · intro hmem
    obtain ⟨w, hw, hrenamed⟩ := forall₂_mem_right hitems hmem
    rwa [(Renamed.eq_iff hunique hv hrenamed).2 rfl]

/-- Calls with the same arguments do the same to collections that are the same. -/
theorem Filled.renamed {method : String} {args args' : List Value} {body body' after : Body} {result : Value}
    (h : Filled method args body after result) (hbody : body.Beside R body')
    (hargs : List.Forall₂ (Renamed R) args args') :
    ∃ after' result', Filled method args' body' after' result' ∧ after.Beside R after' ∧
      Renamed R result result' := by
  have hkeys : ∀ {k k'}, Renamed R k k' → ∀ {a a'}, Renamed R a a' → (a = k ↔ a' = k') :=
    fun hk _ _ ha => Renamed.eq_iff hunique ha hk
  cases h with
  | list =>
    obtain ⟨v', _, hv, hnil, rfl⟩ := List.forall₂_cons_left_iff.1 hargs
    cases hnil
    cases hbody with
    | list hitems => exact ⟨_, _, .list, .list (List.rel_append hitems (.cons hv .nil)), rfl⟩
  | new hnew =>
    obtain ⟨v', _, hv, hnil, rfl⟩ := List.forall₂_cons_left_iff.1 hargs
    cases hnil
    cases hbody with
    | set hitems =>
      have hnew' := fun hmem => hnew ((mem_iff_of_renamed hunique hitems hv).2 hmem)
      exact ⟨_, _, .new hnew', .set (List.rel_append hitems (.cons hv .nil)), rfl⟩
  | held hheld =>
    obtain ⟨v', _, hv, hnil, rfl⟩ := List.forall₂_cons_left_iff.1 hargs
    cases hnil
    cases hbody with
    | set hitems =>
      have hheld' := (mem_iff_of_renamed hunique hitems hv).1 hheld
      exact ⟨_, _, .held hheld', .set hitems, rfl⟩
  | map =>
    obtain ⟨k', _, hk, hrest, rfl⟩ := List.forall₂_cons_left_iff.1 hargs
    obtain ⟨v', _, hv, hnil, rfl⟩ := List.forall₂_cons_left_iff.1 hrest
    cases hnil
    cases hbody with
    | map hentries =>
      refine ⟨_, _, .map, .map (forall₂_putEntry hentries hk hv (hkeys hk)), ?_⟩
      exact rel_getD (findValue?_forall₂ hentries (hkeys hk)) (rfl : Renamed R .null .null)

variable {types : ClassTable} {h h' : Heap} {id b : ObjectId} {o o' : Obj}

omit hunique in
private theorem beside_of_slots {slots slots' : Slots Value} (hslots : o.slots? types = some slots)
    (hslots' : o'.slots? types = some slots') (hrel : Slots.Rel (Renamed R) slots slots') {method : String}
    {args : List Value} (hfills : Fills o.body.shape method args) : o.body.Beside R o'.body := by
  have hshape : o'.body.shape = o.body.shape := by
    rw [← Obj.shape_of_slots? hslots, ← Obj.shape_of_slots? hslots', hrel.1]
  have hlocked : o.locked = false := Obj.unlocked_of_slots? hslots
  have hlocked' : o'.locked = false := Obj.unlocked_of_slots? hslots'
  obtain ⟨type, body, locked⟩ := o
  obtain ⟨type', body', locked'⟩ := o'
  dsimp only at hshape hlocked hlocked' hfills
  subst hlocked hlocked'
  cases body with
  | fields => cases hfills
  | array => cases hfills
  | list =>
    cases body' with
    | list =>
      cases hslots
      cases hslots'
      exact .list (Slots.rel_indexed.1 hrel)
    | _ => cases hshape
  | set =>
    cases body' with
    | set =>
      cases hslots
      cases hslots'
      exact .set (Slots.rel_indexed.1 hrel)
    | _ => cases hshape
  | map =>
    cases body' with
    | map =>
      cases hslots
      cases hslots'
      exact .map (Slots.rel_keyed.1 hrel)
    | _ => cases hshape

omit hunique in
private theorem slots_of_beside {body body' : Body} (h : body.Beside R body') (hlocked : o.locked = false)
    (hlocked' : o'.locked = false) :
    ∃ slots slots', { o with body }.slots? types = some slots ∧
      { o' with body := body' }.slots? types = some slots' ∧ Slots.Rel (Renamed R) slots slots' := by
  unfold Obj.slots?
  simp only [hlocked, hlocked', Bool.false_eq_true, if_false]
  cases h with
  | list hitems => exact ⟨_, _, rfl, rfl, Slots.rel_indexed.2 hitems⟩
  | set hitems => exact ⟨_, _, rfl, rfl, Slots.rel_indexed.2 hitems⟩
  | map hentries => exact ⟨_, _, rfl, rfl, Slots.rel_keyed.2 hentries⟩

theorem Linked.setBody {body body' : Body} (hlinked : Linked types h h' R) (hR : R id b)
    (ho : h.get? id = some o) (ho' : h'.get? b = some o') (hbody : body.Beside R body') :
    Linked types (h.setBody id body) (h'.setBody b body') R := by
  intro a c hac
  obtain ⟨p, p', slots, slots', hp, hp', hslots, hslots', hclass, hrel⟩ := hlinked a c hac
  by_cases ha : a = id
  · subst ha
    cases hunique.2 hR hac
    cases ho.symm.trans hp
    cases ho'.symm.trans hp'
    have hlocked : o.locked = false := Obj.unlocked_of_slots? hslots
    have hlocked' : o'.locked = false := Obj.unlocked_of_slots? hslots'
    obtain ⟨after, after', hafter, hafter', hrel'⟩ := slots_of_beside hbody hlocked hlocked'
    exact ⟨_, _, after, after', Heap.get?_setBody body ho, Heap.get?_setBody body' ho', hafter, hafter',
      hclass, hrel'⟩
  · have hc : c ≠ b := fun hc => ha (hunique.1 hac (hc ▸ hR))
    exact ⟨p, p', slots, slots', (Heap.get?_setBody_of_ne body ha).trans hp,
      (Heap.get?_setBody_of_ne body' hc).trans hp', hslots, hslots', hclass, hrel⟩

/-- Calls on objects that stand for each other leave heaps that do so, and give the same. -/
theorem Linked.call {method : String} {args args' : List Value} {after : Body} {result : Value}
    (hlinked : Linked types h h' R) (hR : R id b) (ho : h.get? id = some o)
    (hfills : Fills o.body.shape method args) (hfilled : Filled method args o.body after result)
    (hargs : List.Forall₂ (Renamed R) args args') :
    ∃ o' after' result', h'.get? b = some o' ∧ Filled method args' o'.body after' result' ∧
      Linked types (h.setBody id after) (h'.setBody b after') R ∧ Renamed R result result' := by
  obtain ⟨p, o', slots, slots', hp, ho', hslots, hslots', _, hrel⟩ := hlinked id b hR
  cases ho.symm.trans hp
  obtain ⟨after', result', hfilled', hafter, hresult⟩ :=
    hfilled.renamed hunique (beside_of_slots hslots hslots' hrel hfills) hargs
  exact ⟨o', after', result', ho', hfilled',
    hlinked.setBody hunique hR ho ho' hafter, hresult⟩

end

/-! ### What stays well-formed -/

section

variable {types : ClassTable} {h : Heap} {id a : ObjectId} {o p : Obj} {method : String} {args : List Value}
  {after : Body} {result v : Value}

variable (hfilled : Filled method args o.body after result) (ho : h.get? id = some o)
include hfilled ho

/-- Every object that was well-formed still is, and of the same class. -/
theorem Filled.wellFormed_object (hp : h.get? a = some p) (hwell : p.WellFormed types) :
    ∃ q, (h.setBody id after).get? a = some q ∧ q.type = p.type ∧ q.WellFormed types := by
  by_cases heq : a = id
  · subst heq
    cases ho.symm.trans hp
    obtain ⟨hlocked, hsuits, hstem, hdistinct, hfields⟩ := hwell
    exact ⟨_, Heap.get?_setBody after ho, rfl, hlocked, hfilled.shape ▸ hsuits, hstem,
      hfilled.distinct hdistinct, hfields⟩
  · exact ⟨p, (Heap.get?_setBody_of_ne after heq).trans hp, rfl, hwell⟩

variable (hv : v ∈ .object id :: result :: args)
include hv

/-- What is reached after the call was reached before from the receiver or an argument. -/
theorem Filled.reached (ha : a ∈ (h.setBody id after).reachable v) :
    ∃ w ∈ .object id :: args, a ∈ h.reachable w := by
  have hpart : ∀ c, Value.object c ∈ o.body.values → c ∈ h.reachable (.object id) := by
    intro c hc
    refine Heap.mem_reachable.2 ⟨id, rfl, .single ?_⟩
    rw [Heap.references_of_get? ho]
    exact List.mem_filterMap.2 ⟨_, hc, rfl⟩
  obtain ⟨root, rfl, hlead⟩ := Heap.mem_reachable.1 ha
  clear ha
  -- a step after the call is one before it, unless it leads from the receiver to an argument
  induction hlead with
  | refl =>
    rcases List.mem_cons.1 hv with heq | hrest
    · exact ⟨_, List.mem_cons_self, Heap.mem_reachable.2 ⟨_, heq.symm, .refl⟩⟩
    rcases List.mem_cons.1 hrest with heq | hrest
    · rcases hfilled.result_mem with hmem | hnone
      · exact ⟨_, List.mem_cons_self, hpart root (heq ▸ hmem)⟩
      · rw [← heq] at hnone
        cases hnone
    · exact ⟨_, List.mem_cons_of_mem _ hrest, Heap.mem_reachable.2 ⟨root, rfl, .refl⟩⟩
  | @tail b c _ hstep ih =>
    obtain ⟨w, hw, hreach⟩ := ih
    by_cases hb : b = id
    · rw [hb, Heap.references_of_get? (Heap.get?_setBody after ho)] at hstep
      obtain ⟨u, hu, hobject⟩ := List.mem_filterMap.1 hstep
      cases u with
      | object d =>
        cases hobject
        rcases hfilled.mem_values hu with hmem | harg
        · exact ⟨_, List.mem_cons_self, hpart c hmem⟩
        · exact ⟨_, List.mem_cons_of_mem _ harg, Heap.mem_reachable.2 ⟨c, rfl, .refl⟩⟩
      | _ => cases hobject
    · have hsame : (h.setBody id after).references b = h.references b := by
        unfold Heap.references Heap.body?
        rw [Heap.get?_setBody_of_ne after hb]
      rw [hsame] at hstep
      obtain ⟨start, rfl, hlead⟩ := Heap.mem_reachable.1 hreach
      exact ⟨_, hw, Heap.mem_reachable.2 ⟨start, rfl, hlead.tail hstep⟩⟩

theorem Filled.wellFormed (hwell : ∀ w ∈ .object id :: args, h.WellFormed types w) :
    (h.setBody id after).WellFormed types v := by
  intro a ha
  obtain ⟨w, hw, hreach⟩ := hfilled.reached ho hv ha
  obtain ⟨p, hp, hpwell⟩ := (hwell w hw).get? hreach
  obtain ⟨q, hq, -, hqwell⟩ := hfilled.wellFormed_object ho hp hpwell
  rw [hq]
  simpa using hqwell

end

end Reenact
