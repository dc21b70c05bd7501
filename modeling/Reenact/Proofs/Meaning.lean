import Mathlib
import Reenact.Proofs.Description

/-!
What assertions mean. On values without cycles, an assertion generated for a node passes on the unlocked
values that are related to the node part by part, and on no other.
-/

namespace Reenact

/-- What the object that a value refers to holds. -/
def Heap.bodyOf? (h : Heap) (v : Value) : Option Body := v.object?.bind h.body?

namespace Matcher

variable {types : ClassTable} {g : Graph} {h h' : Heap} {id : NodeId} {v : Value}

/-! ### The relation -/

/-- An object of the one class passes for one of the other: of a hidden class only the public supertype
counts. -/
def PassesFor (types : ClassTable) (runtime actual : Ty) : Prop :=
  if runtime.className?.map types.isHidden = some true then
    types.isAssignable actual (types.publicSupertype runtime) = true
  else actual.erasure = runtime.erasure

/-- What a node requires of a value, where its parts require of values what `related` says. -/
def Requires (types : ClassTable) (h : Heap) (related : NodeId → Value → Prop) (n : Node) (v : Value) : Prop :=
  match n with
  | .atom (.literal _ l) => v = .scalar l
  | .atom (.null _) => v = .null
  | .constant _ runtime name => v = .constant runtime.erasure.text name
  | .composite _ runtime (.object fields) =>
    ∃ id o slots, v = .object id ∧ h.get? id = some o ∧ o.slots? types = some slots ∧
      PassesFor types runtime o.type ∧ ∀ f ∈ fields, ∃ w, slots.field? f.name = some w ∧ related f.value w
  | .composite _ _ (.list elements) =>
    ∃ items, (h.bodyOf? v = some (.list items) ∨ h.bodyOf? v = some (.set items)) ∧
      List.Forall₂ related elements items
  | .composite declared runtime (.array elements) =>
    ∃ items, h.bodyOf? v = some (.array items) ∧ List.Forall₂ related elements items ∧
      ∀ kind, (Node.composite declared runtime (.array elements)).componentType = .primitive kind →
        (h.typeOf? v).bind Ty.component? = some (.primitive kind)
  | .composite _ _ (.set elements) =>
    ∃ items, (h.bodyOf? v = some (.list items) ∨ h.bodyOf? v = some (.set items) ∨
      h.bodyOf? v = some (.array items)) ∧ Matched related elements items
  | .composite _ _ (.map entries) =>
    ∃ items, h.bodyOf? v = some (.map items) ∧
      Matched (fun e x => related e.1 x.1 ∧ related e.2 x.2) entries items

/-- A value is related to a node if it is as the node requires, and its parts are related to those of the
node. -/
inductive Relates (types : ClassTable) (g : Graph) (h : Heap) : NodeId → Value → Prop
  | intro {id : NodeId} {n : Node} {v : Value} (related : NodeId → Value → Prop) (hn : g.get? id = some n)
      (hrequires : Requires types h related n v)
      (hparts : ∀ part w, related part w → Relates types g h part w) : Relates types g h id v

theorem Requires.imp {related related' : NodeId → Value → Prop} (hrel : ∀ part w, related part w → related' part w)
    {n : Node} (hn : Requires types h related n v) : Requires types h related' n v := by
  match n with
  | .atom (.literal _ _) | .atom (.null _) | .constant .. => exact hn
  | .composite _ _ (.object fields) =>
    obtain ⟨a, o, slots, hv, ho, hslots, hclass, hfields⟩ := hn
    refine ⟨a, o, slots, hv, ho, hslots, hclass, fun f hf => ?_⟩
    obtain ⟨w, hw, hrelated⟩ := hfields f hf
    exact ⟨w, hw, hrel _ _ hrelated⟩
  | .composite _ _ (.list _) =>
    obtain ⟨items, hbody, hitems⟩ := hn
    exact ⟨items, hbody, hitems.imp hrel⟩
  | .composite _ _ (.array _) =>
    obtain ⟨items, hbody, hitems, hcomponent⟩ := hn
    exact ⟨items, hbody, hitems.imp hrel, hcomponent⟩
  | .composite _ _ (.set _) =>
    obtain ⟨items, hbody, hitems⟩ := hn
    exact ⟨items, hbody, hitems.imp hrel⟩
  | .composite _ _ (.map _) =>
    obtain ⟨items, hbody, hitems⟩ := hn
    exact ⟨items, hbody, hitems.imp fun e x hx => ⟨hrel _ _ hx.1, hrel _ _ hx.2⟩⟩

theorem relates_iff {n : Node} (hn : g.get? id = some n) :
    Relates types g h id v ↔ Requires types h (Relates types g h) n v := by
  constructor
  · rintro ⟨related, hn', hrequires, hparts⟩
    cases hn.symm.trans hn'
    exact hrequires.imp hparts
  · exact fun hrequires => .intro _ hn hrequires fun _ _ hrelated => hrelated

/-! ### Parts of live values -/

/-- The objects of the one heap are in the other as they are. -/
def Keeps (h h' : Heap) : Prop := ∀ {a o}, h.get? a = some o → h'.get? a = some o

theorem parts?_iff (hkeeps : Keeps h h') (hv : h.Readable v) {shapes : List Shape} (hshapes : Shape.object ∉ shapes)
    {items : List Value} : parts? h' types shapes v = some items ↔
      ∃ body, h.bodyOf? v = some body ∧ body.shape ∈ shapes ∧ body.values = items := by
  rw [parts?_eq_some hshapes]
  cases v with
  | null | scalar | constant => simp [Heap.bodyOf?, Value.object?]
  | object a =>
    obtain ⟨o, ho, hlocked⟩ := hv.get?
    simp [Heap.bodyOf?, Value.object?, Heap.body?, ho, hkeeps ho, hlocked]

section

variable (hkeeps : Keeps h h') (hv : h.Readable v) {items : List Value}
include hkeeps hv

theorem parts?_list_iff : parts? h' types [.list, .set] v = some items ↔
    h.bodyOf? v = some (.list items) ∨ h.bodyOf? v = some (.set items) := by
  rw [parts?_iff hkeeps hv (by decide)]
  cases h.bodyOf? v with
  | none => simp
  | some body => cases body <;> simp [Body.shape, Body.values]

theorem parts?_array_iff : parts? h' types [.array] v = some items ↔ h.bodyOf? v = some (.array items) := by
  rw [parts?_iff hkeeps hv (by decide)]
  cases h.bodyOf? v with
  | none => simp
  | some body => cases body <;> simp [Body.shape, Body.values]

theorem parts?_set_iff : parts? h' types [.list, .set, .array] v = some items ↔
    h.bodyOf? v = some (.list items) ∨ h.bodyOf? v = some (.set items) ∨ h.bodyOf? v = some (.array items) := by
  rw [parts?_iff hkeeps hv (by decide)]
  cases h.bodyOf? v with
  | none => simp
  | some body => cases body <;> simp [Body.shape, Body.values]

theorem parts?_map_iff : parts? h' types [.map] v = some items ↔
    ∃ entries, h.bodyOf? v = some (.map entries) ∧ entries.flatMap (fun e => [e.1, e.2]) = items := by
  rw [parts?_iff hkeeps hv (by decide)]
  cases h.bodyOf? v with
  | none => simp
  | some body => cases body <;> simp [Body.shape, Body.values]

end

theorem readable_of_bodyOf? (hv : h.Readable v) {body : Body} (hbody : h.bodyOf? v = some body) {w : Value}
    (hw : w ∈ body.values) : h.Readable w := by
  cases v with
  | null | scalar | constant => cases hbody
  | object a =>
    obtain ⟨o, ho, -⟩ := hv.get?
    have hsame : o.body = body := by simpa [Heap.bodyOf?, Value.object?, Heap.body?, ho] using hbody
    exact hv.part ho (hsame ▸ hw)

theorem acceptedSlots?_iff (hkeeps : Keeps h h') {exact : Bool} {type : Ty} {slots : Slots Value}
    (hv : h.Readable v) : acceptedSlots? h' types exact type v = some slots ↔
      ∃ id o, v = .object id ∧ h.get? id = some o ∧ o.slots? types = some slots ∧
        if exact then o.type.erasure = type.erasure else types.isAssignable o.type type = true := by
  cases v with
  | null | scalar | constant => simp [acceptedSlots?]
  | object a =>
    obtain ⟨o, ho, -⟩ := hv.get?
    simp only [acceptedSlots?, hkeeps ho, Value.object.injEq, exists_and_left, exists_eq_left', ho,
      Option.some.injEq]
    cases exact <;> simp [and_comm]

theorem readable_of_field? (hv : h.Readable (.object id)) {o : Obj} (ho : h.get? id = some o)
    {slots : Slots Value} (hslots : o.slots? types = some slots) {name : String} {w : Value}
    (hw : slots.field? name = some w) : h.Readable w := by
  obtain ⟨e, he, rfl⟩ := Option.map_eq_some_iff.1 hw
  exact hv.slot ho hslots (List.mem_of_find?_eq_some he)

/-! ### Matchers -/

/-- Wherever the objects are as they are here, the matcher accepts the unlocked values that are related to
the node, and no other. -/
def Means (types : ClassTable) (g : Graph) (h : Heap) (p : Matcher) (id : NodeId) : Prop :=
  ∀ h', Keeps h h' → ∀ v, h.Readable v → (p.accepts h' types v = true ↔ Relates types g h id v)

section

variable {declared runtime type : Ty} {elements : List NodeId} {ps : List Matcher}

theorem means_literal {l : Literal} (hn : g.get? id = some (.atom (.literal type l))) :
    Means types g h (.equalTo (.scalar l)) id := by
  intro h' _ v _
  rw [accepts_equal_plain rfl, relates_iff hn, Requires]

theorem means_null (hn : g.get? id = some (.atom (.null type))) : Means types g h .nullValue id := by
  intro h' _ v _
  rw [accepts_null_value, relates_iff hn, Requires]

theorem means_constant {name : String} (hn : g.get? id = some (.constant declared runtime name)) :
    Means types g h (.equalTo (.constant runtime.erasure.erasure.text name)) id := by
  intro h' _ v _
  rw [accepts_equal_plain rfl, relates_iff hn, Requires, Ty.erasure_erasure]

theorem means_list (hn : g.get? id = some (.composite declared runtime (.list elements)))
    (hps : List.Forall₂ (Means types g h) ps elements) : Means types g h (.inOrder ps) id := by
  intro h' hkeeps v hv
  rw [accepts_in_order_iff, relates_iff hn, Requires]
  refine exists_congr fun items => ?_
  rw [parts?_list_iff hkeeps hv]
  refine and_congr_right fun hbody => forall₂_congr_left hps fun _ _ hp w hw => hp h' hkeeps w ?_
  exact hbody.elim (readable_of_bodyOf? hv · hw) (readable_of_bodyOf? hv · hw)

theorem means_set (hn : g.get? id = some (.composite declared runtime (.set elements)))
    (hps : List.Forall₂ (Means types g h) ps elements) : Means types g h (.anyOrder ps) id := by
  intro h' hkeeps v hv
  rw [accepts_any_order_iff, relates_iff hn, Requires]
  refine exists_congr fun items => ?_
  rw [parts?_set_iff hkeeps hv]
  refine and_congr_right fun hbody => matched_congr_left hps fun _ _ hp w hw => hp h' hkeeps w ?_
  rcases hbody with hbody | hbody | hbody <;> exact readable_of_bodyOf? hv hbody hw

theorem means_map {entries : List (NodeId × NodeId)} {ps : List (Matcher × Matcher)}
    (hn : g.get? id = some (.composite declared runtime (.map entries)))
    (hps : List.Forall₂ (fun p e => Means types g h p.1 e.1 ∧ Means types g h p.2 e.2) ps entries) :
    Means types g h (.mapOf ps) id := by
  intro h' hkeeps v hv
  have hentries : ∀ {items}, h.bodyOf? v = some (.map items) →
      (Matched (fun p x => accepts h' types p.1 x.1 = true ∧ accepts h' types p.2 x.2 = true) ps items ↔
        Matched (fun e x => Relates types g h e.1 x.1 ∧ Relates types g h e.2 x.2) entries items) := by
    intro items hbody
    refine matched_congr_left hps fun p e hp x hx => ?_
    have hparts : ∀ w ∈ [x.1, x.2], h.Readable w := fun w hw =>
      readable_of_bodyOf? hv hbody (List.mem_flatMap.2 ⟨x, hx, hw⟩)
    exact and_congr (hp.1 h' hkeeps x.1 (hparts _ (by simp))) (hp.2 h' hkeeps x.2 (hparts _ (by simp)))
  rw [accepts_map_of_iff, relates_iff hn, Requires]
  simp only [parts?_map_iff hkeeps hv]
  constructor
  · rintro ⟨_, ⟨items, hbody, rfl⟩, hmatched⟩
    rw [DeepEquality.unzipEntries_flatMap] at hmatched
    exact ⟨items, hbody, (hentries hbody).1 hmatched⟩
  · rintro ⟨items, hbody, hmatched⟩
    refine ⟨_, ⟨items, hbody, rfl⟩, ?_⟩
    rw [DeepEquality.unzipEntries_flatMap]
    exact (hentries hbody).2 hmatched

theorem means_array (hn : g.get? id = some (.composite declared runtime (.array elements)))
    (hprimitive : ¬ (Node.composite declared runtime (.array elements)).componentType.isPrimitive)
    (hps : List.Forall₂ (Means types g h) ps elements) : Means types g h (.arrayOf ps) id := by
  intro h' hkeeps v hv
  rw [accepts_array_of_iff, relates_iff hn, Requires]
  refine exists_congr fun items => ?_
  rw [parts?_array_iff hkeeps hv]
  refine and_congr_right fun hbody => ?_
  have hitems : List.Forall₂ (fun p w => accepts h' types p w = true) ps items ↔
      List.Forall₂ (Relates types g h) elements items :=
    forall₂_congr_left hps fun _ _ hp w hw => hp h' hkeeps w (readable_of_bodyOf? hv hbody hw)
  rw [hitems]
  refine (and_iff_left fun kind hkind => absurd ?_ hprimitive).symm
  rw [hkind]
  rfl

theorem componentOf?_eq (hkeeps : Keeps h h') (hv : h.Readable v) :
    componentOf? h' v = (h.typeOf? v).bind Ty.component? := by
  cases v with
  | null => rfl
  | constant => rfl
  | scalar l => cases l <;> rfl
  | object a =>
    obtain ⟨o, ho, -⟩ := hv.get?
    simp [componentOf?, Heap.typeOf?, ho, hkeeps ho]

/-- Only the values of the literals are related to literal nodes. -/
theorem forall₂_literals {ls : List Literal} {items : List Value}
    (hls : List.Forall₂ (fun l e => ∃ type, g.get? e = some (.atom (.literal type l))) ls elements) :
    List.Forall₂ (Relates types g h) elements items ↔ items = ls.map .scalar := by
  have hliterals : List.Forall₂ Eq (ls.map .scalar) items ↔ List.Forall₂ (Relates types g h) elements items := by
    rw [List.forall₂_map_left_iff]
    refine forall₂_congr_left hls fun l e ⟨type, hn⟩ w _ => ?_
    rw [relates_iff hn, Requires]
    exact eq_comm
  rw [← hliterals, List.forall₂_eq_eq_eq, eq_comm]

theorem means_primitives {kind : Primitive} {ls : List Literal}
    (hn : g.get? id = some (.composite declared runtime (.array elements)))
    (hkind : (Node.composite declared runtime (.array elements)).componentType = .primitive kind)
    (hls : List.Forall₂ (fun l e => ∃ type, g.get? e = some (.atom (.literal type l))) ls elements) :
    Means types g h (.primitives kind ls) id := by
  intro h' hkeeps v hv
  rw [accepts_primitives_iff, relates_iff hn, Requires, parts?_array_iff hkeeps hv, componentOf?_eq hkeeps hv]
  simp only [forall₂_literals hls, hkind, Ty.primitive.injEq, forall_eq']
  constructor
  · exact fun ⟨hcomponent, hbody⟩ => ⟨_, hbody, rfl, hcomponent⟩
  · rintro ⟨_, hbody, rfl, hcomponent⟩
    exact ⟨hcomponent, hbody⟩

theorem meets_iff {slots : Slots Value} {e : String × (Value ⊕ Matcher)} {f : NodeField}
    (hkeeps : Keeps h h') (he : Expects g (Means types g h) e f)
    (hreadable : ∀ w, slots.field? f.name = some w → h.Readable w) :
    Meets h' types slots e ↔ ∃ w, slots.field? f.name = some w ∧ Relates types g h f.value w := by
  obtain ⟨name, v | p⟩ := e
  · obtain ⟨rfl, type, l, rfl, hn⟩ := he
    simp only [Meets, relates_iff hn, Requires]
  · obtain ⟨rfl, hp⟩ := he
    exact exists_congr fun w => and_congr_right fun hw => hp h' hkeeps w (hreadable w hw)

theorem means_fieldwise {fields : List NodeField} {es : List (String × (Value ⊕ Matcher))}
    (hn : g.get? id = some (.composite declared runtime (.object fields)))
    (hes : List.Forall₂ (Expects g (Means types g h)) es fields) {exact : Bool}
    (hclass : ∀ actual, (if exact then actual.erasure = type.erasure
      else types.isAssignable actual type = true) ↔ PassesFor types runtime actual) :
    Means types g h (.fieldwise exact type es) id := by
  intro h' hkeeps v hv
  have hfields : ∀ {a o slots}, v = .object a → h.get? a = some o → o.slots? types = some slots →
      ((∀ e ∈ es, Meets h' types slots e) ↔
        ∀ f ∈ fields, ∃ w, slots.field? f.name = some w ∧ Relates types g h f.value w) := by
    rintro a o slots rfl ho hslots
    exact forall_mem_congr hes fun e f he => meets_iff hkeeps he fun w => readable_of_field? hv ho hslots
  rw [accepts_fieldwise_iff (Expects.plain hes), relates_iff hn, Requires]
  simp only [acceptedSlots?_iff hkeeps hv]
  constructor
  · rintro ⟨slots, ⟨a, o, rfl, ho, hslots, hpasses⟩, hmeets⟩
    exact ⟨a, o, slots, rfl, ho, hslots, (hclass _).1 hpasses, (hfields rfl ho hslots).1 hmeets⟩
  · rintro ⟨a, o, slots, rfl, ho, hslots, hpasses, hmeets⟩
    exact ⟨slots, ⟨a, o, rfl, ho, hslots, (hclass _).2 hpasses⟩, (hfields rfl ho hslots).2 hmeets⟩

theorem means_object {fields : List NodeField} {es : List (String × (Value ⊕ Matcher))}
    (hn : g.get? id = some (.composite declared runtime (.object fields)))
    (hes : List.Forall₂ (Expects g (Means types g h)) es fields) :
    Means types g h (Verification.fieldMatcher types runtime es) id := by
  unfold Verification.fieldMatcher
  split
  · next hhidden => exact means_fieldwise hn hes fun actual => by simp [PassesFor, hhidden]
  · next hhidden => exact means_fieldwise hn hes fun actual => by simp [PassesFor, hhidden, Ty.erasure_erasure]

end

end Matcher

namespace Verification

open Matcher (Below Keeps Means Relates)

variable {types : ClassTable} {g : Graph} {h : Heap}

/-- Where no node is met again below itself, the matchers mean their nodes. -/
theorem means_reading :
    Reading types g (fun id => ∀ k, Leads g.children id k → ¬ Below g k k) (Means types g h) where
  part hid hpart k hk := hid k (.head hpart hk)
  literal _ := Matcher.means_literal
  null _ := Matcher.means_null
  constant _ := Matcher.means_constant
  array _ := Matcher.means_array
  primitives _ := Matcher.means_primitives
  list _ := Matcher.means_list
  set _ := Matcher.means_set
  map _ := Matcher.means_map
  object _ := Matcher.means_object
  again hid _ hbelow := absurd hbelow (hid _ .refl)

/-- Take a root below which no node is met again below itself. If the assertion of the root on a local can be
generated, then with an unlocked value in the local it passes if and only if the value is related to the
root, and otherwise it fails as an assertion does. A root that can be described has no dangling part. -/
theorem passes_iff_related (types : ClassTable) (host : Host) {g : Graph} {root : NodeId} {name : String}
    {scope : Scope} {st : State} {m : Machine} {v : Value}
    (hacyclic : ∀ k, Leads g.children root k → ¬ Below g k k)
    (hassert : assertValue (context types g) root (.loc name) (.start scope) = (.ok ⟨⟩, st))
    (hvalue : findValue? name m.locals = some (.live v)) (hfree : ∀ s ∈ st.statements, ¬ s.Binds name)
    (hmatchers : ∀ other p, scope.names.Ahead other → findValue? other m.locals ≠ some (.matcher p))
    (hv : m.heap.Readable v) :
    ((Evaluate.run ⟨types, host⟩ st.statements m).1 = .ok ⟨⟩ ↔ Relates types g m.heap root v) ∧
      ((Evaluate.run ⟨types, host⟩ st.statements m).1 = .ok ⟨⟩ ∨
        ∃ e, (Evaluate.run ⟨types, host⟩ st.statements m).1 = .error (.assertion e)) := by
  obtain ⟨p, m', hmeans, hlater, hrun⟩ := assertValue_tests (c := ⟨types, host⟩) means_reading
    (stocked_start fun hahead => hmatchers _ _ hahead) rfl rfl hacyclic hassert (local_kept hassert hvalue hfree)
  have haccepts : p.accepts m'.heap types v = true ↔ Relates types g m.heap root v :=
    hmeans m'.heap hlater.object v hv
  rw [hrun, ← haccepts, Matcher.check]
  by_cases hp : p.accepts m'.heap types v = true
  · rw [if_pos hp]
    exact ⟨⟨fun _ => hp, fun _ => rfl⟩, .inl rfl⟩
  · rw [if_neg hp]
    exact ⟨⟨fun hok => (by cases hok), fun hok => absurd hok hp⟩, .inr ⟨_, rfl⟩⟩

/-- A list that holds a set of two texts twice, and an array of numbers. -/
def sharedSet : Graph := ⟨#[.composite .object (.ofClass "ArrayList") (.list [1, 1, 4]),
  .composite .object (.ofClass "HashSet") (.set [2, 3]), .atom (.literal .string (.str "x")),
  .atom (.literal .string (.str "y")), .composite .object (.array (.primitive .int)) (.array [5]),
  .atom (.literal (.primitive .int) (.int 1))]⟩

/-- Two sets may stand for the one that is mentioned twice, but each has to hold both texts. -/
theorem separate_sets_related :
    let h : Heap := ⟨#[⟨.ofClass "ArrayList", .list [.object 2, .object 3, .object 4], false⟩,
      ⟨.ofClass "ArrayList", .list [.object 2, .object 5, .object 4], false⟩,
      ⟨.ofClass "HashSet", .set [.scalar (.str "y"), .scalar (.str "x")], false⟩,
      ⟨.ofClass "LinkedHashSet", .set [.scalar (.str "x"), .scalar (.str "y")], false⟩,
      ⟨.array (.primitive .int), .array [.scalar (.int 1)], false⟩,
      ⟨.ofClass "HashSet", .set [.scalar (.str "x"), .scalar (.str "z")], false⟩]⟩
    ∃ st, assertValue (context .builtin sharedSet) 0 (.loc "value") (.start .empty) = (.ok ⟨⟩, st) ∧
      st.hoisted = [(1, "hash_set_matcher1")] ∧ Relates .builtin sharedSet h 0 (.object 0) ∧
      ¬ Relates .builtin sharedSet h 0 (.object 1) := by
  intro h
  let asserted := assertValue (context .builtin sharedSet) 0 (.loc "value") (.start .empty)
  have hacyclic : ∀ k, Leads sharedSet.children 0 k → ¬ Below sharedSet k k := by
    rintro k hk ⟨part, hpart, hlead⟩
    have hnone : ∀ k ∈ sharedSet.reachable 0, ∀ part ∈ sharedSet.children k, k ∉ sharedSet.reachable part := by
      decide +kernel
    exact hnone k (Graph.mem_reachable.2 hk) part hpart (Graph.mem_reachable.2 hlead)
  have hassert : asserted = (.ok ⟨⟩, asserted.2) := Effect.ok_of_toOption (by decide +kernel)
  let machine (v : Value) : Machine := (Machine.start h).bindLocal "value" (.live v)
  have hpasses : ∀ v, h.Readable v →
      ((Evaluate.run (.bare .builtin) asserted.2.statements (machine v)).1 = .ok ⟨⟩ ↔
        Relates .builtin sharedSet h 0 v) := by
    intro v hv
    refine (passes_iff_related .builtin .empty (m := machine v) hacyclic hassert rfl
      (by decide +kernel) (fun other p _ => ?_) hv).1
    rw [Machine.findValue?_bindLocal]
    split <;> simp [Machine.start, findValue?]
  refine ⟨asserted.2, hassert, by decide +kernel, (hpasses _ (by decide +kernel)).1 ?_, fun hrelated => ?_⟩
  · exact congrArg Prod.fst (Effect.ok_of_toOption (by decide +kernel))
  · have hfails : (Evaluate.run (.bare .builtin) asserted.2.statements (machine (.object 1))).1.toOption = none := by
      decide +kernel
    rw [(hpasses _ (by decide +kernel)).2 hrelated] at hfails
    cases hfails

end Verification

end Reenact
