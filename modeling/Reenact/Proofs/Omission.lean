import Mathlib
import Reenact.Proofs.Buildable

/-!
Stores that the code for a plain object leaves out. What a new instance holds under a name is the
default of the type that the nearest class declares for it, and nothing in a collection, which has no
fields. A store may be left out when that is the very value it would have assigned.
-/

namespace Reenact

namespace ClassTable

variable (types : ClassTable)

/-- Instances of the type are collections and hold no fields. -/
def isCollection (type : Ty) : Bool := types.isList type || types.isSet type || types.isMap type

/-- The field that a name stands for in instances of a type: of several classes that declare it, the
nearest one counts. -/
def nearest? (type : Ty) (name : String) : Option FieldDef :=
  findValue? name ((types.fieldsOf type).reverse.map fun (_, f) => (f.name, f))

/-- What code reads under a name from a new instance. -/
def initial (type : Ty) (name : String) : Value :=
  if types.isCollection type then .null
  else ((types.nearest? type name).map fun f => Value.default f.type).getD .null

variable {types}

theorem nearest?_isSome {type : Ty} {name : String} :
    (types.nearest? type name).isSome ↔ name ∈ (types.fieldsOf type).map (·.2.name) := by
  rw [← Option.ne_none_iff_isSome, nearest?, ne_eq, findValue?_eq_none, not_not, List.map_map, List.map_reverse,
    List.mem_reverse]
  rfl

theorem initial_of_nearest {type : Ty} {name : String} {f : FieldDef} (hplain : types.isCollection type = false)
    (hf : types.nearest? type name = some f) : types.initial type name = .default f.type := by
  simp [initial, hplain, hf]

end ClassTable

namespace Evaluate

/-- A new instance holds the default of the nearest field of a name. -/
theorem instantiate_field (types : ClassTable) (type : Ty) (h : Heap) (name : String) :
    ((Collection.instantiate types type h).1.field? (Collection.instantiate types type h).2 name).getD .null =
      types.initial type name := by
  have hbody (body : Body) : ((h.alloc type body).1.body? (h.alloc type body).2) = some body :=
    Heap.body?_of_get? (Heap.get?_alloc_self type body)
  unfold Collection.instantiate ClassTable.initial ClassTable.isCollection
  split
  · next hlist => simp [hlist, Heap.newList, Heap.field?, hbody]
  · split
    · next hset => simp [hset, Heap.newSet, Heap.field?, hbody]
    · split
      · next hmap => simp [hmap, Heap.newMap, Heap.field?, hbody]
      · next hlist hset hmap =>
        have hlookup : findValue? name (putAll [] ((types.fieldsOf type).map fun d =>
            (d.2.name, Value.default d.2.type))) = (types.nearest? type name).map fun f => .default f.type := by
          rw [findValue?_putAll_reverse, ClassTable.nearest?, ← findValue?_map, List.map_map, ← List.map_reverse]
          simp [findValue?, Function.comp_def]
        simp only [hlist, hset, hmap, Bool.or_self, Bool.false_eq_true, if_false, Heap.newObject, Heap.field?, hbody]
        exact congrArg (·.getD .null) hlookup

theorem expr_new_field {c : Context} (type : Ty) (name : String) (m : Machine) :
    expr c (.field (.new type []) name) m = (.ok (.live (c.types.initial type name)),
      { m with heap := (Collection.instantiate c.types type m.heap).1 }) := by
  rw [expr_eq, exprWith]
  have hnew : exprWith c (inClosure c) (.new type []) m =
      (.ok (.live (.object (Collection.instantiate c.types type m.heap).2)),
        { m with heap := (Collection.instantiate c.types type m.heap).1 }) := rfl
  rw [Effect.bind_of_ok hnew, ← instantiate_field c.types type m.heap name]
  rfl

end Evaluate

namespace Reconstruction

variable {types : ClassTable} {g : Graph} {runtime : Ty} {fields : List NodeField} {f : NodeField} {s : State}

/-- Locals stand for composite nodes only. -/
def BuildsComposites (g : Graph) (s : State) : Prop :=
  ∀ k, s.Built k → ∃ declared runtime content, g.get? k = some (.composite declared runtime content)

theorem BuildsComposites.start (g : Graph) (scope : Scope) : BuildsComposites g (.start scope) :=
  fun k hk => (not_built_start scope k hk).elim

/-- Building a value keeps it so. -/
theorem BuildsComposites.value {t : State} {root : NodeId} {e : Expr} (hs : BuildsComposites g s)
    (horder : InOrder s) (hrun : value (context types g) root s = (.ok e, t)) : BuildsComposites g t := by
  have hruns := value_runs (c := context types g) rfl horder (exhausted (context types g)) le_rfl root
  obtain ⟨⟨order, hadds, -⟩, -⟩ := hruns.post hrun
  intro k hk
  rcases hadds.built hk with hold | hmem
  · exact hs k hold
  · exact (hadds.complete hmem).composite

/-- The code for an atom, which needs no local. -/
def atomCode : Atom → Expr
  | .literal _ l => .literal l
  | .null _ => .null

theorem not_built_atom (hs : BuildsComposites g s) {id : NodeId} {a : Atom} (hn : g.get? id = some (.atom a)) :
    findValue? id s.built = none := by
  cases hl : findValue? id s.built with
  | none => rfl
  | some l =>
    obtain ⟨_, _, _, hcomposite⟩ := hs id ⟨l, hl⟩
    cases hn.symm.trans hcomposite

theorem run_atom (hs : BuildsComposites g s) {id : NodeId} {a : Atom} (hn : g.get? id = some (.atom a)) :
    run (context types g) (depthBound (context types g)) (.value id) s = (.ok (atomCode a), s) := by
  obtain ⟨depth, hdepth⟩ := Nat.exists_eq_succ_of_ne_zero (n := depthBound (context types g)) (by simp [depthBound])
  rw [hdepth, run_succ, step, Effect.bind_of_ok (Effect.get_apply s), not_built_atom hs hn]
  simp only
  unfold dispatch
  rw [Effect.bind_of_ok (node_apply hn)]
  cases a <;> rfl

theorem valueFor_null (hs : BuildsComposites g s) {id : NodeId} {type : Ty}
    (hn : g.get? id = some (.atom (.null type))) (declared : Ty) :
    valueFor (context types g) id declared s = (.ok .null, s) := by
  unfold valueFor valueAs
  rw [Effect.bind_of_ok (run_atom hs hn)]
  rfl

theorem valueFor_literal (hs : BuildsComposites g s) {id : NodeId} {type : Ty} {l : Literal}
    (hn : g.get? id = some (.atom (.literal type l))) (declared : Ty) :
    valueFor (context types g) id declared s =
      (.ok (if types.isAssignable type declared then .literal l else .cast (.literal l) declared), s) := by
  unfold valueFor valueAs
  rw [Effect.bind_of_ok (run_atom hs hn)]
  obtain ⟨t, htype, hliteral⟩ := codeType_of_node (c := context types g) (not_built_atom hs hn) hn
  cases hliteral type l rfl
  exact castTo_of_ne_null Expr.noConfusion htype

/-- The zero of a kind stays what it is under a cast to this kind. -/
theorem convert_zero (kind : Primitive) :
    Convert.value (.scalar (.zero kind)) (.primitive kind) = .ok (.scalar (.zero kind)) := by
  cases kind <;> decide +kernel

theorem holdsDefault_iff {c : Context} : holdsDefault c f = true ↔
    (∃ type, c.graph.get? f.value = some (.atom (.null type))) ∨
      ∃ type kind, f.type = .primitive kind ∧ c.graph.get? f.value = some (.atom (.literal type (.zero kind))) := by
  unfold holdsDefault
  constructor
  · intro h
    split at h
    · next hn => exact .inl ⟨_, hn⟩
    · next hn htype =>
      cases beq_iff_eq.1 h
      exact .inr ⟨_, _, htype, hn⟩
    · cases h
  · rintro (⟨type, hn⟩ | ⟨type, kind, htype, hn⟩)
    · rw [hn]
    · rw [hn, htype]
      exact beq_self_eq_true _

/-- A field that gets no store is declared, and its value is a null or the zero of its type. -/
theorem omitted_iff {c : Context} (hf : f ∈ fields) :
    f ∉ storedFields c runtime fields ↔
      f.name ∈ (c.types.fieldsOf runtime).map (·.2.name) ∧ holdsDefault c f = true := by
  simp [storedFields, hf]

/-- What a store into the field would assign is there before it. For a null this takes a class without
fields or a field that may be null, and for a zero a field of its very type. -/
inductive Redundant (types : ClassTable) (g : Graph) (runtime : Ty) (f : NodeField) : Prop where
  | absent {type} : g.get? f.value = some (.atom (.null type)) → types.isCollection runtime = true →
      Redundant types g runtime f
  | null {type d} : g.get? f.value = some (.atom (.null type)) → types.isCollection runtime = false →
      types.nearest? runtime f.name = some d → d.type.isPrimitive = false → Redundant types g runtime f
  | zero {type kind d} : g.get? f.value = some (.atom (.literal type (.zero kind))) →
      types.isCollection runtime = false → types.nearest? runtime f.name = some d →
      d.type = .primitive kind → Redundant types g runtime f

theorem zero_inj {kind kind' : Primitive} : Literal.zero kind = .zero kind' ↔ kind = kind' := by
  cases kind <;> cases kind' <;> simp [Literal.zero]

theorem default_eq_null {type : Ty} : Value.default type = .null ↔ type.isPrimitive = false := by
  cases type <;> simp [Value.default, Ty.isPrimitive]

theorem default_eq_zero {type : Ty} {kind : Primitive} :
    Value.default type = .scalar (.zero kind) ↔ type = .primitive kind := by
  cases type <;> simp [Value.default, zero_inj]

variable {d : FieldDef} {type : Ty}

theorem redundant_null_iff (hn : g.get? f.value = some (.atom (.null type)))
    (hd : types.nearest? runtime f.name = some d) :
    types.initial runtime f.name = .null ↔ Redundant types g runtime f := by
  cases hcollection : types.isCollection runtime with
  | true => simpa [ClassTable.initial, hcollection] using Redundant.absent hn hcollection
  | false =>
    rw [ClassTable.initial_of_nearest hcollection hd, default_eq_null]
    refine ⟨.null hn hcollection hd, fun h => ?_⟩
    cases h with
    | absent _ hcollection' => cases hcollection.symm.trans hcollection'
    | null _ _ hd' hprimitive => cases hd.symm.trans hd'; exact hprimitive
    | zero hn' => cases hn.symm.trans hn'

theorem redundant_zero_iff {kind : Primitive} (hn : g.get? f.value = some (.atom (.literal type (.zero kind))))
    (hd : types.nearest? runtime f.name = some d) :
    types.initial runtime f.name = .scalar (.zero kind) ↔ Redundant types g runtime f := by
  have hkind : Redundant types g runtime f → types.isCollection runtime = false ∧ d.type = .primitive kind := by
    intro h
    cases h with
    | absent hn' => cases hn.symm.trans hn'
    | null hn' => cases hn.symm.trans hn'
    | zero hn' hplain hd' htype =>
      cases hd.symm.trans hd'
      have hsame := hn.symm.trans hn'
      simp only [Option.some.injEq, Node.atom.injEq, Atom.literal.injEq, zero_inj] at hsame
      exact ⟨hplain, hsame.2 ▸ htype⟩
  cases hcollection : types.isCollection runtime with
  | true =>
    have hinitial : types.initial runtime f.name = .null := by simp [ClassTable.initial, hcollection]
    rw [hinitial]
    exact ⟨fun h => Value.noConfusion h, fun h => Bool.noConfusion (hcollection.symm.trans (hkind h).1)⟩
  | false =>
    rw [ClassTable.initial_of_nearest hcollection hd, default_eq_zero]
    exact ⟨.zero hn hcollection hd, fun h => (hkind h).2⟩

/-- Where a store is left out, the code for the value it would have assigned has a value, and so has the
field of a new instance. They are one and the same exactly if the store is redundant. -/
theorem omitted_store_redundant_iff (host : Host) (hs : BuildsComposites g s) (hf : f ∈ fields)
    (homitted : f ∉ storedFields (context types g) runtime fields) :
    ∃ e stored fresh, valueFor (context types g) f.value f.type s = (.ok e, s) ∧
      (∀ m, Evaluate.expr ⟨types, host⟩ e m = (.ok (.live stored), m)) ∧
      (∀ m, ∃ m', Evaluate.expr ⟨types, host⟩ (.field (.new runtime []) f.name) m = (.ok (.live fresh), m')) ∧
      (fresh = stored ↔ Redundant types g runtime f) := by
  obtain ⟨hdeclared, hdefault⟩ := (omitted_iff hf).1 homitted
  obtain ⟨d, hd⟩ := Option.isSome_iff_exists.1 (ClassTable.nearest?_isSome.2 hdeclared)
  have hfresh := fun m => Evaluate.expr_new_field (c := ⟨types, host⟩) runtime f.name m
  rcases holdsDefault_iff.1 hdefault with ⟨type, hn⟩ | ⟨type, kind, htype, hn⟩
  · exact ⟨.null, .null, _, valueFor_null hs hn f.type, fun m => rfl, fun m => ⟨_, hfresh m⟩,
      redundant_null_iff hn hd⟩
  · refine ⟨_, .scalar (.zero kind), _, valueFor_literal hs hn f.type, fun m => ?_, fun m => ⟨_, hfresh m⟩,
      redundant_zero_iff hn hd⟩
    split
    · rfl
    · exact (Evaluate.yields_cast (Evaluate.yields_literal _) (htype ▸ convert_zero kind)).eval

/-- If no field name occurs twice, a field of the node is typed as the class declares it. -/
theorem nearest?_of_fieldsOf {name : String} {args : List Ty}
    (hfields : FieldsOf types (.named name args) fields) (hf : f ∈ fields)
    (hd : types.nearest? (.named name args) f.name = some d) : d.type = f.type := by
  obtain ⟨extra, hlabels, hnodup⟩ := hfields
  have hmem : (f.name, d) ∈ (types.allFields name).reverse.map fun (_, f) => (f.name, f) := mem_of_findValue? hd
  obtain ⟨⟨owner, d'⟩, hd', heq⟩ := List.mem_map.1 hmem
  obtain ⟨hname, rfl⟩ := Prod.mk.inj heq
  rw [List.mem_reverse] at hd'
  obtain ⟨hdeclared, -, hapart⟩ := List.nodup_append.1 hnodup
  have hlabel : Slot.field f.owner f.name f.type ∈ (types.allFields name).map (fun d => .field d.1 d.2.name d.2.type) ++
      extra.map fun other => .field name other .object :=
    hlabels ▸ List.mem_map.2 ⟨f, hf, rfl⟩
  rcases List.mem_append.1 hlabel with hown | hextra
  · obtain ⟨⟨owner', d⟩, hd, heq'⟩ := List.mem_map.1 hown
    obtain ⟨-, hname', htype⟩ := Slot.field.inj heq'
    have hsame := List.inj_on_of_nodup_map hdeclared hd hd' (hname'.trans hname.symm)
    rw [← htype, hsame]
  · obtain ⟨other, hother, heq'⟩ := List.mem_map.1 hextra
    obtain ⟨-, rfl, -⟩ := Slot.field.inj heq'
    exact absurd hname (hapart _ (List.mem_map.2 ⟨_, hd', rfl⟩) _ hother)

/-- If no field name occurs twice, the one store that is missed is that of a null into a field of a
primitive type. -/
theorem redundant_of_fieldsOf {name : String} {args : List Ty}
    (hfields : FieldsOf types (.named name args) fields)
    (hplain : types.isCollection (.named name args) = false) (hf : f ∈ fields)
    (homitted : f ∉ storedFields (context types g) (.named name args) fields) :
    Redundant types g (.named name args) f ↔
      ¬ (f.type.isPrimitive = true ∧ ∃ type, g.get? f.value = some (.atom (.null type))) := by
  obtain ⟨hdeclared, hdefault⟩ := (omitted_iff hf).1 homitted
  obtain ⟨d, hd⟩ := Option.isSome_iff_exists.1 (ClassTable.nearest?_isSome.2 hdeclared)
  have htype := nearest?_of_fieldsOf hfields hf hd
  rcases holdsDefault_iff.1 hdefault with ⟨type, hn⟩ | ⟨type, kind, hkind, hn⟩
  · rw [← redundant_null_iff hn hd, ClassTable.initial_of_nearest hplain hd, default_eq_null, htype]
    simp [hn]
  · rw [← redundant_zero_iff hn hd, ClassTable.initial_of_nearest hplain hd, default_eq_zero, htype]
    simp [hn, hkind]

/-- The built-in classes and one with a field of a primitive type. -/
def counterTypes : ClassTable :=
  ClassTable.builtin.register ((ClassDef.concrete "Counter").withField "count" (.primitive .int))

def counter : Ty := .ofClass "Counter"

/-- An object that holds a zero in the field, and one that holds a null there. -/
def counters : Heap := ⟨#[⟨counter, .fields [("count", .scalar (.int 0))], false⟩,
  ⟨counter, .fields [("count", .null)], false⟩]⟩

def counterFields : List NodeField := [⟨"Counter", "count", .primitive .int, 1⟩]

def counterGraph (a : Atom) : Graph := ⟨#[.composite counter counter (.object counterFields), .atom a]⟩

def zeroGraph : Graph := counterGraph (.literal (.primitive .int) (.zero .int))

def nullGraph : Graph := counterGraph (.null (.boxed .int))

theorem zero_count_redundant :
    (Serialization.node ⟨counters, counterTypes, Serialization.standard⟩ (.object 0) counter
      (.start .empty .empty)).2.graph = zeroGraph ∧
    ⟨"Counter", "count", .primitive .int, 1⟩ ∉ storedFields (context counterTypes zeroGraph) counter counterFields ∧
    ∃ e v, valueFor (context counterTypes zeroGraph) 1 (.primitive .int) (.start .empty) = (.ok e, .start .empty) ∧
      (∀ m, Evaluate.expr ⟨counterTypes, .empty⟩ e m = (.ok (.live v), m)) ∧
      ∀ m, ∃ m', Evaluate.expr ⟨counterTypes, .empty⟩ (.field (.new counter []) "count") m = (.ok (.live v), m') := by
  have homitted : ⟨"Counter", "count", .primitive .int, 1⟩ ∉
      storedFields (context counterTypes zeroGraph) counter counterFields := by decide +kernel
  obtain ⟨e, stored, fresh, hvalue, hstored, hfresh, hiff⟩ :=
    omitted_store_redundant_iff .empty (.start zeroGraph .empty) (List.mem_singleton.2 rfl) homitted
  have hfield : counterTypes.nearest? counter "count" = some ⟨"count", .primitive .int, false⟩ := by
    decide +kernel
  obtain rfl := hiff.2 (.zero rfl (by decide +kernel) hfield rfl)
  exact ⟨congrArg Graph.mk (by decide +kernel), homitted, e, fresh, hvalue, hstored, hfresh⟩

/-- A null that was captured in a field of a primitive type is lost: its store is left out, and a new
instance holds a zero there. -/
theorem null_count_lost :
    (Serialization.node ⟨counters, counterTypes, Serialization.standard⟩ (.object 1) counter
      (.start .empty .empty)).2.graph = nullGraph ∧
    ⟨"Counter", "count", .primitive .int, 1⟩ ∉ storedFields (context counterTypes nullGraph) counter counterFields ∧
    valueFor (context counterTypes nullGraph) 1 (.primitive .int) (.start .empty) = (.ok .null, .start .empty) ∧
    ∀ m, ∃ m', Evaluate.expr ⟨counterTypes, .empty⟩ (.field (.new counter []) "count") m =
      (.ok (.live (.scalar (.int 0))), m') := by
  have hinitial : counterTypes.initial counter "count" = .scalar (.int 0) := by decide +kernel
  refine ⟨congrArg Graph.mk (by decide +kernel), by decide +kernel, valueFor_null (.start _ .empty) rfl _, ?_⟩
  rw [← hinitial]
  exact fun m => ⟨_, Evaluate.expr_new_field counter "count" m⟩

end Reconstruction

end Reenact
