import Mathlib
import Reenact.Eval.Run
import Reenact.Proofs.Assoc
import Reenact.Proofs.Builtin
import Reenact.Proofs.Effect
import Reenact.Proofs.Heap
import Reenact.Proofs.LocalNames

/-!
What the statements and expressions of generated code do to a machine that has what they use.
-/

namespace Reenact

namespace Machine

/-- Locals keep what they hold. -/
def Keeps (m m' : Machine) : Prop :=
  ∀ name v, findValue? name m.locals = some v → findValue? name m'.locals = some v

theorem Keeps.refl (m : Machine) : m.Keeps m := fun _ _ h => h

theorem Keeps.trans {m m' m'' : Machine} (h : m.Keeps m') (h' : m'.Keeps m'') : m.Keeps m'' :=
  fun name v hv => h' name v (h name v hv)

theorem keeps_bindLocal {m : Machine} {name : String} (v : RunValue)
    (hfree : findValue? name m.locals = none) : m.Keeps (m.bindLocal name v) := by
  intro other w hw
  have hne : other ≠ name := by
    rintro rfl
    cases hfree.symm.trans hw
  simpa [bindLocal, hne] using hw

@[simp]
theorem findValue?_bindLocal (m : Machine) (name other : String) (v : RunValue) :
    findValue? other (m.bindLocal name v).locals =
      if other = name then some v else findValue? other m.locals :=
  findValue?_putEntry name other v m.locals

/-- The names that are still to be given are free. -/
def Vacant (m : Machine) (names : LocalNames) : Prop :=
  ∀ stem k, Unnumbered stem → names.count stem < k →
    findValue? (stem ++ toString k) m.locals = none

section

variable {m : Machine} {names : LocalNames} {stem : String}

theorem Vacant.fresh (h : m.Vacant names) (hstem : Unnumbered stem) :
    findValue? (names.fresh stem).2 m.locals = none :=
  h stem _ hstem (Nat.lt_succ_self _)

/-- Binding the next name of a stem leaves the names after it free. -/
theorem Vacant.bindLocal (h : m.Vacant names) (hstem : Unnumbered stem) (v : RunValue) :
    (m.bindLocal (names.fresh stem).2 v).Vacant (names.fresh stem).1 := by
  intro other k hother hk
  rw [LocalNames.count_fresh] at hk
  rw [findValue?_bindLocal, if_neg, h other k hother]
  · split at hk
    · next heq => rw [heq]; omega
    · exact hk
  · intro heq
    obtain ⟨rfl, rfl⟩ := numbered_inj hother hstem (heq.trans (LocalNames.fresh_eq names stem))
    rw [if_pos rfl] at hk
    exact absurd hk (Nat.lt_irrefl _)

end

end Machine

theorem Host.resolve?_empty (types : ClassTable) (type : Ty) (name : String) :
    Host.empty.resolve? types type name = none := by
  cases h : type.className? <;> simp [Host.resolve?, Host.owners, Host.empty, h]

namespace Evaluate

/-- An evaluator that knows no methods but the built-in ones. -/
def Context.bare (types : ClassTable) : Context := ⟨types, .empty⟩

variable {c : Context} {types : ClassTable} {m m' : Machine}

/-- How the bodies of closures in an expression are evaluated, one level deeper. -/
abbrev inClosure (c : Context) : Expr → Eval RunValue := exprAt c (closureLimit - 1)

theorem expr_eq (c : Context) (e : Expr) : expr c e = exprWith c (inClosure c) e := rfl

/-- The expression has the value in every machine that keeps the locals, and changes nothing. -/
def Yields (c : Context) (m : Machine) (e : Expr) (v : Value) : Prop :=
  ∀ m', m.Keeps m' → expr c e m' = (.ok (.live v), m')

theorem Yields.eval {e : Expr} {v : Value} (h : Yields c m e v) :
    expr c e m = (.ok (.live v), m) := h m (.refl m)

theorem Yields.mono {e : Expr} {v : Value} (h : Yields c m e v) (hm : m.Keeps m') :
    Yields c m' e v := fun m'' hm' => h m'' (hm.trans hm')

theorem yields_literal (l : Literal) : Yields c m (.literal l) (.scalar l) := fun _ _ => rfl

theorem yields_null : Yields c m .null .null := fun _ _ => rfl

theorem yields_constant (type : Ty) (name : String) :
    Yields c m (.constant type name) (.constant type.erasure.text name) := fun _ _ => rfl

theorem yields_loc {name : String} {v : Value} (h : findValue? name m.locals = some (.live v)) :
    Yields c m (.loc name) v := by
  intro m' hm
  change localValue name m' = _
  unfold localValue
  rw [Effect.bind_of_ok (Effect.get_apply m')]
  simp only [hm name _ h]
  rfl

theorem yields_cast {e : Expr} {v w : Value} {type : Ty} (h : Yields c m e v)
    (hv : Convert.value v type = .ok w) : Yields c m (.cast e type) w := by
  intro m' hm
  rw [expr_eq, exprWith, ← expr_eq, Effect.bind_of_ok (h m' hm)]
  unfold castValue
  rw [Effect.bind_of_ok (show (RunValue.live v).toLive m' = (.ok v, m') from rfl), hv]
  rfl

theorem allWith_cons {e : Expr} {es : List Expr} {v : RunValue} {vs : List RunValue} {m₁ m₂ : Machine}
    (he : expr c e m = (.ok v, m₁)) (hes : allWith c (inClosure c) es m₁ = (.ok vs, m₂)) :
    allWith c (inClosure c) (e :: es) m = (.ok (v :: vs), m₂) := by
  rw [allWith, ← expr_eq, Effect.bind_of_ok he, Effect.bind_of_ok hes]
  rfl

/-- Expressions with values are evaluated to these in turn. -/
theorem allWith_of_yields {es : List Expr} {vs : List Value}
    (h : List.Forall₂ (Yields c m) es vs) :
    allWith c (inClosure c) es m = (.ok (vs.map RunValue.live), m) := by
  induction h with
  | nil => rfl
  | cons hv _ ih => exact allWith_cons hv.eval ih

theorem mapM_toLive (vs : List Value) (m : Machine) :
    (vs.map RunValue.live).mapM RunValue.toLive m = (.ok vs, m) :=
  Effect.mapM_map (f := RunValue.toLive) (fun _ => rfl) vs

theorem onHeap_apply {α : Type} (change : Heap → Heap × α) (m : Machine) :
    Collection.onHeap change m = (.ok (change m.heap).2, { m with heap := (change m.heap).1 }) := rfl

/-! ### Allocation -/

theorem expr_new {type class_ : Ty} {body : Body}
    (h : Collection.instantiate types type m.heap = m.heap.alloc class_ body) :
    expr (.bare types) (.new type []) m =
      (.ok (.live (.object m.heap.size)), { m with heap := (m.heap.alloc class_ body).1 }) := by
  have hrun : expr (.bare types) (.new type []) m =
      (.ok (.live (.object (Collection.instantiate types type m.heap).2)),
        { m with heap := (Collection.instantiate types type m.heap).1 }) := rfl
  rw [hrun, h]
  rfl

theorem expr_newArray {component : Ty} {es : List Expr} {vs : List Value}
    (hmatcher : component.className? ≠ Verification.matcherType.className?)
    (hentry : component.className? ≠ Verification.entryType.className?)
    (h : List.Forall₂ (Yields c m) es vs) :
    expr c (.newArray component es) m =
      (.ok (.live (.object m.heap.size)), { m with heap := (m.heap.newArray component vs).1 }) := by
  rw [expr_eq, exprWith, Effect.bind_of_ok (allWith_of_yields h)]
  unfold arrayOf
  rw [if_neg (by simpa using ⟨hmatcher, hentry⟩), Effect.bind_of_ok (mapM_toLive vs m),
    Effect.bind_of_ok (onHeap_apply _ m)]
  rfl

/-! ### Method calls -/

theorem expr_invoke {target : Expr} {method : String} {args : List Expr} {id : ObjectId} {o : Obj}
    {vs : List Value} (ht : Yields (.bare types) m target (.object id))
    (ho : m.heap.get? id = some o) (hargs : List.Forall₂ (Yields (.bare types) m) args vs) :
    expr (.bare types) (.invoke target method args) m =
      (RunValue.live <$> Collection.call id o method vs) m := by
  rw [expr_eq, Expr.invoke, exprWith, ← expr_eq, Effect.bind_of_ok ht.eval,
    Effect.bind_of_ok (allWith_of_yields hargs)]
  unfold callMethod
  simp only
  rw [Effect.bind_of_ok (show (RunValue.live (.object id)).toLive m = (.ok (.object id), m) from rfl),
    Effect.bind_of_ok (mapM_toLive vs m), Effect.bind_of_ok (Effect.get_apply m)]
  have hresolve : (m.heap.typeOf? (.object id)).bind
      (fun t => Host.empty.resolve? types t method) = none := by
    simp [Heap.typeOf?, ho, Host.resolve?_empty]
  simp only [Context.bare, hresolve, Value.object?, Option.bind_some, ho]
  rw [map_eq_pure_bind]

theorem call_add (id : ObjectId) (o : Obj) (v : Value) (m : Machine) :
    Collection.call id o "add" [v] m =
      (.ok (.scalar (.bool (m.heap.push id v).2)), { m with heap := (m.heap.push id v).1 }) := by
  unfold Collection.call
  simp only
  rw [Effect.bind_of_ok (onHeap_apply _ m)]
  rfl

theorem call_put (id : ObjectId) (o : Obj) (k v : Value) (m : Machine) :
    Collection.call id o "put" [k, v] m =
      (.ok ((m.heap.put id k v).2.getD .null), { m with heap := (m.heap.put id k v).1 }) := by
  unfold Collection.call
  simp only
  rw [Effect.bind_of_ok (onHeap_apply _ m)]
  rfl

/-! ### Factories of wrapper collections -/

/-- The function that makes wrappers of the kind, as in `unmodifiable_list`. -/
def factoryName (kind : WrapperKind) (collection : String) : String :=
  kind.name.map Char.toLower ++ "_" ++ collection.map Char.toLower

private theorem callFunction_factory (c : Context) (kind : WrapperKind) {collection : String}
    (hcollection : collection ∈ ["List", "Set"]) (typeArgs : List Ty) (args : List RunValue) :
    callFunction c (factoryName kind collection) typeArgs args =
      RunValue.live <$> Collection.wrap kind collection typeArgs args := by
  have hfactory : ∀ kind ∈ WrapperKind.all, ∀ collection ∈ ["List", "Set"],
      Collection.factory? (factoryName kind collection) = some (kind, collection) := by
    decide +kernel
  have hother : ∀ kind ∈ WrapperKind.all, ∀ collection ∈ ["List", "Set"],
      factoryName kind collection ∉ ["equal_to", "null_value", "recursive", "contains_in_order",
        "contains_in_any_order", "array_containing", "entry", "contains_entries",
        "primitive_array_containing", "generic_matcher", "assert_that", "fake_input",
        "verify_call"] := by
    decide +kernel
  have hfactory := hfactory kind kind.mem_all collection hcollection
  have hother := hother kind kind.mem_all collection hcollection
  simp only [List.mem_cons, List.not_mem_nil, or_false, not_or] at hother
  unfold callFunction
  simp only
  split <;> simp_all

theorem expr_factory (kind : WrapperKind) {collection : String}
    (hcollection : collection ∈ ["List", "Set"]) (typeArgs : List Ty) {args : List Expr}
    {vs : List Value} (h : List.Forall₂ (Yields c m) args vs) :
    expr c (.function none (factoryName kind collection) typeArgs args) m =
      (RunValue.live <$> Collection.wrap kind collection typeArgs (vs.map RunValue.live)) m := by
  have hthrows : ∀ kind ∈ WrapperKind.all, ∀ collection ∈ ["List", "Set"],
      factoryName kind collection ≠ "expect_throws" := by
    decide +kernel
  rw [expr_eq, exprWith, if_neg (hthrows kind kind.mem_all collection hcollection),
    Effect.bind_of_ok (allWith_of_yields h), callFunction_factory c kind hcollection]

theorem wrapped_nil (kind : WrapperKind) (m : Machine) :
    Collection.wrapped kind [] m = (.ok ([], []), m) := by
  cases kind <;> rfl

theorem wrapped_singleton (v : Value) (m : Machine) :
    Collection.wrapped .singleton [.live v] m = (.ok ([v], []), m) := rfl

theorem wrapped_payload {kind : WrapperKind} (hkind : kind ≠ .singleton) {id : ObjectId} {o : Obj}
    {items : List Value} (ho : m.heap.get? id = some o)
    (hbody : o.body = .list items ∨ o.body = .set items) :
    Collection.wrapped kind [.live (.object id)] m = (.ok (items, o.type.args), m) := by
  have hlive : (RunValue.live (.object id)).toLive m = (.ok (.object id), m) := rfl
  unfold Collection.wrapped
  cases kind with
  | singleton => exact absurd rfl hkind
  | _ =>
    simp only
    rw [Effect.bind_of_ok hlive, Effect.bind_of_ok (Effect.get_apply m)]
    simp only [Value.object?, Option.bind_some, ho]
    rcases hbody with hbody | hbody <;> rw [hbody] <;> rfl

theorem wrap_apply {kind : WrapperKind} (collection : String) (typeArgs : List Ty)
    {args : List RunValue} {items : List Value} {payloadArgs : List Ty}
    (hitems : items.Nodup ∨ collection = "List")
    (hw : Collection.wrapped kind args m = (.ok (items, payloadArgs), m)) :
    Collection.wrap kind collection typeArgs args m =
      (.ok (.object m.heap.size), { m with
        heap := (m.heap.alloc (.named (kind.className collection)
            (if typeArgs.isEmpty then payloadArgs else typeArgs))
          (if collection = "List" then .list items else .set items)).1 }) := by
  unfold Collection.wrap
  rw [Effect.bind_of_ok hw]
  simp only
  rw [Effect.bind_of_ok (onHeap_apply _ m)]
  by_cases hlist : collection = "List"
  · simp only [hlist, if_true]
    rfl
  · simp only [hlist, if_false, Heap.newSet_of_nodup _ (hitems.resolve_right hlist)]
    rfl

/-! ### Statements -/

theorem stmt_bind {name : String} {type : Ty} {value : Expr} {v : RunValue}
    (h : expr c value m = (.ok v, m')) :
    stmt c (.bind name type value) m = (.ok ⟨⟩, m'.bindLocal name v) := by
  rw [stmt, Effect.bind_of_ok h]
  rfl

theorem stmt_expr {e : Expr} {v : RunValue} (h : expr c e m = (.ok v, m')) :
    stmt c (.expr e) m = (.ok ⟨⟩, m') := by
  rw [stmt, Effect.bind_of_ok h]
  rfl

section

variable {target value : Expr} {id : ObjectId} {o : Obj} {v : Value}

theorem stmt_add (ht : Yields (.bare types) m target (.object id)) (ho : m.heap.get? id = some o)
    (hv : Yields (.bare types) m value v) :
    stmt (.bare types) (.expr (.invoke target "add" [value])) m =
      (.ok ⟨⟩, { m with heap := (m.heap.push id v).1 }) :=
  stmt_expr ((expr_invoke ht ho (.cons hv .nil)).trans (Effect.map_of_ok (call_add id o v m)))

theorem stmt_put {key : Expr} {k : Value} (ht : Yields (.bare types) m target (.object id))
    (ho : m.heap.get? id = some o) (hk : Yields (.bare types) m key k)
    (hv : Yields (.bare types) m value v) :
    stmt (.bare types) (.expr (.invoke target "put" [key, value])) m =
      (.ok ⟨⟩, { m with heap := (m.heap.put id k v).1 }) :=
  stmt_expr ((expr_invoke ht ho (.cons hk (.cons hv .nil))).trans
    (Effect.map_of_ok (call_put id o k v m)))

private theorem objectOf_apply (expected : String) (id : ObjectId) (m : Machine) :
    objectOf expected (.live (.object id)) m = (.ok id, m) := rfl

theorem stmt_assign_field (name : String) {stored : List (String × Value)}
    (ht : Yields c m target (.object id)) (ho : m.heap.get? id = some o)
    (hbody : o.body = .fields stored) (hv : Yields c m value v) :
    stmt c (.assign (.field target name) value) m =
      (.ok ⟨⟩, { m with heap := m.heap.setBody id (.fields (putEntry name v stored)) }) := by
  rw [stmt, Effect.bind_of_ok hv.eval,
    Effect.bind_of_ok (show (RunValue.live v).toLive m = (.ok v, m) from rfl)]
  unfold assign
  simp only
  rw [Effect.bind_of_ok ht.eval, Effect.bind_of_ok (objectOf_apply "object" id m),
    Effect.bind_of_ok (onHeap_apply _ m), Heap.setField_fields ho hbody]
  rfl

theorem stmt_assign_index {i : Nat} {items : List Value} (ht : Yields c m target (.object id))
    (ho : m.heap.get? id = some o) (hbody : o.body = .array items) (hi : i < items.length)
    (hv : Yields c m value v) :
    stmt c (.assign (.index target i) value) m =
      (.ok ⟨⟩, { m with heap := m.heap.setBody id (.array (items.set i v)) }) := by
  rw [stmt, Effect.bind_of_ok hv.eval,
    Effect.bind_of_ok (show (RunValue.live v).toLive m = (.ok v, m) from rfl)]
  unfold assign
  simp only
  rw [Effect.bind_of_ok ht.eval, Effect.bind_of_ok (objectOf_apply "array" id m),
    Effect.bind_of_ok (onHeap_apply _ m), Heap.setElement_array ho hbody hi]
  rfl

end

theorem run_cons {s : Stmt} {rest : List Stmt} (h : stmt c s m = (.ok ⟨⟩, m')) :
    run c (s :: rest) m = run c rest m' := by
  unfold run
  rw [List.forM_eq_forM, List.forM_cons, Effect.bind_of_ok h]

theorem run_append {front rest : List Stmt} (h : run c front m = (.ok ⟨⟩, m')) :
    run c (front ++ rest) m = run c rest m' := by
  unfold run at *
  rw [List.forM_eq_forM] at *
  rw [List.forM_append, Effect.bind_of_ok h]

theorem run_one (s : Stmt) (m : Machine) : run c [s] m = stmt c s m := by
  unfold run
  rw [List.forM_eq_forM, List.forM_cons, List.forM_nil, bind_pure_unit]

theorem run_singleton {s : Stmt} (h : stmt c s m = (.ok ⟨⟩, m')) :
    run c [s] m = (.ok ⟨⟩, m') := (run_one s m).trans h

end Evaluate

end Reenact
