import Mathlib
import Reenact.Proofs.Evaluation
import Reenact.Proofs.Slots

/-!
What the code of assertions does. Expressions that make matchers add arrays to the heap at most, so
they can be evaluated in any order and again later; an assertion passes if the matcher accepts.
-/

namespace Reenact

namespace Machine

/-- Locals keep the matchers that they hold, and objects stay as they are. -/
structure Later (m m' : Machine) : Prop where
  keeps : ∀ {name p}, findValue? name m.locals = some (.matcher p) →
    findValue? name m'.locals = some (.matcher p)
  object : ∀ {a o}, m.heap.get? a = some o → m'.heap.get? a = some o

variable {m m' m'' : Machine}

theorem Later.refl (m : Machine) : m.Later m := ⟨fun hp => hp, fun ho => ho⟩

theorem Later.trans (h : m.Later m') (h' : m'.Later m'') : m.Later m'' :=
  ⟨fun hp => h'.keeps (h.keeps hp), fun ho => h'.object (h.object ho)⟩

end Machine

namespace Evaluate

variable {c : Context} {types : ClassTable} {m m' : Machine}

/-- In every later machine the expression gives such a value and changes no local. -/
def Makes (c : Context) (m : Machine) (e : Expr) (P : RunValue → Prop) : Prop :=
  ∀ m', m.Later m' → ∃ v m'', expr c e m' = (.ok v, m'') ∧ m'.Later m'' ∧ m''.locals = m'.locals ∧ P v

section

variable {P Q : RunValue → Prop} {e : Expr}

theorem Makes.later (h : Makes c m e P) (hm : m.Later m') : Makes c m' e P :=
  fun m'' hm' => h m'' (hm.trans hm')

theorem Makes.imp (h : Makes c m e P) (hPQ : ∀ v, P v → Q v) : Makes c m e Q := by
  intro m' hm
  obtain ⟨v, m'', hv, hlater, hlocals, hP⟩ := h m' hm
  exact ⟨v, m'', hv, hlater, hlocals, hPQ v hP⟩

/-- An expression that only looks. -/
theorem makes_of_expr {v : RunValue} (h : ∀ m', m.Later m' → expr c e m' = (.ok v, m')) (hv : P v) :
    Makes c m e P := fun m' hm => ⟨v, m', h m' hm, .refl m', rfl, hv⟩

theorem makes_literal (l : Literal) (hP : P (.live (.scalar l))) : Makes c m (.literal l) P :=
  makes_of_expr (fun _ _ => rfl) hP

theorem localValue_apply {name : String} {v : RunValue} (h : findValue? name m.locals = some v) :
    localValue name m = (.ok v, m) := by
  unfold localValue
  rw [Effect.bind_of_ok (Effect.get_apply m)]
  simp only [h]
  rfl

/-- A matcher bound to a local can be used again. -/
theorem makes_hoistedUse {name : String} {p : Matcher} (h : findValue? name m.locals = some (.matcher p))
    (hP : P (.matcher p)) : Makes c m (Verification.hoistedUse name) P := by
  refine makes_of_expr (fun m' hm => ?_) hP
  rw [expr_eq, Verification.hoistedUse, Expr.invoke, exprWith, exprWith,
    Effect.bind_of_ok (localValue_apply (hm.keeps h))]
  rfl

end

variable {α : Type} {P : α → RunValue → Prop} {Q : RunValue → Prop}

theorem allWith_of_makes {es : List Expr} {xs : List α}
    (h : List.Forall₂ (fun e x => Makes c m e (P x)) es xs) (hm : m.Later m') :
    ∃ vs m'', allWith c (inClosure c) es m' = (.ok vs, m'') ∧ m'.Later m'' ∧ m''.locals = m'.locals ∧
      List.Forall₂ (fun v x => P x v) vs xs := by
  induction h generalizing m' with
  | nil => exact ⟨[], m', rfl, .refl m', rfl, .nil⟩
  | cons he _ ih =>
    obtain ⟨v, m₁, hv, hlater, hlocals, hP⟩ := he m' hm
    obtain ⟨vs, m₂, hvs, hlater', hlocals', hPs⟩ := ih (hm.trans hlater)
    exact ⟨v :: vs, m₂, allWith_cons hv hvs, hlater.trans hlater', hlocals'.trans hlocals, .cons hP hPs⟩

/-- A call of a function that only computes a value. -/
theorem makes_function {name : String} (hname : name ≠ "expect_throws") {typeArgs : List Ty}
    {args : List Expr} {xs : List α} (hargs : List.Forall₂ (fun e x => Makes c m e (P x)) args xs)
    (hcall : ∀ vs m', List.Forall₂ (fun v x => P x v) vs xs →
      ∃ v, callFunction c name typeArgs vs m' = (.ok v, m') ∧ Q v) :
    Makes c m (.function none name typeArgs args) Q := by
  intro m' hm
  obtain ⟨vs, m'', hvs, hlater, hlocals, hPs⟩ := allWith_of_makes hargs hm
  obtain ⟨v, hv, hQ⟩ := hcall vs m'' hPs
  refine ⟨v, m'', ?_, hlater, hlocals, hQ⟩
  rw [expr_eq, exprWith, if_neg hname, Effect.bind_of_ok hvs, hv]

/-- An array literal of matchers or entries is a sequence. -/
theorem makes_seq {component : Ty}
    (hcomponent : component = Verification.matcherType ∨ component = Verification.entryType)
    {es : List Expr} {xs : List α} (h : List.Forall₂ (fun e x => Makes c m e (P x)) es xs) :
    Makes c m (.newArray component es)
      fun v => ∃ vs, v = .seq vs ∧ List.Forall₂ (fun v x => P x v) vs xs := by
  intro m' hm
  obtain ⟨vs, m'', hvs, hlater, hlocals, hPs⟩ := allWith_of_makes h hm
  refine ⟨.seq vs, m'', ?_, hlater, hlocals, vs, rfl, hPs⟩
  rw [expr_eq, exprWith, Effect.bind_of_ok hvs]
  unfold arrayOf
  rcases hcomponent with rfl | rfl <;> rfl

/-! ### Matchers -/

variable {A : Matcher → α → Prop}

/-- The value is a matcher that describes the thing. -/
def IsMatcher (A : Matcher → α → Prop) (x : α) (v : RunValue) : Prop := ∃ p, v = .matcher p ∧ A p x

theorem toMatchers_apply (ps : List Matcher) (m : Machine) :
    (RunValue.seq (ps.map .matcher)).toMatchers m = (.ok ps, m) :=
  Effect.mapM_map (f := RunValue.toMatcher) (fun _ => rfl) ps

theorem toEntries_apply (es : List (Matcher × Matcher)) (m : Machine) :
    (RunValue.seq (es.map fun e => .entry e.1 e.2)).toEntries m = (.ok es, m) :=
  Effect.mapM_map (f := RunValue.toEntry) (fun _ => rfl) es

theorem argument_apply (v : RunValue) (rest : List RunValue) (m : Machine) :
    argument (v :: rest) 0 m = (.ok v, m) := rfl

private theorem call_of_matchers {name : String} {typeArgs : List Ty} {mk : List Matcher → Matcher}
    (ps : List Matcher) (m : Machine)
    (hname : ∀ args, callFunction c name typeArgs args =
      (do return .matcher (mk (← (← argument args 0).toMatchers)))) :
    callFunction c name typeArgs [.seq (ps.map .matcher)] m = (.ok (.matcher (mk ps)), m) := by
  rw [hname, Effect.bind_of_ok (argument_apply _ _ m), Effect.bind_of_ok (toMatchers_apply ps m)]
  rfl

theorem call_contains_in_order (typeArgs : List Ty) (ps : List Matcher) (m : Machine) :
    callFunction c "contains_in_order" typeArgs [.seq (ps.map .matcher)] m =
      (.ok (.matcher (.inOrder ps)), m) := call_of_matchers ps m fun _ => rfl

theorem call_contains_in_any_order (typeArgs : List Ty) (ps : List Matcher) (m : Machine) :
    callFunction c "contains_in_any_order" typeArgs [.seq (ps.map .matcher)] m =
      (.ok (.matcher (.anyOrder ps)), m) := call_of_matchers ps m fun _ => rfl

theorem call_array_containing (typeArgs : List Ty) (ps : List Matcher) (m : Machine) :
    callFunction c "array_containing" typeArgs [.seq (ps.map .matcher)] m =
      (.ok (.matcher (.arrayOf ps)), m) := call_of_matchers ps m fun _ => rfl

theorem call_contains_entries (typeArgs : List Ty) (es : List (Matcher × Matcher)) (m : Machine) :
    callFunction c "contains_entries" typeArgs [.seq (es.map fun e => .entry e.1 e.2)] m =
      (.ok (.matcher (.mapOf es)), m) := by
  unfold callFunction
  simp only
  rw [Effect.bind_of_ok (argument_apply _ _ m), Effect.bind_of_ok (toEntries_apply es m)]
  rfl

theorem call_equal_to (typeArgs : List Ty) (v : Value) (m : Machine) :
    callFunction c "equal_to" typeArgs [.live v] m = (.ok (.matcher (.equalTo v)), m) := rfl

theorem call_null_value (typeArgs : List Ty) (m : Machine) :
    callFunction c "null_value" typeArgs [] m = (.ok (.matcher .nullValue), m) := rfl

theorem call_recursive (type : Ty) (m : Machine) :
    callFunction c "recursive" [type] [] m = (.ok (.matcher (.instanceOf type)), m) := rfl

theorem call_entry (typeArgs : List Ty) (k v : Matcher) (m : Machine) :
    callFunction c "entry" typeArgs [.matcher k, .matcher v] m = (.ok (.entry k v), m) := rfl

theorem call_assert_that (v : Value) (p : Matcher) (m : Machine) :
    callFunction c "assert_that" [] [.live v, .matcher p] m =
      (((p.check m.heap c.types v).map fun _ => .unit).mapError .assertion, m) := by
  have hactual : (RunValue.live v).toLive m = (.ok v, m) := rfl
  have hsecond : argument [.live v, .matcher p] 1 m = (.ok (.matcher p), m) := rfl
  have hmatcher : (RunValue.matcher p).toMatcher m = (.ok p, m) := rfl
  change assertThat c [.live v, .matcher p] m = _
  unfold assertThat
  rw [Effect.bind_of_ok (argument_apply _ _ m), Effect.bind_of_ok hactual, Effect.bind_of_ok hsecond,
    Effect.bind_of_ok hmatcher, Effect.bind_of_ok (Effect.get_apply m)]
  cases p.check m.heap c.types v <;> rfl

/-! ### Collections -/

/-- A function of one sequence of matchers or entries. -/
theorem makes_container {β : Type} {name : String} {component : Ty} {make : β → RunValue}
    {mk : List β → Matcher} {B : β → α → Prop} (hname : name ≠ "expect_throws")
    (hcomponent : component = Verification.matcherType ∨ component = Verification.entryType)
    (hcall : ∀ ps m, callFunction c name [] [.seq (ps.map make)] m = (.ok (.matcher (mk ps)), m))
    {es : List Expr} {xs : List α}
    (h : List.Forall₂ (fun e x => Makes c m e fun v => ∃ p, v = make p ∧ B p x) es xs) :
    Makes c m (.function none name [] [.newArray component es])
      fun v => ∃ ps, v = .matcher (mk ps) ∧ List.Forall₂ B ps xs := by
  have hseq : List.Forall₂ (fun e (ys : List α) => Makes c m e fun v => ∃ ps, v = .seq (ps.map make) ∧
      List.Forall₂ B ps ys) [.newArray component es] [xs] := by
    refine .cons ((makes_seq hcomponent h).imp ?_) .nil
    rintro v ⟨vs, rfl, hvs⟩
    obtain ⟨ps, rfl, hps⟩ := forall₂_exists_map hvs
    exact ⟨ps, rfl, hps⟩
  refine makes_function hname hseq fun vs m' hvs => ?_
  obtain ⟨v, _, ⟨ps, rfl, hps⟩, hnil, rfl⟩ := List.forall₂_cons_right_iff.1 hvs
  cases hnil
  exact ⟨_, hcall ps m', ps, rfl, hps⟩

theorem makes_collection {name : String} {mk : List Matcher → Matcher} (hname : name ≠ "expect_throws")
    (hcall : ∀ ps m, callFunction c name [] [.seq (ps.map .matcher)] m = (.ok (.matcher (mk ps)), m))
    {es : List Expr} {xs : List α} (h : List.Forall₂ (fun e x => Makes c m e (IsMatcher A x)) es xs) :
    Makes c m (.function none name [] [.newArray Verification.matcherType es])
      fun v => ∃ ps, v = .matcher (mk ps) ∧ List.Forall₂ A ps xs :=
  makes_container hname (.inl rfl) hcall h

/-- The value is an entry whose matchers describe the two things. -/
def IsEntry (A : Matcher → α → Prop) (x : α × α) (v : RunValue) : Prop :=
  ∃ e : Matcher × Matcher, v = .entry e.1 e.2 ∧ A e.1 x.1 ∧ A e.2 x.2

theorem makes_entry {k v : Expr} {x y : α} (hk : Makes c m k (IsMatcher A x))
    (hv : Makes c m v (IsMatcher A y)) :
    Makes c m (.function none "entry" [] [k, v]) (IsEntry A (x, y)) := by
  refine makes_function (by decide) (.cons hk (.cons hv .nil)) fun vs m' hvs => ?_
  obtain ⟨_, _, ⟨p, rfl, hp⟩, hrest, rfl⟩ := List.forall₂_cons_right_iff.1 hvs
  obtain ⟨_, _, ⟨q, rfl, hq⟩, hnil, rfl⟩ := List.forall₂_cons_right_iff.1 hrest
  cases hnil
  exact ⟨_, call_entry [] p q m', (p, q), rfl, hp, hq⟩

theorem makes_contains_entries {es : List Expr} {xs : List (α × α)}
    (h : List.Forall₂ (fun e x => Makes c m e (IsEntry A x)) es xs) :
    Makes c m (.function none "contains_entries" [] [.newArray Verification.entryType es])
      fun v => ∃ ps, v = .matcher (.mapOf ps) ∧
        List.Forall₂ (fun (p : Matcher × Matcher) x => A p.1 x.1 ∧ A p.2 x.2) ps xs :=
  makes_container (by decide) (.inr rfl) (call_contains_entries []) h

theorem elements_apply {id : ObjectId} {o : Obj} {items : List Value} (ho : m.heap.get? id = some o)
    (hbody : o.body = .array items) : Collection.elements (.object id) m = (.ok items, m) := by
  unfold Collection.elements
  rw [Effect.bind_of_ok (Effect.get_apply m)]
  simp only [Value.object?, Option.bind_some, Heap.body?_of_get? ho, hbody]
  rfl

theorem mapM_literalOf (ls : List Literal) (m : Machine) :
    (ls.map Value.scalar).mapM literalOf m = (.ok ls, m) :=
  Effect.mapM_map (f := literalOf) (fun _ => rfl) ls

theorem call_primitive_array_containing (kind : Primitive) (ls : List Literal) {id : ObjectId} {o : Obj}
    (ho : m.heap.get? id = some o) (hbody : o.body = .array (ls.map .scalar)) :
    callFunction c "primitive_array_containing" [.primitive kind] [.live (.object id)] m =
      (.ok (.matcher (.primitives kind ls)), m) := by
  change primitiveArray [.primitive kind] [.live (.object id)] m = _
  unfold primitiveArray
  simp only [typeArg, List.head?_cons, Option.getD_some, Ty.unboxed?]
  rw [Effect.bind_of_ok (argument_apply _ _ m),
    Effect.bind_of_ok (show (RunValue.live (.object id)).toLive m = (.ok (.object id), m) from rfl),
    Effect.bind_of_ok (elements_apply ho hbody), Effect.bind_of_ok (mapM_literalOf ls m)]
  rfl

/-- The values of an array of primitives are put into an array of their own first. -/
theorem makes_primitives (kind : Primitive) (ls : List Literal) :
    Makes c m (.function none "primitive_array_containing" [.primitive kind]
      [.newArray (.primitive kind) (ls.map .literal)]) (· = .matcher (.primitives kind ls)) := by
  intro m' hm
  have hliterals : List.Forall₂ (Yields c m') (ls.map .literal) (ls.map .scalar) :=
    List.forall₂_map_left_iff.2 (List.forall₂_map_right_iff.2
      (List.forall₂_same.2 fun l _ => yields_literal l))
  have harray : expr c (.newArray (.primitive kind) (ls.map .literal)) m' =
      (.ok (.live (.object m'.heap.size)),
        { m' with heap := (m'.heap.newArray (.primitive kind) (ls.map .scalar)).1 }) :=
    expr_newArray (by simp [Ty.className?, Verification.matcherType, Ty.ofClass])
      (by simp [Ty.className?, Verification.entryType, Ty.ofClass]) hliterals
  have hall : allWith c (inClosure c) [.newArray (.primitive kind) (ls.map .literal)] m' =
      (.ok [.live (.object m'.heap.size)],
        { m' with heap := (m'.heap.newArray (.primitive kind) (ls.map .scalar)).1 }) :=
    allWith_cons harray rfl
  refine ⟨_, { m' with heap := (m'.heap.newArray (.primitive kind) (ls.map .scalar)).1 }, ?_,
    ⟨fun hp => hp, fun ho => Heap.get?_alloc_of_get? _ _ ho⟩, rfl, rfl⟩
  rw [expr_eq, exprWith, if_neg (by decide), Effect.bind_of_ok hall]
  exact call_primitive_array_containing kind ls (Heap.get?_alloc_self _ _) rfl

/-! ### Plain objects -/

/-- What is expected of a field: a literal, or what a matcher describes. -/
def IsExpectation (E : String × (Value ⊕ Matcher) → α → Prop) (name : String) (x : α) (v : RunValue) :
    Prop :=
  (∃ w, v = .live w ∧ E (name, .inl w) x) ∨ ∃ p, v = .matcher p ∧ E (name, .inr p) x

/-- A builder that has expectations of some fields. -/
def IsBuilder (E : String × (Value ⊕ Matcher) → α → Prop) (xs : List α) (v : RunValue) : Prop :=
  ∃ es, v = .builder es ∧ List.Forall₂ E es xs

variable {E : String × (Value ⊕ Matcher) → α → Prop} {target : Expr} {xs : List α}

theorem makes_generic_matcher : Makes c m (.apply "generic_matcher" []) (IsBuilder E []) :=
  makes_of_expr (fun _ _ => rfl) ⟨[], rfl, .nil⟩

theorem callBuilder_field (es : List (String × (Value ⊕ Matcher))) (name : String) {x : α} {v : RunValue}
    (hv : IsExpectation E name x v) (m : Machine) :
    ∃ e, callBuilder es "field" [] [.live (.scalar (.str name)), v] m = (.ok (.builder (es ++ [e])), m) ∧
      E e x := by
  rcases hv with ⟨w, rfl, hw⟩ | ⟨p, rfl, hp⟩
  · exact ⟨(name, .inl w), rfl, hw⟩
  · exact ⟨(name, .inr p), rfl, hp⟩

theorem makes_field {expected : Expr} {name : String} {x : α} (ht : Makes c m target (IsBuilder E xs))
    (he : Makes c m expected (IsExpectation E name x)) :
    Makes c m (.invoke target "field" [.literal (.str name), expected]) (IsBuilder E (xs ++ [x])) := by
  intro m' hm
  obtain ⟨_, m₁, ht', hlater, hlocals, es, rfl, hes⟩ := ht m' hm
  obtain ⟨v, m₂, hv, hlater', hlocals', hexpected⟩ := he m₁ (hm.trans hlater)
  have hall : allWith c (inClosure c) [.literal (.str name), expected] m₁ =
      (.ok [.live (.scalar (.str name)), v], m₂) := allWith_cons rfl (allWith_cons hv rfl)
  obtain ⟨e, hcall, hE⟩ := callBuilder_field es name hexpected m₂
  refine ⟨.builder (es ++ [e]), m₂, ?_, hlater.trans hlater', hlocals'.trans hlocals, es ++ [e], rfl,
    List.rel_append hes (.cons hE .nil)⟩
  rw [expr_eq, Expr.invoke, exprWith, ← expr_eq, Effect.bind_of_ok ht', Effect.bind_of_ok hall]
  exact hcall

theorem makes_matching {method : String} (hmethod : method = "matching" ∨ method = "matching_as")
    (type : Ty) (ht : Makes c m target (IsBuilder E xs)) :
    Makes c m (.call target method [type] []) fun v =>
      ∃ es, v = .matcher (.fieldwise (method == "matching") type es) ∧ List.Forall₂ E es xs := by
  intro m' hm
  obtain ⟨_, m₁, ht', hlater, hlocals, es, rfl, hes⟩ := ht m' hm
  refine ⟨_, m₁, ?_, hlater, hlocals, es, rfl, hes⟩
  rw [expr_eq, exprWith, ← expr_eq, Effect.bind_of_ok ht']
  rcases hmethod with rfl | rfl <;> rfl

/-! ### Assertions -/

/-- An assertion checks the value by the matcher, and fails as the check does. -/
theorem stmt_assert_that {actual expected : Expr} {v : Value} {A : Matcher → Prop}
    (ha : expr c actual m = (.ok (.live v), m))
    (he : Makes c m expected fun r => ∃ p : Matcher, r = .matcher p ∧ A p) :
    ∃ p m', A p ∧ m.Later m' ∧ m'.locals = m.locals ∧
      stmt c (.expr (.apply "assert_that" [actual, expected])) m =
        ((p.check m'.heap c.types v).mapError .assertion, m') := by
  obtain ⟨_, m', he', hlater, hlocals, p, rfl, hp⟩ := he m (.refl m)
  have hall : allWith c (inClosure c) [actual, expected] m = (.ok [.live v, .matcher p], m') :=
    allWith_cons ha (allWith_cons he' rfl)
  have hexpr : expr c (.apply "assert_that" [actual, expected]) m =
      (((p.check m'.heap c.types v).map fun _ => .unit).mapError .assertion, m') := by
    rw [expr_eq, Expr.apply, exprWith, if_neg (by decide), Effect.bind_of_ok hall]
    exact call_assert_that v p m'
  refine ⟨p, m', hp, hlater, hlocals, ?_⟩
  cases hcheck : p.check m'.heap c.types v with
  | ok => exact stmt_expr (by rw [hexpr, hcheck]; rfl)
  | error e =>
    rw [hcheck] at hexpr
    rw [stmt, Effect.bind_of_error hexpr]
    rfl

end Evaluate

end Reenact
