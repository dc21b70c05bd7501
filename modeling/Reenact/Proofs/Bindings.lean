import Mathlib
import Reenact.Proofs.Wrapper

/-!
The locals of code that rebuilds captured values: which statement binds a local for which node, and
which locals a statement reads. The code grows by statements at its end, and what it gains is told by the
nodes that were bound, in order.
-/

namespace Reenact

/-! ### Locals read and bound -/

mutual

/-- The locals that an expression reads. -/
def Expr.reads : Expr → List String
  | .literal _ => []
  | .null => []
  | .loc name => [name]
  | .constant _ _ => []
  | .new _ args => readsAll args
  | .newArray _ elements => readsAll elements
  | .call target _ _ args => target.reads ++ readsAll args
  | .function _ _ _ args => readsAll args
  | .field target _ => target.reads
  | .staticField _ _ => []
  | .index target _ => target.reads
  | .cast e _ => e.reads
  | .closure body => body.reads

def Expr.readsAll : List Expr → List String
  | [] => []
  | e :: es => e.reads ++ readsAll es

end

theorem Expr.mem_readsAll {name : String} {es : List Expr} :
    name ∈ readsAll es ↔ ∃ e ∈ es, name ∈ e.reads := by
  induction es with
  | nil => simp [readsAll]
  | cons e es ih => simp [readsAll, ih]

def Stmt.reads : Stmt → List String
  | .bind _ _ value => value.reads
  | .assign target value => target.reads ++ value.reads
  | .expr e => e.reads
  | .comment _ => []

/-- Some statement binds a local of the name. -/
def Bound (stmts : List Stmt) (name : String) : Prop := ∃ type value, .bind name type value ∈ stmts

/-- Every local that the code reads is bound. -/
def Covers (stmts : List Stmt) (e : Expr) : Prop := ∀ name ∈ e.reads, Bound stmts name

/-- Each local that a statement reads is bound by a statement before it. -/
def InScope (stmts : List Stmt) : Prop :=
  ∀ before stmt after, stmts = before ++ stmt :: after → ∀ name ∈ stmt.reads, Bound before name

theorem Bound.append {stmts : List Stmt} {name : String} (h : Bound stmts name) (more : List Stmt) :
    Bound (stmts ++ more) name := by
  obtain ⟨type, value, hmem⟩ := h
  exact ⟨type, value, List.mem_append_left more hmem⟩

theorem Covers.append {stmts : List Stmt} {e : Expr} (h : Covers stmts e) (more : List Stmt) :
    Covers (stmts ++ more) e :=
  fun name hname => (h name hname).append more

theorem InScope.concat {stmts : List Stmt} {stmt : Stmt} (h : InScope stmts)
    (hreads : ∀ name ∈ stmt.reads, Bound stmts name) : InScope (stmts ++ [stmt]) := by
  intro before st after heq name hname
  rcases List.eq_nil_or_concat after with rfl | ⟨init, last, rfl⟩
  · obtain ⟨rfl, hst⟩ := List.append_inj' heq rfl
    cases hst
    exact hreads name hname
  · rw [List.concat_eq_append, ← List.cons_append, ← List.append_assoc] at heq
    obtain ⟨rfl, -⟩ := List.append_inj' heq rfl
    exact h before st init rfl name hname

/-- The locals that statements bind, with what they are bound to. -/
def lets (stmts : List Stmt) : List (Local × Expr) :=
  stmts.filterMap fun
    | .bind name type value => some (⟨name, type⟩, value)
    | _ => none

namespace Reconstruction

/-! ### Nodes that can be built -/

/-- A list or a set of a class for wrappers around collections of its kind. -/
inductive WrapperNode (g : Graph) (id : NodeId) (kind : String) (elements : List NodeId) : Prop where
  | list {declared runtime} : g.get? id = some (.composite declared runtime (.list elements)) →
      runtime.className? = some ("collections::" ++ kind ++ "List") → WrapperNode g id kind elements
  | set {declared runtime} : g.get? id = some (.composite declared runtime (.set elements)) →
      runtime.className? = some ("collections::" ++ kind ++ "Set") → WrapperNode g id kind elements

/-- The kinds of wrappers that are given the collection they wrap. -/
def payloadKinds : List String := ["Unmodifiable", "Synchronized", "Checked"]

/-- There is a factory for wrappers of this kind around so many elements. -/
inductive HasFactory : (kind : String) → (count : Nat) → Prop where
  | empty : HasFactory "Empty" 0
  | singleton : HasFactory "Singleton" 1
  | payload {kind} (count) : kind ∈ payloadKinds → HasFactory kind count

def HasPayload (g : Graph) (id : NodeId) : Prop :=
  ∃ kind elements, WrapperNode g id kind elements ∧ kind ∈ payloadKinds

/-- What no code can build: an id that no node has, an object of which code can make no instance, a
wrapper that is reached from its own elements, and a wrapper without a factory. -/
inductive Unbuildable (types : ClassTable) (g : Graph) (id : NodeId) : Prop where
  | missing : g.get? id = none → Unbuildable types g id
  | noClass {declared runtime fields} :
      g.get? id = some (.composite declared runtime (.object fields)) → runtime.className? = none →
      Unbuildable types g id
  | hidden {declared name args fields} :
      g.get? id = some (.composite declared (.named name args) (.object fields)) →
      types.isHidden name = true → Unbuildable types g id
  | abstract {declared name args fields d} :
      g.get? id = some (.composite declared (.named name args) (.object fields)) →
      types.get? name = some d → d.kind ≠ .concrete → Unbuildable types g id
  | cyclic {kind elements element} : WrapperNode g id kind elements → element ∈ elements →
      Leads g.children element id → Unbuildable types g id
  | unknown {kind elements} : WrapperNode g id kind elements → ¬ HasFactory kind elements.length →
      Unbuildable types g id

/-! ### Bindings -/

/-- What a local is bound for: the value of a node, or the collection that this value wraps. -/
inductive Role where
  | identity | payload
  deriving DecidableEq

/-- The local is bound to a new object of the type that is built for the node. -/
inductive Creates (types : ClassTable) (g : Graph) : NodeId × Role → Local × Expr → Prop where
  | array {id declared runtime elements name component values} :
      g.get? id = some (.composite declared runtime (.array elements)) →
      component = (Node.composite declared runtime (.array elements)).componentType →
      values.length = elements.length →
      Creates types g (id, .identity) (⟨name, runtime⟩, .newArray component values)
  | collection {id declared runtime content name type} (role) :
      g.get? id = some (.composite declared runtime content) → content.kind ∈ [.list, .set, .map] →
      type = types.defaultImplementation runtime → Creates types g (id, role) (⟨name, type⟩, .new type [])
  | object {id declared runtime fields name} :
      g.get? id = some (.composite declared runtime (.object fields)) →
      Creates types g (id, .identity) (⟨name, runtime⟩, .new runtime [])
  | wrapper {id n kind collection name type typeArgs args} :
      g.get? id = some n → n.wrapperKind? collection = some kind → type = types.publicSupertype n.runtime →
      Creates types g (id, .identity) (⟨name, type⟩,
        .function none (kind.map Char.toLower ++ "_" ++ collection.map Char.toLower) typeArgs args)

/-- The node stands in a local. -/
def State.Built (s : State) (id : NodeId) : Prop := ∃ l, findValue? id s.built = some l

/-- Code for the node can be written: it stands in a local, or it needs none. -/
def Settled (g : Graph) (s : State) (id : NodeId) : Prop :=
  s.Built id ∨ ∃ n, g.get? id = some n ∧ n.isReference = false

/-- The node was built with everything that it refers to. -/
structure Complete (types : ClassTable) (g : Graph) (s : State) (id : NodeId) : Prop where
  composite : ∃ declared runtime content, g.get? id = some (.composite declared runtime content)
  buildable : ¬ Unbuildable types g id
  parts : ∀ part ∈ g.children id, Settled g s part

/-- From the first state to the second one, statements were added that bind one local for every entry of
the list, in this order: one for each node that was built and one more for each payload. -/
structure Adds (types : ClassTable) (g : Graph) (s : State) (order : List (NodeId × Role)) (s' : State) :
    Prop where
  statements : ∃ emitted, s'.statements = s.statements ++ emitted ∧
    List.Forall₂ (Creates types g) order (lets emitted)
  kept : ∀ {k l}, findValue? k s.built = some l → findValue? k s'.built = some l
  built : ∀ {k}, s'.Built k → s.Built k ∨ (k, .identity) ∈ order
  fresh : ∀ {e}, e ∈ order → ¬ s.Built e.1
  nodup : order.Nodup
  payload : ∀ {k}, (k, .payload) ∈ order ↔ (k, .identity) ∈ order ∧ HasPayload g k
  stands : ∀ {k}, (k, .identity) ∈ order → s'.Built k
  complete : ∀ {k}, (k, .identity) ∈ order → Complete types g s' k

variable {types : ClassTable} {g : Graph} {s s' s'' : State} {id : NodeId}
  {order order' : List (NodeId × Role)}

theorem WrapperNode.isReference {kind : String} {elements : List NodeId} {n : Node}
    (h : WrapperNode g id kind elements) (hn : g.get? id = some n) : n.isReference = true := by
  cases h with
  | list hn' => cases hn'.symm.trans hn; rfl
  | set hn' => cases hn'.symm.trans hn; rfl

theorem Unbuildable.isReference {n : Node} (h : Unbuildable types g id) (hn : g.get? id = some n) :
    n.isReference = true := by
  cases h with
  | missing hnone => cases hnone.symm.trans hn
  | noClass hn' => cases hn'.symm.trans hn; rfl
  | hidden hn' => cases hn'.symm.trans hn; rfl
  | abstract hn' => cases hn'.symm.trans hn; rfl
  | cyclic hw => exact hw.isReference hn
  | unknown hw => exact hw.isReference hn

theorem lets_append (stmts more : List Stmt) : lets (stmts ++ more) = lets stmts ++ lets more :=
  List.filterMap_append

theorem Settled.mono (hkept : ∀ {k}, s.Built k → s'.Built k) (h : Settled g s id) : Settled g s' id :=
  h.imp_left hkept

theorem Complete.mono (hkept : ∀ {k}, s.Built k → s'.Built k) (h : Complete types g s id) :
    Complete types g s' id where
  composite := h.composite
  buildable := h.buildable
  parts part hpart := (h.parts part hpart).mono hkept

theorem allocated_lookup {k : NodeId} (type : Ty) (value : Expr) :
    findValue? k (s.allocated id type value).built =
      if k = id then some ⟨s.nextName type, type⟩ else findValue? k s.built :=
  findValue?_putEntry id k _ s.built

theorem allocated_self (s : State) (id : NodeId) (type : Ty) (value : Expr) :
    findValue? id (s.allocated id type value).built = some ⟨s.nextName type, type⟩ :=
  (allocated_lookup type value).trans (if_pos rfl)

theorem allocated_built {k : NodeId} {type : Ty} {value : Expr} :
    (s.allocated id type value).Built k ↔ k = id ∨ s.Built k := by
  unfold State.Built
  rw [allocated_lookup]
  by_cases hk : k = id <;> simp [hk]

theorem reallocated_built {type : Ty} {value : Expr} (hbuilt : s'.built = (s.without id).built) {k : NodeId}
    (hk : s.Built k) : (s'.allocated id type value).Built k := by
  by_cases heq : k = id
  · exact allocated_built.2 (.inl heq)
  · obtain ⟨l, hl⟩ := hk
    refine allocated_built.2 (.inr ⟨l, ?_⟩)
    rw [hbuilt, State.without, findValue?_dropEntry_of_ne heq, hl]

namespace Adds

theorem refl (s : State) : Adds types g s [] s where
  statements := ⟨[], by simp, .nil⟩
  kept hl := hl
  built hk := .inl hk
  fresh he := (List.not_mem_nil he).elim
  nodup := .nil
  payload := by simp
  stands he := (List.not_mem_nil he).elim
  complete he := (List.not_mem_nil he).elim

theorem kept_built (h : Adds types g s order s') {k : NodeId} (hk : s.Built k) : s'.Built k := by
  obtain ⟨l, hl⟩ := hk
  exact ⟨l, h.kept hl⟩

theorem stands_of_mem (h : Adds types g s order s') {e : NodeId × Role} (he : e ∈ order) : s'.Built e.1 := by
  obtain ⟨k, role⟩ := e
  cases role with
  | identity => exact h.stands he
  | payload => exact h.stands (h.payload.1 he).1

theorem trans (h : Adds types g s order s') (h' : Adds types g s' order' s'') :
    Adds types g s (order ++ order') s'' where
  statements := by
    obtain ⟨emitted, heq, hcreates⟩ := h.statements
    obtain ⟨emitted', heq', hcreates'⟩ := h'.statements
    refine ⟨emitted ++ emitted', ?_, ?_⟩
    · rw [heq', heq, List.append_assoc]
    · rw [lets_append]
      exact List.rel_append hcreates hcreates'
  kept hl := h'.kept (h.kept hl)
  built hk := by
    rw [List.mem_append]
    rcases h'.built hk with hk | hk
    · rcases h.built hk with hk | hk
      · exact .inl hk
      · exact .inr (.inl hk)
    · exact .inr (.inr hk)
  fresh he := by
    rcases List.mem_append.1 he with he | he
    · exact h.fresh he
    · exact fun hk => h'.fresh he (h.kept_built hk)
  nodup := by
    refine List.nodup_append.2 ⟨h.nodup, h'.nodup, ?_⟩
    rintro e he _ he' rfl
    exact h'.fresh he' (h.stands_of_mem he)
  payload := by
    intro k
    rw [List.mem_append, List.mem_append, h.payload, h'.payload, or_and_right]
  stands he := by
    rcases List.mem_append.1 he with he | he
    · exact h'.kept_built (h.stands he)
    · exact h'.stands he
  complete he := by
    rcases List.mem_append.1 he with he | he
    · exact (h.complete he).mono h'.kept_built
    · exact h'.complete he

/-- Statements that bind nothing do not count. -/
theorem extend (h : Adds types g s order s') {more : List Stmt}
    (hstatements : s''.statements = s'.statements ++ more) (hmore : lets more = [])
    (hbuilt : s''.built = s'.built) : Adds types g s order s'' where
  statements := by
    obtain ⟨emitted, heq, hcreates⟩ := h.statements
    refine ⟨emitted ++ more, ?_, ?_⟩
    · rw [hstatements, heq, List.append_assoc]
    · rw [lets_append, hmore, List.append_nil]
      exact hcreates
  kept hl := hbuilt ▸ h.kept hl
  built hk := by
    unfold State.Built at hk
    rw [hbuilt] at hk
    exact h.built hk
  fresh := h.fresh
  nodup := h.nodup
  payload := h.payload
  stands he := by
    unfold State.Built
    rw [hbuilt]
    exact h.stands he
  complete he := (h.complete he).mono fun hk => by
    unfold State.Built
    rw [hbuilt]
    exact hk

theorem notMem (h : Adds types g s order s') (hid : s.Built id) (role : Role) : (id, role) ∉ order :=
  fun he => h.fresh he hid

/-- A node got its local before its parts were built. -/
theorem opened {type : Ty} {value : Expr} (h : Adds types g (s.allocated id type value) order s')
    (hnew : ¬ s.Built id) (hcreates : Creates types g (id, .identity) (⟨s.nextName type, type⟩, value))
    (hpayload : ¬ HasPayload g id) (hcomplete : Complete types g s' id) :
    Adds types g s ((id, .identity) :: order) s' where
  statements := by
    obtain ⟨emitted, heq, hall⟩ := h.statements
    refine ⟨.bind (s.nextName type) type value :: emitted, ?_, .cons hcreates hall⟩
    rw [heq, State.allocated, List.append_assoc, List.singleton_append]
  kept {k l} hl := by
    apply h.kept
    rw [allocated_lookup, if_neg]
    · exact hl
    · rintro rfl
      exact hnew ⟨l, hl⟩
  built hk := by
    rcases h.built hk with hk | hk
    · rcases allocated_built.1 hk with rfl | hk
      · exact .inr List.mem_cons_self
      · exact .inl hk
    · exact .inr (List.mem_cons_of_mem _ hk)
  fresh he hk := by
    rcases List.mem_cons.1 he with rfl | he
    · exact hnew hk
    · exact h.fresh he (allocated_built.2 (.inr hk))
  nodup := List.nodup_cons.2 ⟨h.notMem (allocated_built.2 (.inl rfl)) _, h.nodup⟩
  payload := by
    intro k
    by_cases hk : k = id
    · subst hk
      simp [h.payload, hpayload]
    · simp [h.payload, hk]
  stands he := by
    rcases List.mem_cons.1 he with heq | he
    · cases heq
      exact h.kept_built (allocated_built.2 (.inl rfl))
    · exact h.stands he
  complete he := by
    rcases List.mem_cons.1 he with heq | he
    · cases heq
      exact hcomplete
    · exact h.complete he

/-- A node got its local after its parts were built. -/
theorem closed {type : Ty} {value : Expr} (h : Adds types g s order s') (hnew : ¬ s'.Built id)
    (hcreates : Creates types g (id, .identity) (⟨s'.nextName type, type⟩, value))
    (hpayload : ¬ HasPayload g id) (hcomplete : Complete types g (s'.allocated id type value) id) :
    Adds types g s (order ++ [(id, .identity)]) (s'.allocated id type value) :=
  h.trans ((refl _).opened hnew hcreates hpayload hcomplete)

/-- A wrapper got its local after the collection that it wraps, which stood for the node meanwhile. -/
theorem wrapped {type type' : Ty} {value value' : Expr}
    (h : Adds types g (s.allocated id type value) order s') (hnew : ¬ s.Built id)
    (hstatements : s''.statements = s'.statements) (hbuilt : s''.built = (s'.without id).built)
    (hcreates : Creates types g (id, .payload) (⟨s.nextName type, type⟩, value))
    (hcreates' : Creates types g (id, .identity) (⟨s''.nextName type', type'⟩, value'))
    (hpayload : HasPayload g id) (hcomplete : Complete types g (s''.allocated id type' value') id) :
    Adds types g s ((id, .payload) :: (order ++ [(id, .identity)])) (s''.allocated id type' value') := by
  have hid : (s.allocated id type value).Built id := allocated_built.2 (.inl rfl)
  have hback : ∀ {k}, k ≠ id → findValue? k s''.built = findValue? k s'.built := by
    intro k hk
    rw [hbuilt, State.without, findValue?_dropEntry_of_ne hk]
  have hstays : ∀ {k}, s'.Built k → (s''.allocated id type' value').Built k :=
    fun hk => reallocated_built hbuilt hk
  have hmem : ∀ {k}, (k, Role.identity) ∈ (id, Role.payload) :: (order ++ [(id, .identity)]) ↔
      (k, .identity) ∈ order ∨ k = id := by
    simp
  constructor
  case statements =>
    obtain ⟨emitted, heq, hall⟩ := h.statements
    refine ⟨.bind (s.nextName type) type value :: (emitted ++ [.bind (s''.nextName type') type' value']),
      ?_, ?_⟩
    · simp [State.allocated, hstatements, heq]
    · have hmore : List.Forall₂ (Creates types g) (order ++ [(id, .identity)])
          (lets (emitted ++ [.bind (s''.nextName type') type' value'])) := by
        rw [lets_append]
        exact List.rel_append hall (.cons hcreates' .nil)
      exact .cons hcreates hmore
  case kept =>
    intro k l hl
    have hk : k ≠ id := by
      rintro rfl
      exact hnew ⟨l, hl⟩
    rw [allocated_lookup, if_neg hk, hback hk]
    apply h.kept
    rw [allocated_lookup, if_neg hk]
    exact hl
  case built =>
    intro k hk
    by_cases heq : k = id
    · subst heq
      simp
    · rcases allocated_built.1 hk with rfl | ⟨l, hl⟩
      · exact absurd rfl heq
      · rw [hback heq] at hl
        rcases h.built ⟨l, hl⟩ with hk | hk
        · rcases allocated_built.1 hk with rfl | hk
          · exact absurd rfl heq
          · exact .inl hk
        · simp [hk]
  case fresh =>
    intro e he hk
    simp only [List.mem_cons, List.mem_append, List.not_mem_nil, or_false] at he
    rcases he with rfl | he | rfl
    · exact hnew hk
    · exact h.fresh he (allocated_built.2 (.inr hk))
    · exact hnew hk
  case nodup =>
    have hnot := fun role => h.notMem hid role
    refine List.nodup_cons.2 ⟨by simp [hnot], List.nodup_append.2 ⟨h.nodup, by simp, ?_⟩⟩
    rintro e he _ he' rfl
    cases List.mem_singleton.1 he'
    exact hnot _ he
  case payload =>
    intro k
    by_cases hk : k = id
    · subst hk
      simp [hpayload]
    · simp [h.payload, hk]
  case stands =>
    intro k he
    rcases hmem.1 he with he | rfl
    · exact hstays (h.stands he)
    · exact allocated_built.2 (.inl rfl)
  case complete =>
    intro k he
    rcases hmem.1 he with he | rfl
    · exact (h.complete he).mono hstays
    · exact hcomplete

end Adds

/-! ### Scope -/

/-- The statements are in scope, and so are the locals of the nodes that were built. -/
structure InOrder (s : State) : Prop where
  scope : InScope s.statements
  bound : ∀ e ∈ s.built, Bound s.statements e.2.name

theorem Adds.bound (h : Adds types g s order s') {name : String} (hname : Bound s.statements name) :
    Bound s'.statements name := by
  obtain ⟨emitted, heq, -⟩ := h.statements
  rw [heq]
  exact hname.append emitted

theorem Adds.covers (h : Adds types g s order s') {e : Expr} (he : Covers s.statements e) :
    Covers s'.statements e :=
  fun name hname => h.bound (he name hname)

theorem covers_loc {l : Local} (hs : InOrder s) (hl : findValue? id s.built = some l) :
    Covers s.statements (.loc l.name) := by
  intro name hname
  cases List.mem_singleton.1 hname
  exact hs.bound _ (mem_of_findValue? hl)

theorem covers_nextName (id : NodeId) (type : Ty) (value : Expr) :
    Bound (s.allocated id type value).statements (s.nextName type) :=
  ⟨type, value, List.mem_append_right _ (List.mem_singleton_self _)⟩

namespace InOrder

theorem start (scope : Scope) : InOrder (.start scope) where
  scope before stmt after heq := by
    cases before <;> cases heq
  bound _ he := (List.not_mem_nil he).elim

theorem allocated (hs : InOrder s) {value : Expr} (hvalue : Covers s.statements value) (id : NodeId) (type : Ty) :
    InOrder (s.allocated id type value) where
  scope := hs.scope.concat hvalue
  bound e he := by
    rcases mem_putEntry he with rfl | he
    · exact covers_nextName id type value
    · exact (hs.bound e he).append _

theorem emit (hs : InOrder s) {stmt : Stmt} (hstmt : ∀ name ∈ stmt.reads, Bound s.statements name) :
    InOrder { s with statements := s.statements ++ [stmt] } where
  scope := hs.scope.concat hstmt
  bound e he := (hs.bound e he).append _

/-- What was built may be forgotten. -/
theorem without (hs : InOrder s) (id : NodeId) : InOrder (s.without id) where
  scope := hs.scope
  bound e he := hs.bound e ((dropEntry_sublist id s.built).mem he)

end InOrder

end Reconstruction

end Reenact
