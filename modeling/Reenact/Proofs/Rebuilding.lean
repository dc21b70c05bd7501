import Mathlib
import Reenact.Proofs.Assignability
import Reenact.Proofs.Simulation

/-!
Running the code that rebuilds a node gives an object that shows the node, shared and cyclic parts
included.
-/

namespace Reenact.Reconstruction

/-- The standard adaptors in the order in which they are asked. -/
def standard : SetupRegistry where
  chain := ⟨[⟨"literal", none, ⟨.kind .literal, .literal⟩⟩,
    ⟨"null", none, ⟨.kind .null, .null⟩⟩,
    ⟨"enum", none, ⟨.kind .enum, .constant⟩⟩,
    ⟨"array", none, ⟨.kind .array, .array⟩⟩,
    ⟨"collections-list", some "list", ⟨.wrapper "List", .wrapper "List" "list"⟩⟩,
    ⟨"list", none, ⟨.kind .list, .list⟩⟩,
    ⟨"collections-set", some "set", ⟨.wrapper "Set", .wrapper "Set" "set"⟩⟩,
    ⟨"set", none, ⟨.kind .set, .set⟩⟩,
    ⟨"map", none, ⟨.kind .map, .map⟩⟩]⟩
  fallback := true

theorem build_standard : Registry.build [] standardSetupAdaptors true = .ok standard := by
  rfl

variable {types : ClassTable} {g : Graph} {region : NodeId → Prop} {busy : ObjectId → Prop}
  {s : State} {m : Machine}

/-- The code yields a value that shows the node. -/
def Renders (types : ClassTable) (g : Graph) (id : NodeId) (s : State) (m : Machine) (e : Expr) :
    Prop :=
  ∃ w, Shows g (At s m) w id ∧ Evaluate.Yields (.bare types) m e w

theorem Renders.mono {s' : State} {m' : Machine} {id : NodeId} {e : Expr}
    (he : Renders types g id s m e) (h : Grows types g region busy s m s' m') :
    Renders types g id s' m' e := by
  obtain ⟨w, hw, hyields⟩ := he
  exact ⟨w, h.shows hw, hyields.mono h.keeps⟩

/-! ### Casts -/

/-- A literal fits a slot of its kind without a cast. -/
theorem isAssignable_literal (types : ClassTable) {l : Literal} {type declared : Ty}
    {kind : Primitive} (htype : l.HasType type) (hl : l.kind? = some kind)
    (hdeclared : declared.unboxed? = some kind) : types.isAssignable type declared = true := by
  have hbox : types.isSubclass kind.boxedName kind.boxedName = true := ClassTable.isSubclass_iff.2 (.inl rfl)
  have hcases : type = .boxed kind ∨ type = .primitive kind := by
    rcases htype with rfl | ⟨k, rfl, hk⟩
    · exact .inl (by simp [Literal.naturalType, hl])
    · cases hl.symm.trans hk
      exact .inr rfl
  apply ClassTable.isAssignable_of_fits
  rcases hcases with rfl | rfl <;> rcases Ty.unboxed?_eq_some.1 hdeclared with rfl | rfl
  · exact .unbox kind
  · exact .same _
  · exact .same _
  · exact .box hbox

variable (types g) in
/-- The state of a generator that rebuilds a graph by the standard adaptors. -/
abbrev context : Context := ⟨g, types, standard⟩

theorem node_apply {c : Context} {id : NodeId} {n : Node} (hn : c.graph.get? id = some n) :
    node c id s = (.ok n, s) := by
  simp only [node, Graph.node, hn]
  rfl

theorem codeType_of_built (c : Context) {id : NodeId} {l : Local}
    (hl : findValue? id s.built = some l) : codeType c id s = (.ok l.type, s) := by
  unfold codeType
  rw [Effect.bind_of_ok (Effect.get_apply s), hl]
  rfl

theorem codeType_of_node {c : Context} {id : NodeId} {n : Node}
    (hnone : findValue? id s.built = none) (hn : c.graph.get? id = some n) :
    ∃ t, codeType c id s = (.ok t, s) ∧ ∀ type l, n = .atom (.literal type l) → t = type := by
  unfold codeType
  rw [Effect.bind_of_ok (Effect.get_apply s), hnone]
  simp only
  rw [Effect.bind_of_ok (node_apply hn)]
  cases n with
  | constant declared runtime name => exact ⟨runtime.erasure, rfl, by simp⟩
  | atom a => exact ⟨a.type, rfl, by rintro type l h; cases h; rfl⟩
  | composite declared runtime content => exact ⟨runtime, rfl, by simp⟩

theorem castTo_of_ne_null {c : Context} {id : NodeId} {declared : Ty} {e : Expr} {t : Ty}
    (he : e ≠ .null) (ht : codeType c id s = (.ok t, s)) :
    castTo c id declared e s =
      (.ok (if c.types.isAssignable t declared then e else .cast e declared), s) := by
  unfold castTo
  split
  · exact absurd rfl he
  · rw [Effect.bind_of_ok ht]
    split <;> rfl

/-- Casting changes nothing: where a slot is typed it holds what fits, and elsewhere every value may
be stored. -/
theorem castTo_simulated {id : NodeId} {declared : Ty} {e : Expr} {n : Node} (hready : Ready g s m)
    (hn : g.get? id = some n) (hsound : n.Sound g types) (hfits : g.fits declared id)
    (he : Renders types g id s m e) :
    Simulated types g region busy s m (castTo (context types g) id declared e)
      (Renders types g id) := by
  intro e' s' hrun
  suffices h : s' = s ∧ Renders types g id s m e' by
    obtain ⟨rfl, he'⟩ := h
    exact ⟨[], m, by simp, rfl, hready, .refl s' m, he'⟩
  obtain ⟨t, htype, hliteral⟩ : ∃ t, codeType (context types g) id s = (.ok t, s) ∧
      ∀ type l, n = .atom (.literal type l) → t = type := by
    cases hl : findValue? id s.built with
    | none => exact codeType_of_node hl hn
    | some l =>
      obtain ⟨_, _, _, hcomp⟩ := hready.composite hl
      refine ⟨l.type, codeType_of_built _ hl, fun type l hlit => ?_⟩
      rw [hn, hlit] at hcomp
      cases hcomp
  by_cases hnull : e = .null
  · subst hnull
    cases hrun
    exact ⟨rfl, he⟩
  · rw [castTo_of_ne_null hnull htype] at hrun
    by_cases hassign : types.isAssignable t declared = true
    · rw [if_pos hassign] at hrun
      cases hrun
      exact ⟨rfl, he⟩
    · rw [if_neg hassign] at hrun
      cases hrun
      obtain ⟨w, hw, hyields⟩ := he
      refine ⟨rfl, w, hw, Evaluate.yields_cast hyields ?_⟩
      cases hkind : declared.unboxed? with
      | none => simp [Convert.value, hkind]
      | some kind =>
        rw [Graph.fits, hkind, hn] at hfits
        split at hfits
        · next heq => cases heq
        · next k type l hk hlit =>
          cases hk
          cases hlit
          rw [hliteral type l rfl] at hassign
          exact absurd (isAssignable_literal types hsound (by simpa using hfits) hkind) hassign
        · next k type hk hlit =>
          cases hlit
          cases hw with
          | null => simp [Convert.value, hkind]
          | scalar hm => cases hn.symm.trans hm
          | constant hm => cases hn.symm.trans hm
          | object ha =>
            obtain ⟨l', hl', _⟩ := ha
            obtain ⟨_, _, _, hcomp⟩ := hready.composite hl'
            cases hn.symm.trans hcomp
        · cases hfits

/-! ### Allocation -/

/-- The name of the next local of a type. -/
def State.nextName (s : State) (type : Ty) : String := (s.scope.names.fresh type.localStem).2

/-- The state in which a node stands in a new local. -/
def State.allocated (s : State) (id : NodeId) (type : Ty) (value : Expr) : State where
  scope := { s.scope with names := (s.scope.names.fresh type.localStem).1 }
  statements := s.statements ++ [.bind (s.nextName type) type value]
  built := putEntry id ⟨s.nextName type, type⟩ s.built

theorem allocate_apply (id : NodeId) (type : Ty) (value : Expr) (s : State) :
    allocate id type value s = (.ok (s.nextName type), s.allocated id type value) := rfl

/-- A new local holds a new object, which stands for the node and is not complete yet. -/
structure Opened (g : Graph) (s : State) (m : Machine) (id : NodeId) (class_ : Ty) (body : Body)
    (name : String) (s' : State) (m' : Machine) : Prop where
  ready : Ready g s' m'
  keeps : m.Keeps m'
  built : ∀ {n l}, findValue? n s.built = some l → findValue? n s'.built = some l
  heap : m'.heap = (m.heap.alloc class_ body).1
  stands : findValue? name m'.locals = some (.live (.object m.heap.size))
  at_iff : ∀ {a n}, At s' m' a n ↔ At s m a n ∨ a = m.heap.size ∧ n = id

theorem Opened.get? {id : NodeId} {class_ : Ty} {body : Body} {name : String} {s' : State}
    {m' : Machine} (h : Opened g s m id class_ body name s' m') :
    m'.heap.get? m.heap.size = some ⟨class_, body, false⟩ := by
  rw [h.heap]
  exact Heap.get?_alloc_self _ _

theorem nextName_free (hready : Ready g s m) {type : Ty} (hstem : Unnumbered type.localStem) :
    findValue? (s.nextName type) m.locals = none :=
  hready.free.fresh hstem

private theorem bound_lt (hready : Ready g s m) {a : ObjectId} {n : NodeId} (ha : At s m a n) :
    a < m.heap.size := by
  obtain ⟨l, hl, hla⟩ := ha
  obtain ⟨b, hlb, hlt⟩ := hready.bound hl
  cases hla.symm.trans hlb
  exact hlt

theorem opened {id : NodeId} {type : Ty} (class_ : Ty) (body : Body) (value : Expr)
    {declared runtime : Ty} {content : Content} (hready : Ready g s m) (hnew : findValue? id s.built = none)
    (hn : g.get? id = some (.composite declared runtime content))
    (hstem : Unnumbered type.localStem) :
    Opened g s m id class_ body (s.nextName type) (s.allocated id type value)
      ({ m with heap := (m.heap.alloc class_ body).1 }.bindLocal (s.nextName type)
        (.live (.object m.heap.size))) := by
  have hfree := nextName_free hready hstem
  have hname : ∀ {n l}, findValue? n s.built = some l → l.name ≠ s.nextName type := by
    intro n l hl heq
    obtain ⟨a, hla, _⟩ := hready.bound hl
    rw [heq, hfree] at hla
    cases hla
  have hbuilt : ∀ n, findValue? n (s.allocated id type value).built =
      if n = id then some ⟨s.nextName type, type⟩ else findValue? n s.built := fun n =>
    findValue?_putEntry id n _ s.built
  have hlocals : ∀ other, findValue? other
      ({ m with heap := (m.heap.alloc class_ body).1 }.bindLocal (s.nextName type)
        (.live (.object m.heap.size))).locals =
      if other = s.nextName type then some (.live (.object m.heap.size))
      else findValue? other m.locals := fun other =>
    findValue?_putEntry (s.nextName type) other _ m.locals
  have hat : ∀ {a n}, At (s.allocated id type value)
      ({ m with heap := (m.heap.alloc class_ body).1 }.bindLocal (s.nextName type)
        (.live (.object m.heap.size))) a n ↔ At s m a n ∨ a = m.heap.size ∧ n = id := by
    intro a n
    unfold At
    simp only [hbuilt, hlocals]
    by_cases hid : n = id
    · subst hid
      simp [hnew, eq_comm]
    · simp only [hid, if_false, and_false, or_false]
      refine exists_congr fun l => and_congr_right fun hl => ?_
      rw [if_neg (hname hl)]
  have hsize : ({ m with heap := (m.heap.alloc class_ body).1 }.bindLocal (s.nextName type)
      (.live (.object m.heap.size))).heap.size = m.heap.size + 1 := Heap.size_alloc _ _
  have hready' : Ready g (s.allocated id type value)
      ({ m with heap := (m.heap.alloc class_ body).1 }.bindLocal (s.nextName type)
        (.live (.object m.heap.size))) := by
    constructor
    case bound =>
      intro n l hl
      rw [hbuilt] at hl
      split at hl
      · cases hl
        exact ⟨m.heap.size, by rw [hlocals, if_pos rfl], hsize ▸ Nat.lt_succ_self _⟩
      · obtain ⟨a, hla, hlt⟩ := hready.bound hl
        exact ⟨a, by rw [hlocals, if_neg (hname hl)]; exact hla, hsize ▸ Nat.lt_succ_of_lt hlt⟩
    case composite =>
      intro n l hl
      rw [hbuilt] at hl
      split at hl
      · next hid => exact ⟨declared, runtime, content, hid ▸ hn⟩
      · exact hready.composite hl
    case injective =>
      intro a n n' ha ha'
      rcases hat.1 ha with hold | ⟨rfl, rfl⟩
      · rcases hat.1 ha' with hold' | ⟨rfl, rfl⟩
        · exact hready.injective hold hold'
        · exact absurd (bound_lt hready hold) (Nat.lt_irrefl _)
      · rcases hat.1 ha' with hold' | ⟨_, rfl⟩
        · exact absurd (bound_lt hready hold') (Nat.lt_irrefl _)
        · rfl
    case free => exact hready.free.bindLocal hstem _
    case numbered =>
      intro name hname
      rw [hlocals, if_neg, hready.numbered hname]
      rintro rfl
      exact numbered_ne _ hname rfl
    case keys => exact nodup_putEntry hready.keys
  constructor
  case ready => exact hready'
  case keeps => exact @Machine.keeps_bindLocal { m with heap := (m.heap.alloc class_ body).1 } _ _ hfree
  case built =>
    intro n l hl
    rw [hbuilt, if_neg]
    · exact hl
    · rintro rfl
      cases hnew.symm.trans hl
  case heap => rfl
  case stands => rw [hlocals, if_pos rfl]
  case at_iff => exact hat

variable {α : Type}

/-- What is done with a new object that stands for a node only has to complete it. -/
theorem allocate_simulated {id : NodeId} {type class_ : Ty} {body : Body} {value : Expr}
    {declared runtime : Ty} {content : Content} {k : String → Build α}
    {post : State → Machine → α → Prop} (hready : Ready g s m)
    (hnew : findValue? id s.built = none)
    (hn : g.get? id = some (.composite declared runtime content))
    (hstem : Unnumbered type.localStem) (hregion : region id)
    (hvalue : Evaluate.expr (.bare types) value m =
      (.ok (.live (.object m.heap.size)), { m with heap := (m.heap.alloc class_ body).1 }))
    (hk : ∀ name s' m', Opened g s m id class_ body name s' m' →
      Simulated types g region (· = m.heap.size) s' m' (k name) fun s'' m'' a =>
        Rebuilt types g m''.heap (At s'' m'') m.heap.size id ∧ post s'' m'' a) :
    Simulated types g region idle s m (allocate id type value >>= k) post := by
  intro a s'' hrun
  have hopen := opened class_ body value hready hnew hn hstem
  rw [Effect.bind_of_ok (allocate_apply id type value s)] at hrun
  obtain ⟨rest, m'', hrest, hrunr, hready', hgrows, hbuilt, hpost⟩ := hk _ _ _ hopen a s'' hrun
  refine ⟨.bind (s.nextName type) type value :: rest, m'', ?_, ?_, hready', ?_, hpost⟩
  · rw [hrest]
    simp [State.allocated]
  · exact (Evaluate.run_cons (Evaluate.stmt_bind hvalue)).trans hrunr
  · have hheap := hopen.heap
    refine ⟨hopen.keeps.trans hgrows.keeps, fun hl => hgrows.built (hopen.built hl), ?_, ?_, ?_⟩
    · refine Nat.le_trans ?_ hgrows.size_le
      rw [hheap, Heap.size_alloc]
      exact Nat.le_succ _
    · intro b o _ ho
      refine hgrows.object (Nat.ne_of_lt (Heap.lt_size ho)) ?_
      rw [hheap]
      exact Heap.get?_alloc_of_get? _ _ ho
    · intro b n hb
      rcases hgrows.new hb with hb | ⟨hle, hn, hb⟩
      · rcases hopen.at_iff.1 hb with hb | ⟨rfl, rfl⟩
        · exact .inl hb
        · exact .inr ⟨le_rfl, hregion, hbuilt⟩
      · rw [hheap, Heap.size_alloc] at hle
        exact .inr ⟨Nat.le_of_succ_le hle, hn, hb⟩

/-- Storing into the object being filled. -/
theorem emit_simulated {st : Stmt} {a : ObjectId} {body : Body} (hready : Ready g s m)
    (hrun : Evaluate.stmt (.bare types) st m =
      (.ok ⟨⟩, { m with heap := m.heap.setBody a body })) :
    Simulated types g region (· = a) s m (emit st) fun s' m' _ =>
      m'.heap = m.heap.setBody a body ∧ ∀ {v n}, Shows g (At s m) v n → Shows g (At s' m') v n := by
  intro u s' hx
  cases hx
  refine ⟨[st], _, rfl, Evaluate.run_singleton hrun, ⟨?_, hready.composite, hready.injective,
    hready.free, hready.numbered, hready.keys⟩, ⟨.refl _, fun hl => hl, ?_, ?_, fun hb => .inl hb⟩, rfl, fun hv => hv⟩
  · intro n l hl
    obtain ⟨b, hlb, hlt⟩ := hready.bound hl
    exact ⟨b, hlb, hlt.trans_eq (Heap.size_setBody body).symm⟩
  · exact (Heap.size_setBody body).ge
  · intro b o' hne ho'
    exact (Heap.get?_setBody_of_ne body hne).trans ho'

/-! ### Parts -/

/-- Nested tasks rebuild values. -/
def BuildsValues (types : ClassTable) (g : Graph) (build : Task → Build Expr) : Prop :=
  ∀ {part s m}, Ready g s m → g.Sound types part →
    Simulated types g (Leads g.children part) idle s m (build (.value part)) (Renders types g part)

section

variable {build : Task → Build Expr} (hbuild : BuildsValues types g build)
include hbuild

theorem valueAs_simulated {part : NodeId} {declared : Ty} (hready : Ready g s m)
    (hsound : g.Sound types part) (hfits : g.fits declared part)
    (hregion : ∀ n, Leads g.children part n → region n) :
    Simulated types g region idle s m (valueAs (context types g) build part declared)
      (Renders types g part) := by
  obtain ⟨n, hn, hnode⟩ := hsound part .refl
  refine ((hbuild hready hsound).mono hregion (fun _ h => h) fun _ _ _ h => h).bind
    (fun _ h => h) (fun _ h => h.elim) ?_
  intro e s' m' hready' _ he
  exact castTo_simulated hready' hn hnode hfits he

omit hbuild in
/-- Nodes that one value shows stand for the same. -/
theorem alike_of_shows (hready : Ready g s m) {w : Value} {n n' : NodeId}
    (hn : Shows g (At s m) w n) (hn' : Shows g (At s m) w n') : g.Alike n n' := by
  rcases shows_cases hn with ⟨p, rfl, hp⟩ | ⟨a, rfl, ha⟩
  · rcases shows_cases hn' with ⟨q, heq, hq⟩ | ⟨a, heq, _⟩
    · have hpq : p = q := by cases p <;> cases q <;> simp_all [Plain.value]
      exact .inr ⟨p, hp, hpq ▸ hq⟩
    · cases p <;> cases heq
  · rcases shows_cases hn' with ⟨q, heq, _⟩ | ⟨b, heq, hb⟩
    · cases q <;> cases heq
    · cases heq
      exact .inl (hready.injective ha hb)

omit hbuild in
private theorem notMem_of_pairwise (hready : Ready g s m) {parts done rest : List NodeId}
    {part : NodeId} (hparts : parts = done ++ part :: rest)
    (hdistinct : parts.Pairwise fun n n' => ¬ g.Alike n n') {ws : List Value} {w : Value}
    (hws : List.Forall₂ (Shows g (At s m)) ws done) (hw : Shows g (At s m) w part) : w ∉ ws := by
  intro hmem
  obtain ⟨n, hn, hshow⟩ := forall₂_mem_left hws hmem
  rw [hparts, List.pairwise_append] at hdistinct
  exact hdistinct.2.2 n hn part (by simp) (alike_of_shows hready hshow hw)

/-- Adding the elements of a list or a set one by one. -/
theorem fill_simulated {target : String} {a : ObjectId} {class_ declared : Ty}
    {mk : List Value → Body} {parts : List NodeId} (hready : Ready g s m)
    (ha : m.heap.get? a = some ⟨class_, mk [], false⟩)
    (htarget : findValue? target m.locals = some (.live (.object a)))
    (hmk : mk = Body.list ∨ mk = Body.set ∧ parts.Pairwise fun n n' => ¬ g.Alike n n')
    (hsound : ∀ p ∈ parts, g.Sound types p) (hfits : ∀ p ∈ parts, g.fits declared p)
    (hregion : ∀ p ∈ parts, ∀ n, Leads g.children p n → region n) :
    Simulated types g region (· = a) s m (fill (context types g) build target "add" declared parts)
      fun s' m' _ => ∃ ws, m'.heap.get? a = some ⟨class_, mk ws, false⟩ ∧
        List.Forall₂ (Shows g (At s' m')) ws parts := by
  have hbusy : ∀ b, b = a → b < m.heap.size := fun b hb => hb ▸ Heap.lt_size ha
  refine Simulated.forM (fun done s' m' => ∃ ws, m'.heap.get? a = some ⟨class_, mk ws, false⟩ ∧
    List.Forall₂ (Shows g (At s' m')) ws done) parts hbusy hready ⟨[], ha, .nil⟩ ?_
  rintro done part rest hparts s₁ m₁ hready₁ hgrows₁ ⟨ws, hget, hws⟩
  have hmem : part ∈ parts := by rw [hparts]; simp
  have hbusy₁ : ∀ b, b = a → b < m₁.heap.size := fun b hb => (hbusy b hb).trans_le hgrows₁.size_le
  refine (valueAs_simulated hbuild hready₁ (hsound part hmem) (hfits part hmem)
    (hregion part hmem)).bind (fun _ h => h.elim) hbusy₁ ?_
  rintro e s₂ m₂ hready₂ hgrows₂ ⟨w, hw, hyields⟩
  have hget₂ := hgrows₂.object (fun h => h.elim) hget
  have hws₂ := hws.imp fun _ _ => hgrows₂.shows
  have hpush : (m₂.heap.push a w).1 = m₂.heap.setBody a (mk (ws ++ [w])) := by
    rcases hmk with rfl | ⟨rfl, hdistinct⟩
    · rw [Heap.push_list hget₂ rfl]
    · rw [Heap.push_set hget₂ rfl (notMem_of_pairwise hready₂ hparts hdistinct hws₂ hw)]
  have hloc : Evaluate.Yields (.bare types) m₂ (.loc target) (.object a) :=
    Evaluate.yields_loc (hgrows₂.keeps _ _ (hgrows₁.keeps _ _ htarget))
  have hrun := Evaluate.stmt_add hloc hget₂ hyields
  rw [hpush] at hrun
  refine (emit_simulated hready₂ hrun).mono (fun _ h => h) (fun _ h => h) ?_
  rintro s₃ m₃ _ ⟨hheap, hshows⟩
  refine ⟨ws ++ [w], by rw [hheap, Heap.get?_setBody _ hget₂], ?_⟩
  exact List.rel_append (hws₂.imp fun _ _ => hshows) (.cons (hshows hw) .nil)

theorem fillEntries_simulated {target : String} {a : ObjectId} {class_ : Ty} {n : Node}
    {entries : List (NodeId × NodeId)} (hready : Ready g s m)
    (ha : m.heap.get? a = some ⟨class_, .map [], false⟩)
    (htarget : findValue? target m.locals = some (.live (.object a)))
    (hdistinct : (entries.map (·.1)).Pairwise fun n n' => ¬ g.Alike n n')
    (hsound : ∀ e ∈ entries, g.Sound types e.1 ∧ g.Sound types e.2)
    (hfits : ∀ e ∈ entries, g.fits (n.elementType 0) e.1 ∧ g.fits (n.elementType 1) e.2)
    (hregion : ∀ e ∈ entries, ∀ p ∈ [e.1, e.2], ∀ n, Leads g.children p n → region n) :
    Simulated types g region (· = a) s m (fillEntries (context types g) build target n entries)
      fun s' m' _ => ∃ ws, m'.heap.get? a = some ⟨class_, .map ws, false⟩ ∧
        List.Forall₂ (fun w e => Shows g (At s' m') w.1 e.1 ∧ Shows g (At s' m') w.2 e.2) ws entries := by
  have hbusy : ∀ b, b = a → b < m.heap.size := fun b hb => hb ▸ Heap.lt_size ha
  refine Simulated.forM (fun done s' m' => ∃ ws, m'.heap.get? a = some ⟨class_, .map ws, false⟩ ∧
    List.Forall₂ (fun w e => Shows g (At s' m') w.1 e.1 ∧ Shows g (At s' m') w.2 e.2) ws done)
    entries hbusy hready ⟨[], ha, .nil⟩ ?_
  rintro done ⟨key, value⟩ rest hparts s₁ m₁ hready₁ hgrows₁ ⟨ws, hget, hws⟩
  have hmem : (key, value) ∈ entries := by rw [hparts]; simp
  have hbusy₁ : ∀ b, b = a → b < m₁.heap.size := fun b hb => (hbusy b hb).trans_le hgrows₁.size_le
  refine (valueAs_simulated hbuild hready₁ (hsound _ hmem).1 (hfits _ hmem).1
    (hregion _ hmem key (by simp))).bind (fun _ h => h.elim) hbusy₁ ?_
  rintro ke s₂ m₂ hready₂ hgrows₂ ⟨k, hk, hkyields⟩
  have hbusy₂ : ∀ b, b = a → b < m₂.heap.size := fun b hb => (hbusy₁ b hb).trans_le hgrows₂.size_le
  refine (valueAs_simulated hbuild hready₂ (hsound _ hmem).2 (hfits _ hmem).2
    (hregion _ hmem value (by simp))).bind (fun _ h => h.elim) hbusy₂ ?_
  rintro ve s₃ m₃ hready₃ hgrows₃ ⟨v, hv, hvyields⟩
  have hget₃ := hgrows₃.object (fun h => h.elim) (hgrows₂.object (fun h => h.elim) hget)
  have hk₃ := hgrows₃.shows hk
  have hws₃ := hws.imp fun _ _ (h : _ ∧ _) =>
    And.intro (hgrows₃.shows (hgrows₂.shows h.1)) (hgrows₃.shows (hgrows₂.shows h.2))
  have hkeys : List.Forall₂ (Shows g (At s₃ m₃)) (ws.map (·.1)) (done.map (·.1)) :=
    List.forall₂_map_left_iff.2 (List.forall₂_map_right_iff.2 (hws₃.imp fun _ _ => And.left))
  have hput : (m₃.heap.put a k v).1 = m₃.heap.setBody a (.map (ws ++ [(k, v)])) := by
    rw [Heap.put_map hget₃ rfl, putEntry_of_notMem]
    exact notMem_of_pairwise hready₃ (by rw [hparts, List.map_append, List.map_cons]) hdistinct
      hkeys hk₃
  have hloc : Evaluate.Yields (.bare types) m₃ (.loc target) (.object a) :=
    Evaluate.yields_loc (hgrows₃.keeps _ _ (hgrows₂.keeps _ _ (hgrows₁.keeps _ _ htarget)))
  have hrun := Evaluate.stmt_put hloc hget₃ (hkyields.mono hgrows₃.keeps) hvyields
  rw [hput] at hrun
  refine (emit_simulated hready₃ hrun).mono (fun _ h => h) (fun _ h => h) ?_
  rintro s₄ m₄ _ ⟨hheap, hshows⟩
  refine ⟨ws ++ [(k, v)], by rw [hheap, Heap.get?_setBody _ hget₃], ?_⟩
  exact List.rel_append (hws₃.imp fun _ _ h => ⟨hshows h.1, hshows h.2⟩)
    (.cons ⟨hshows hk₃, hshows hv⟩ .nil)

theorem fillElements_simulated {target : String} {a : ObjectId} {class_ component : Ty}
    {elements : List NodeId} {blanks : List Value} (hready : Ready g s m)
    (ha : m.heap.get? a = some ⟨class_, .array blanks, false⟩)
    (htarget : findValue? target m.locals = some (.live (.object a)))
    (hlen : blanks.length = elements.length)
    (hsound : ∀ p ∈ elements, g.Sound types p) (hfits : ∀ p ∈ elements, g.fits component p)
    (hregion : ∀ p ∈ elements, ∀ n, Leads g.children p n → region n) :
    Simulated types g region (· = a) s m
      (fillElements (context types g) build target component elements)
      fun s' m' _ => ∃ ws, m'.heap.get? a = some ⟨class_, .array ws, false⟩ ∧
        List.Forall₂ (Shows g (At s' m')) ws elements := by
  have hbusy : ∀ b, b = a → b < m.heap.size := fun b hb => hb ▸ Heap.lt_size ha
  have hinit : ∃ ws, m.heap.get? a = some ⟨class_, .array (ws ++ blanks.drop ws.length), false⟩ ∧
      List.Forall₂ (Shows g (At s m)) ws [] := ⟨[], ha, .nil⟩
  refine (Simulated.forM (fun done s' m' => ∃ ws,
    m'.heap.get? a = some ⟨class_, .array (ws ++ blanks.drop ws.length), false⟩ ∧
      List.Forall₂ (Shows g (At s' m')) ws (done.map (·.1))) elements.zipIdx hbusy hready hinit
      ?_).mono (fun _ h => h) (fun _ h => h) ?_
  · rintro done ⟨part, i⟩ rest hparts s₁ m₁ hready₁ hgrows₁ ⟨ws, hget, hws⟩
    have hsplit : elements = done.map (·.1) ++ part :: rest.map (·.1) := by
      have := congrArg (List.map (·.1)) hparts
      simpa using this
    have hi : i = ws.length := by
      have hat := congrArg (fun es => (es[done.length]?).map (·.2)) hparts
      have hlt : done.length < elements.length := by
        rw [hsplit]
        simp
      simp [hlt] at hat
      rw [← hat, hws.length_eq, List.length_map]
    have hmem : part ∈ elements := by rw [hsplit]; simp
    have hlt : ws.length < blanks.length := by
      rw [hlen, hsplit, hws.length_eq]
      simp
    have hbusy₁ : ∀ b, b = a → b < m₁.heap.size := fun b hb => (hbusy b hb).trans_le hgrows₁.size_le
    refine (valueAs_simulated hbuild hready₁ (hsound part hmem) (hfits part hmem)
      (hregion part hmem)).bind (fun _ h => h.elim) hbusy₁ ?_
    rintro e s₂ m₂ hready₂ hgrows₂ ⟨w, hw, hyields⟩
    have hget₂ := hgrows₂.object (fun h => h.elim) hget
    have hloc : Evaluate.Yields (.bare types) m₂ (.loc target) (.object a) :=
      Evaluate.yields_loc (hgrows₂.keeps _ _ (hgrows₁.keeps _ _ htarget))
    have hset : (ws ++ blanks.drop ws.length).set i w =
        (ws ++ [w]) ++ blanks.drop (ws ++ [w]).length := by
      rw [hi, List.set_append_right _ _ le_rfl, Nat.sub_self, List.drop_eq_getElem_cons hlt,
        List.set_cons_zero, List.length_append, List.length_singleton, List.append_assoc,
        List.singleton_append]
    have hrun := Evaluate.stmt_assign_index (i := i) hloc hget₂ rfl (by simp; omega) hyields
    rw [hset] at hrun
    refine (emit_simulated hready₂ hrun).mono (fun _ h => h) (fun _ h => h) ?_
    rintro s₃ m₃ _ ⟨hheap, hshows⟩
    refine ⟨ws ++ [w], by rw [hheap, Heap.get?_setBody _ hget₂], ?_⟩
    rw [List.map_append]
    exact List.rel_append ((hws.imp fun _ _ => hgrows₂.shows).imp fun _ _ => hshows)
      (.cons (hshows hw) .nil)
  · rintro s' m' _ ⟨ws, hget, hws⟩
    rw [List.zipIdx_map_fst] at hws
    refine ⟨ws, ?_, hws⟩
    rw [hget, List.drop_of_length_le (by rw [hlen, hws.length_eq]), List.append_nil]

theorem storeFields_simulated {target : String} {a : ObjectId} {class_ : Ty}
    {base : List (String × Value)} {fields : List NodeField} (hready : Ready g s m)
    (ha : m.heap.get? a = some ⟨class_, .fields base, false⟩)
    (htarget : findValue? target m.locals = some (.live (.object a)))
    (hsound : ∀ f ∈ fields, g.Sound types f.value) (hfits : ∀ f ∈ fields, g.fits f.type f.value)
    (hregion : ∀ f ∈ fields, ∀ n, Leads g.children f.value n → region n) :
    Simulated types g region (· = a) s m
      (fields.forM fun f => do
        let value ← valueAs (context types g) build f.value f.type
        emit (.assign (.field (.loc target) f.name) value))
      fun s' m' _ => ∃ pairs : List (String × Value), m'.heap.get? a =
          some ⟨class_, .fields (putAll base pairs), false⟩ ∧
        List.Forall₂ (fun p f => p.1 = f.name ∧ Shows g (At s' m') p.2 f.value) pairs fields := by
  have hbusy : ∀ b, b = a → b < m.heap.size := fun b hb => hb ▸ Heap.lt_size ha
  refine Simulated.forM (fun done s' m' => ∃ pairs : List (String × Value), m'.heap.get? a =
      some ⟨class_, .fields (putAll base pairs), false⟩ ∧
    List.Forall₂ (fun p f => p.1 = f.name ∧ Shows g (At s' m') p.2 f.value) pairs done)
    fields hbusy hready ⟨[], ha, .nil⟩ ?_
  rintro done f rest hparts s₁ m₁ hready₁ hgrows₁ ⟨pairs, hget, hpairs⟩
  have hmem : f ∈ fields := by rw [hparts]; simp
  have hbusy₁ : ∀ b, b = a → b < m₁.heap.size := fun b hb => (hbusy b hb).trans_le hgrows₁.size_le
  refine (valueAs_simulated hbuild hready₁ (hsound f hmem) (hfits f hmem)
    (hregion f hmem)).bind (fun _ h => h.elim) hbusy₁ ?_
  rintro e s₂ m₂ hready₂ hgrows₂ ⟨w, hw, hyields⟩
  have hget₂ := hgrows₂.object (fun h => h.elim) hget
  have hloc : Evaluate.Yields (.bare types) m₂ (.loc target) (.object a) :=
    Evaluate.yields_loc (hgrows₂.keeps _ _ (hgrows₁.keeps _ _ htarget))
  have hrun := Evaluate.stmt_assign_field f.name hloc hget₂ rfl hyields
  refine (emit_simulated hready₂ hrun).mono (fun _ h => h) (fun _ h => h) ?_
  rintro s₃ m₃ _ ⟨hheap, hshows⟩
  refine ⟨pairs ++ [(f.name, w)], ?_, ?_⟩
  · rw [hheap, Heap.get?_setBody _ hget₂, putAll, putAll, List.foldl_append]
    rfl
  · exact List.rel_append (hpairs.imp fun _ _ h => ⟨h.1, hshows (hgrows₂.shows h.2)⟩)
      (.cons ⟨rfl, hshows hw⟩ .nil)

end

end Reenact.Reconstruction
