import Mathlib
import Reenact.Proofs.Bindings

/-!
How the code for a value is built, from one task to the nested ones. The tasks that a node leads to
never come back to it: it stands in a local by then, or none of its parts leads back. So a bound on
the depth that is large enough makes no difference, and what cannot be built is all that fails.
-/

namespace Reenact.Reconstruction

variable {α β : Type}

/-- The two computations do the same from the state; they succeed if all is good, and what success
leaves is as `post` says. -/
structure Runs (good : Prop) (x y : Build α) (s : State) (post : State → α → Prop) : Prop where
  agree : x s = y s
  succeeds : good → ∃ a t, x s = (.ok a, t)
  post : ∀ {a t}, x s = (.ok a, t) → post t a

namespace Runs

variable {good : Prop} {x y : Build α} {f f' : α → Build β} {s t : State} {post : State → α → Prop}
  {post' : State → β → Prop}

theorem mono {good' : Prop} {post' : State → α → Prop} (h : Runs good x y s post) (hgood : good' → good)
    (hpost : ∀ {t a}, post t a → post' t a) : Runs good' x y s post' where
  agree := h.agree
  succeeds hg := h.succeeds (hgood hg)
  post hrun := hpost (h.post hrun)

theorem pure {a : α} (hpost : post s a) : Runs good (pure a) (pure a) s post where
  agree := rfl
  succeeds _ := ⟨a, s, rfl⟩
  post hrun := by
    cases hrun
    exact hpost

theorem fail {e : GenerateError} (hbad : ¬ good) : Runs good (throw e) (throw e) s post where
  agree := rfl
  succeeds hgood := absurd hgood hbad
  post hrun := by cases hrun

theorem bind (hx : Runs good x y s post) (hf : ∀ a t, post t a → Runs good (f a) (f' a) t post') :
    Runs good (x >>= f) (y >>= f') s post' where
  agree := by
    have hagree := hx.agree
    cases hrun : x s with
    | mk r t =>
      rw [hrun] at hagree
      cases r with
      | ok a =>
        rw [Effect.bind_of_ok hrun, Effect.bind_of_ok hagree.symm]
        exact (hf a t (hx.post hrun)).agree
      | error e => rw [Effect.bind_of_error hrun, Effect.bind_of_error hagree.symm]
  succeeds hgood := by
    obtain ⟨a, t, hrun⟩ := hx.succeeds hgood
    obtain ⟨b, u, hrest⟩ := (hf a t (hx.post hrun)).succeeds hgood
    exact ⟨b, u, (Effect.bind_of_ok hrun).trans hrest⟩
  post hrun := by
    obtain ⟨a, t, hfirst, hrest⟩ := Effect.bind_ok.1 hrun
    exact (hf a t (hx.post hfirst)).post hrest

theorem done {a : α} (hx : x s = (.ok a, t)) (hpost : post t a) : Runs good x x s post where
  agree := rfl
  succeeds _ := ⟨a, t, hx⟩
  post hrun := by
    cases hx.symm.trans hrun
    exact hpost

/-- A first step that is the same in both. -/
theorem step {a : α} (hx : x s = (.ok a, t)) (hf : Runs good (f a) (f' a) t post') :
    Runs good (x >>= f) (x >>= f') s post' where
  agree := by
    rw [Effect.bind_of_ok hx, Effect.bind_of_ok hx]
    exact hf.agree
  succeeds hgood := by
    rw [Effect.bind_of_ok hx]
    exact hf.succeeds hgood
  post hrun := by
    rw [Effect.bind_of_ok hx] at hrun
    exact hf.post hrun

end Runs

/-! ### Nested tasks -/

/-- A set of a class for wrappers around lists. No adaptor builds what such a wrapper wraps. -/
def Crossed (g : Graph) (id : NodeId) : Prop :=
  ∃ declared runtime elements kind, g.get? id = some (.composite declared runtime (.set elements)) ∧
    runtime.className? = some ("collections::" ++ kind ++ "List")

variable (c : Context)

/-- Everything that the node leads to can be built. -/
structure Good (id : NodeId) : Prop where
  fallback : c.adaptors.fallback = true
  buildable : ∀ {k}, Leads c.graph.children id k → ¬ Unbuildable c.types c.graph k
  uncrossed : ∀ {k}, Leads c.graph.children id k → ¬ Crossed c.graph k

/-- The nodes that were bound are behind the parts of the node. -/
structure Progress (id : NodeId) (s : State) (order : List (NodeId × Role)) (t : State) : Prop where
  adds : Adds c.types c.graph s order t
  inOrder : InOrder t
  below : ∀ e ∈ order, ∃ part ∈ c.graph.children id, Leads c.graph.children part e.1

/-- All parts of the node can be referred to. -/
def Fills (id : NodeId) (s t : State) : Prop :=
  (∃ order, Progress c id s order t) ∧ ∀ part ∈ c.graph.children id, Settled c.graph t part

/-- The node can be referred to, by code that reads locals in scope. -/
structure Rebuilds (id : NodeId) (s t : State) (e : Expr) : Prop where
  adds : ∃ order, Adds c.types c.graph s order t ∧ ∀ e ∈ order, Leads c.graph.children id e.1
  inOrder : InOrder t
  settled : Settled c.graph t id
  covers : Covers t.statements e

/-- A state in which parts of a node are built, the building of the node having begun in `s`: nothing
that was built is forgotten, and no part comes back to the node. -/
structure Inside (id : NodeId) (s t : State) : Prop where
  inOrder : InOrder t
  kept : ∀ {k}, s.Built k → t.Built k
  barred : t.Built id ∨ ∀ part ∈ c.graph.children id, ¬ Leads c.graph.children part id

/-- The nested tasks for the parts of a node are done alike, and as they should be. -/
def BuildsParts (id : NodeId) (s : State) (build build' : Task → Build Expr) : Prop :=
  ∀ part ∈ c.graph.children id, ∀ t, Inside c id s t →
    Runs (Good c part) (build (.value part)) (build' (.value part)) t fun u e => Rebuilds c part t u e

variable {c} {id part : NodeId} {s t u : State}

theorem Good.child (h : Good c id) (hpart : part ∈ c.graph.children id) : Good c part where
  fallback := h.fallback
  buildable hk := h.buildable (.head hpart hk)
  uncrossed hk := h.uncrossed (.head hpart hk)

theorem Progress.refl (id : NodeId) (hs : InOrder s) : Progress c id s [] s where
  adds := .refl s
  inOrder := hs
  below _ he := (List.not_mem_nil he).elim

theorem Progress.trans {order order' : List (NodeId × Role)} (h : Progress c id s order t)
    (h' : Progress c id t order' u) : Progress c id s (order ++ order') u where
  adds := h.adds.trans h'.adds
  inOrder := h'.inOrder
  below e he := (List.mem_append.1 he).elim (h.below e) (h'.below e)

theorem Progress.emit {order : List (NodeId × Role)} (h : Progress c id s order t) {stmt : Stmt}
    (hbinds : lets [stmt] = []) (hreads : ∀ name ∈ stmt.reads, Bound t.statements name) :
    Progress c id s order { t with statements := t.statements ++ [stmt] } where
  adds := h.adds.extend rfl hbinds rfl
  inOrder := h.inOrder.emit hreads
  below := h.below

theorem Progress.leads {order : List (NodeId × Role)} (h : Progress c id s order t) {e : NodeId × Role}
    (he : e ∈ order) : Leads c.graph.children id e.1 := by
  obtain ⟨part, hpart, hlead⟩ := h.below e he
  exact .head hpart hlead

theorem Inside.later (h : Inside c id s t) {order : List (NodeId × Role)} (hp : Progress c id t order u) :
    Inside c id s u where
  inOrder := hp.inOrder
  kept hk := hp.adds.kept_built (h.kept hk)
  barred := h.barred.imp_left hp.adds.kept_built

theorem Rebuilds.progress {e : Expr} (h : Rebuilds c part s t e) (hpart : part ∈ c.graph.children id) :
    ∃ order, Progress c id s order t := by
  obtain ⟨order, hadds, hbelow⟩ := h.adds
  exact ⟨order, hadds, h.inOrder, fun e he => ⟨part, hpart, hbelow e he⟩⟩

/-- A node that stands in a local is referred to by its name. -/
theorem rebuilds_loc {order : List (NodeId × Role)} (hadds : Adds c.types c.graph s order t)
    (hbelow : ∀ e ∈ order, Leads c.graph.children id e.1) (ht : InOrder t) {l : Local}
    (hl : findValue? id t.built = some l) : Rebuilds c id s t (.loc l.name) where
  adds := ⟨order, hadds, hbelow⟩
  inOrder := ht
  settled := .inl ⟨l, hl⟩
  covers := covers_loc ht hl

theorem codeType_of_settled (hpart : Settled c.graph t part) :
    ∃ type, codeType c part t = (.ok type, t) := by
  cases hl : findValue? part t.built with
  | some l => exact ⟨l.type, codeType_of_built c hl⟩
  | none =>
    rcases hpart with ⟨l, hl'⟩ | ⟨n, hn, -⟩
    · cases hl.symm.trans hl'
    · obtain ⟨type, htype, -⟩ := codeType_of_node hl hn
      exact ⟨type, htype⟩

/-- Casting changes no state and reads no more. -/
theorem castTo_apply (hpart : Settled c.graph t part) (declared : Ty) (e : Expr) :
    ∃ e', castTo c part declared e t = (.ok e', t) ∧ e'.reads = e.reads := by
  by_cases hnull : e = .null
  · subst hnull
    exact ⟨.null, rfl, rfl⟩
  · obtain ⟨type, htype⟩ := codeType_of_settled hpart
    rw [castTo_of_ne_null hnull htype]
    split
    · exact ⟨e, rfl, rfl⟩
    · exact ⟨.cast e declared, rfl, rfl⟩

section

variable {build build' : Task → Build Expr} (hparts : BuildsParts c id s build build')
include hparts

theorem valueAs_runs (hpart : part ∈ c.graph.children id) (ht : Inside c id s t) (declared : Ty) :
    Runs (Good c id) (valueAs c build part declared) (valueAs c build' part declared) t
      fun u e => Rebuilds c part t u e := by
  unfold valueAs
  apply ((hparts part hpart t ht).mono (fun h => h.child hpart) fun h => h).bind
  intro e u hu
  obtain ⟨e', hcast, hreads⟩ := castTo_apply hu.settled declared e
  refine .done hcast ⟨hu.adds, hu.inOrder, hu.settled, fun name hname => hu.covers name ?_⟩
  rwa [hreads] at hname

omit hparts in
/-- A loop that builds parts of a node and reads the local `target` besides. -/
theorem loop_runs {f f' : α → Build PUnit} (parts : α → List NodeId) {target : String} {items : List α}
    (ht : Inside c id s t) (htarget : Bound t.statements target)
    (hstep : ∀ item ∈ items, ∀ t, Inside c id s t → Bound t.statements target →
      Runs (Good c id) (f item) (f' item) t fun u _ =>
        (∃ order, Progress c id t order u) ∧ ∀ part ∈ parts item, Settled c.graph u part) :
    Runs (Good c id) (items.forM f) (items.forM f') t fun u _ =>
      (∃ order, Progress c id t order u) ∧ ∀ item ∈ items, ∀ part ∈ parts item, Settled c.graph u part := by
  induction items generalizing t with
  | nil => exact .pure ⟨⟨[], .refl id ht.inOrder⟩, fun _ hitem => (List.not_mem_nil hitem).elim⟩
  | cons item rest ih =>
    apply (hstep item List.mem_cons_self t ht htarget).bind
    rintro _ u ⟨⟨order, hprogress⟩, hsettled⟩
    apply (ih (ht.later hprogress) (hprogress.adds.bound htarget) fun item hitem =>
      hstep item (List.mem_cons_of_mem _ hitem)).mono (fun h => h)
    rintro v _ ⟨⟨order', hprogress'⟩, hrest⟩
    refine ⟨⟨_, hprogress.trans hprogress'⟩, fun item' hitem part hpart => ?_⟩
    rcases List.mem_cons.1 hitem with rfl | hitem
    · exact (hsettled part hpart).mono hprogress'.adds.kept_built
    · exact hrest item' hitem part hpart

omit hparts in
theorem emit_runs {good : Prop} {order : List (NodeId × Role)} (h : Progress c id s order t) {stmt : Stmt}
    (hbinds : lets [stmt] = []) (hreads : ∀ name ∈ stmt.reads, Bound t.statements name)
    {parts : List NodeId} (hsettled : ∀ part ∈ parts, Settled c.graph t part) :
    Runs good (emit stmt) (emit stmt) t fun u _ =>
      (∃ order, Progress c id s order u) ∧ ∀ part ∈ parts, Settled c.graph u part :=
  .done rfl ⟨⟨order, h.emit hbinds hreads⟩, hsettled⟩

/-- A part is built and goes into the local `target` by a statement that reads nothing else. -/
theorem store_runs (hpart : part ∈ c.graph.children id) (ht : Inside c id s t) {target : String}
    (htarget : Bound t.statements target) (declared : Ty) {store : Expr → Stmt}
    (hbinds : ∀ e, lets [store e] = []) (hreads : ∀ e, (store e).reads = target :: e.reads) :
    Runs (Good c id) (valueAs c build part declared >>= fun e => emit (store e))
      (valueAs c build' part declared >>= fun e => emit (store e)) t fun u _ =>
        (∃ order, Progress c id t order u) ∧ ∀ part' ∈ [part], Settled c.graph u part' := by
  apply (valueAs_runs hparts hpart ht declared).bind
  intro e u hu
  obtain ⟨order, hprogress⟩ := hu.progress hpart
  apply emit_runs hprogress (hbinds e)
  · intro name hname
    rw [hreads] at hname
    rcases List.mem_cons.1 hname with rfl | hname
    · exact hprogress.adds.bound htarget
    · exact hu.covers name hname
  · simpa using hu.settled

theorem fill_runs {elements : List NodeId} (hsub : ∀ part ∈ elements, part ∈ c.graph.children id)
    (ht : Inside c id s t) {target : String} (htarget : Bound t.statements target) (method : String)
    (declared : Ty) :
    Runs (Good c id) (fill c build target method declared elements)
      (fill c build' target method declared elements) t fun u _ =>
        (∃ order, Progress c id t order u) ∧ ∀ part ∈ elements, Settled c.graph u part := by
  apply (loop_runs (fun part => [part]) ht htarget fun part hpart t ht htarget => ?_).mono (fun h => h)
    fun ⟨hprogress, hsettled⟩ => ⟨hprogress, fun part hpart => hsettled part hpart part (by simp)⟩
  apply store_runs hparts (hsub part hpart) ht htarget declared (fun _ => rfl)
  simp [Stmt.reads, Expr.invoke, Expr.reads, Expr.readsAll]

theorem fillElements_runs {elements : List NodeId}
    (hsub : ∀ part ∈ elements, part ∈ c.graph.children id) (ht : Inside c id s t) {target : String}
    (htarget : Bound t.statements target) (component : Ty) :
    Runs (Good c id) (fillElements c build target component elements)
      (fillElements c build' target component elements) t fun u _ =>
        (∃ order, Progress c id t order u) ∧ ∀ part ∈ elements, Settled c.graph u part := by
  have hmem : ∀ part ∈ elements, ∃ i, (part, i) ∈ elements.zipIdx := by
    intro part hpart
    rw [← List.zipIdx_map_fst 0 elements] at hpart
    obtain ⟨⟨_, i⟩, he, rfl⟩ := List.mem_map.1 hpart
    exact ⟨i, he⟩
  apply (loop_runs (fun e => [e.1]) ht htarget fun e he t ht htarget => ?_).mono (fun h => h)
  · rintro u _ ⟨hprogress, hsettled⟩
    refine ⟨hprogress, fun part hpart => ?_⟩
    obtain ⟨i, he⟩ := hmem part hpart
    exact hsettled _ he part (by simp)
  apply store_runs hparts (hsub e.1 (List.fst_mem_of_mem_zipIdx he)) ht htarget component (fun _ => rfl)
  simp [Stmt.reads, Expr.reads]

theorem fillEntries_runs {n : Node} {entries : List (NodeId × NodeId)}
    (hsub : ∀ e ∈ entries, e.1 ∈ c.graph.children id ∧ e.2 ∈ c.graph.children id) (ht : Inside c id s t)
    {target : String} (htarget : Bound t.statements target) :
    Runs (Good c id) (fillEntries c build target n entries) (fillEntries c build' target n entries) t
      fun u _ => (∃ order, Progress c id t order u) ∧
        ∀ e ∈ entries, ∀ part ∈ [e.1, e.2], Settled c.graph u part := by
  apply loop_runs (fun e : NodeId × NodeId => [e.1, e.2]) ht htarget
  rintro ⟨k, v⟩ he t ht htarget
  obtain ⟨hkey, hvalue⟩ := hsub _ he
  apply (valueAs_runs hparts hkey ht (n.elementType 0)).bind
  intro e u hu
  obtain ⟨order, hprogress⟩ := hu.progress hkey
  apply (valueAs_runs hparts hvalue (ht.later hprogress) (n.elementType 1)).bind
  intro e' v' hv
  obtain ⟨order', hprogress'⟩ := hv.progress hvalue
  apply emit_runs (hprogress.trans hprogress') rfl
  · intro name hname
    simp only [Stmt.reads, Expr.invoke, Expr.reads, Expr.readsAll, List.append_nil, List.mem_append,
      List.mem_singleton] at hname
    rcases hname with rfl | hname | hname
    · exact hprogress'.adds.bound (hprogress.adds.bound htarget)
    · exact hprogress'.adds.covers hu.covers name hname
    · exact hv.covers name hname
  · simpa using ⟨hu.settled.mono hprogress'.adds.kept_built, hv.settled⟩

theorem values_runs {elements : List NodeId} (hsub : ∀ part ∈ elements, part ∈ c.graph.children id)
    (ht : Inside c id s t) (component : Ty) :
    Runs (Good c id) (elements.mapM fun element => valueAs c build element component)
      (elements.mapM fun element => valueAs c build' element component) t fun u values =>
        (∃ order, Progress c id t order u) ∧ (∀ part ∈ elements, Settled c.graph u part) ∧
          values.length = elements.length ∧ ∀ e ∈ values, Covers u.statements e := by
  induction elements generalizing t with
  | nil => exact .pure ⟨⟨[], .refl id ht.inOrder⟩, by simp, rfl, by simp⟩
  | cons part rest ih =>
    have hpart := hsub part List.mem_cons_self
    rw [List.mapM_cons, List.mapM_cons]
    apply (valueAs_runs hparts hpart ht component).bind
    intro e u hu
    obtain ⟨order, hprogress⟩ := hu.progress hpart
    apply (ih (fun part hpart => hsub part (List.mem_cons_of_mem _ hpart)) (ht.later hprogress)).bind
    rintro es v ⟨⟨order', hprogress'⟩, hsettled, hlength, hcovers⟩
    refine .pure ⟨⟨_, hprogress.trans hprogress'⟩, ?_, by simp [hlength], ?_⟩
    · intro part' hpart'
      rcases List.mem_cons.1 hpart' with rfl | hpart'
      · exact hu.settled.mono hprogress'.adds.kept_built
      · exact hsettled part' hpart'
    · intro e' he'
      rcases List.mem_cons.1 he' with rfl | he'
      · exact hprogress'.adds.covers hu.covers
      · exact hcovers e' he'

end

end Reenact.Reconstruction
