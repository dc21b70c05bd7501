import Mathlib
import Reenact.Generate.Reconstruction
import Reenact.Proofs.Evaluation
import Reenact.Proofs.Isomorphism
import Reenact.Proofs.Reachability
import Reenact.Proofs.WellFormed

/-!
Generating code and running it side by side. What was built for a node is a local that the machine
holds an object in; the statements emitted by a step take the machine to where this holds again.
-/

namespace Reenact.Reconstruction

/-- The object at an address stands for the node. -/
def At (s : State) (m : Machine) (a : ObjectId) (n : NodeId) : Prop :=
  ∃ l, findValue? n s.built = some l ∧ findValue? l.name m.locals = some (.live (.object a))

/-- The object has the class and the slots of the node. -/
def Rebuilt (types : ClassTable) (g : Graph) (h : Heap) (at_ : ObjectId → NodeId → Prop)
    (a : ObjectId) (n : NodeId) : Prop :=
  ∃ o slots declared runtime content, h.get? a = some o ∧ o.slots? types = some slots ∧
    g.get? n = some (.composite declared runtime content) ∧ SameClass o.type runtime ∧
      Slots.Rel (Shows g at_) slots content.slots

/-- The machine holds what was built, and the names to come are free, as are those without a number. -/
structure Ready (g : Graph) (s : State) (m : Machine) : Prop where
  bound : ∀ {n l}, findValue? n s.built = some l →
    ∃ a, findValue? l.name m.locals = some (.live (.object a)) ∧ a < m.heap.size
  composite : ∀ {n l}, findValue? n s.built = some l →
    ∃ declared runtime content, g.get? n = some (.composite declared runtime content)
  injective : ∀ {a n n'}, At s m a n → At s m a n' → n = n'
  free : m.Vacant s.scope.names
  numbered : ∀ {name}, Unnumbered name → findValue? name m.locals = none
  keys : (s.built.map (·.1)).Nodup

/-- Locals, built nodes and all but the busy objects stay as they are, and nodes newly built are
complete; these lie in a region of the graph. -/
structure Grows (types : ClassTable) (g : Graph) (region : NodeId → Prop) (busy : ObjectId → Prop)
    (s : State) (m : Machine) (s' : State) (m' : Machine) : Prop where
  keeps : m.Keeps m'
  built : ∀ {n l}, findValue? n s.built = some l → findValue? n s'.built = some l
  size_le : m.heap.size ≤ m'.heap.size
  object : ∀ {a o}, ¬ busy a → m.heap.get? a = some o → m'.heap.get? a = some o
  new : ∀ {a n}, At s' m' a n → At s m a n ∨
    m.heap.size ≤ a ∧ region n ∧ Rebuilt types g m'.heap (At s' m') a n

/-- Nothing is busy. -/
def idle (_ : ObjectId) : Prop := False

variable {types : ClassTable} {g : Graph} {region : NodeId → Prop} {busy : ObjectId → Prop}
  {s s' s'' : State} {m m' m'' : Machine}

theorem At.unique {a b : ObjectId} {n : NodeId} (ha : At s m a n) (hb : At s m b n) : a = b := by
  obtain ⟨l, hl, hla⟩ := ha
  obtain ⟨l', hl', hlb⟩ := hb
  cases hl.symm.trans hl'
  cases hla.symm.trans hlb
  rfl

theorem Rebuilt.mono {h h' : Heap} {at_ at' : ObjectId → NodeId → Prop} {a : ObjectId} {n : NodeId}
    (hb : Rebuilt types g h at_ a n) (hobject : ∀ {o}, h.get? a = some o → h'.get? a = some o)
    (hat : ∀ {a n}, at_ a n → at' a n) : Rebuilt types g h' at' a n := by
  obtain ⟨o, slots, declared, runtime, content, ho, hslots, hn, hclass, hrel⟩ := hb
  exact ⟨o, slots, declared, runtime, content, hobject ho, hslots, hn, hclass,
    hrel.imp fun _ _ => Shows.mono (fun hx _ => hx) hat⟩

namespace Grows

theorem refl (s : State) (m : Machine) : Grows types g region busy s m s m where
  keeps := .refl m
  built hl := hl
  size_le := le_rfl
  object _ ho := ho
  new ha := .inl ha

theorem at_mono (h : Grows types g region busy s m s' m') {a : ObjectId} {n : NodeId}
    (ha : At s m a n) : At s' m' a n := by
  obtain ⟨l, hl, hla⟩ := ha
  exact ⟨l, h.built hl, h.keeps _ _ hla⟩

theorem shows (h : Grows types g region busy s m s' m') {v : Value} {n : NodeId}
    (hv : Shows g (At s m) v n) : Shows g (At s' m') v n :=
  hv.mono (fun hx _ => hx) h.at_mono

theorem trans (h : Grows types g region busy s m s' m') (h' : Grows types g region busy s' m' s'' m'')
    (hbusy : ∀ a, busy a → a < m.heap.size) : Grows types g region busy s m s'' m'' where
  keeps := h.keeps.trans h'.keeps
  built hl := h'.built (h.built hl)
  size_le := h.size_le.trans h'.size_le
  object hidle ho := h'.object hidle (h.object hidle ho)
  new ha := by
    rcases h'.new ha with ha | ⟨hle, hregion, hb⟩
    · refine (h.new ha).imp_right fun ⟨hle, hregion, hb⟩ => ⟨hle, hregion, ?_⟩
      exact hb.mono (h'.object fun hbusy' => Nat.not_lt_of_le hle (hbusy _ hbusy')) h'.at_mono
    · exact .inr ⟨h.size_le.trans hle, hregion, hb⟩

theorem mono {region' : NodeId → Prop} {busy' : ObjectId → Prop}
    (h : Grows types g region busy s m s' m') (hregion : ∀ n, region n → region' n)
    (hbusy : ∀ a, busy a → busy' a) : Grows types g region' busy' s m s' m' where
  keeps := h.keeps
  built := h.built
  size_le := h.size_le
  object hidle ho := h.object (fun hb => hidle (hbusy _ hb)) ho
  new ha := (h.new ha).imp_right fun ⟨hle, hn, hb⟩ => ⟨hle, hregion _ hn, hb⟩

end Grows

/-! ### Steps -/

variable {α β : Type}

/-- If the step succeeds, then running what it emits takes the machine along, and leaves the two as
`post` says. -/
def Simulated (types : ClassTable) (g : Graph) (region : NodeId → Prop) (busy : ObjectId → Prop)
    (s : State) (m : Machine) (x : Build α) (post : State → Machine → α → Prop) : Prop :=
  ∀ a s', x s = (.ok a, s') → ∃ emitted m', s'.statements = s.statements ++ emitted ∧
    Evaluate.run (.bare types) emitted m = (.ok ⟨⟩, m') ∧ Ready g s' m' ∧
      Grows types g region busy s m s' m' ∧ post s' m' a

variable {x : Build α} {f : α → Build β} {post : State → Machine → α → Prop}
  {post' : State → Machine → β → Prop}

theorem Simulated.mono {region' : NodeId → Prop} {busy' : ObjectId → Prop}
    {post' : State → Machine → α → Prop} (h : Simulated types g region busy s m x post)
    (hregion : ∀ n, region n → region' n) (hbusy : ∀ a, busy a → busy' a)
    (hpost : ∀ s' m' a, post s' m' a → post' s' m' a) :
    Simulated types g region' busy' s m x post' := by
  intro a s' hx
  obtain ⟨emitted, m', hemitted, hrun, hready, hgrows, ha⟩ := h a s' hx
  exact ⟨emitted, m', hemitted, hrun, hready, hgrows.mono hregion hbusy, hpost s' m' a ha⟩

theorem Simulated.bind {busy' : ObjectId → Prop} (hx : Simulated types g region busy' s m x post)
    (hsub : ∀ a, busy' a → busy a) (hbusy : ∀ a, busy a → a < m.heap.size)
    (hf : ∀ a s' m', Ready g s' m' → Grows types g region busy' s m s' m' → post s' m' a →
      Simulated types g region busy s' m' (f a) post') :
    Simulated types g region busy s m (x >>= f) post' := by
  intro b s'' hrun
  obtain ⟨a, s', hxs, hfs⟩ := Effect.bind_ok.1 hrun
  obtain ⟨front, m', hfront, hrunf, hready, hgrows, hpost⟩ := hx a s' hxs
  obtain ⟨rest, m'', hrest, hrunr, hready', hgrows', hpost'⟩ := hf a s' m' hready hgrows hpost b s'' hfs
  refine ⟨front ++ rest, m'', ?_, (Evaluate.run_append hrunf).trans hrunr, hready',
    (hgrows.mono (fun _ h => h) hsub).trans hgrows' hbusy, hpost'⟩
  rw [hrest, hfront, List.append_assoc]

theorem Simulated.pure {a : α} (hready : Ready g s m) (hpost : post s m a) :
    Simulated types g region busy s m (pure a) post := by
  intro b s' hrun
  cases hrun
  exact ⟨[], m, by simp, rfl, hready, .refl s m, hpost⟩

theorem Simulated.look {a : α} (hx : x s = (.ok a, s))
    (hf : Simulated types g region busy s m (f a) post') :
    Simulated types g region busy s m (x >>= f) post' := by
  intro b s' hrun
  rw [Effect.bind_of_ok hx] at hrun
  exact hf b s' hrun

theorem Simulated.fail {e : GenerateError} : Simulated types g region busy s m (throw e) post := by
  intro a s' hrun
  cases hrun

theorem Simulated.map {f : α → β} (hx : Simulated types g region busy s m x post)
    (hpost : ∀ s' m' a, post s' m' a → post' s' m' (f a)) :
    Simulated types g region busy s m (f <$> x) post' := by
  intro b s' hrun
  obtain ⟨a, hxs, rfl⟩ := Effect.map_ok.1 hrun
  obtain ⟨emitted, m', hemitted, hrun', hready, hgrows, ha⟩ := hx a s' hxs
  exact ⟨emitted, m', hemitted, hrun', hready, hgrows, hpost s' m' a ha⟩

/-- A step for each of some items, `inv` telling how far it got. -/
theorem Simulated.forM {f : α → Build PUnit} (inv : List α → State → Machine → Prop)
    (items : List α) (hbusy : ∀ a, busy a → a < m.heap.size) (hready : Ready g s m)
    (hinv : inv [] s m)
    (hstep : ∀ done item rest, items = done ++ item :: rest → ∀ s' m', Ready g s' m' →
      Grows types g region busy s m s' m' → inv done s' m' →
        Simulated types g region busy s' m' (f item) fun s'' m'' _ => inv (done ++ [item]) s'' m'') :
    Simulated types g region busy s m (items.forM f) fun s' m' _ => inv items s' m' := by
  suffices h : ∀ rest done, items = done ++ rest → ∀ s' m', Ready g s' m' →
      Grows types g region busy s m s' m' → inv done s' m' →
        Simulated types g region busy s' m' (rest.forM f) fun s'' m'' _ => inv items s'' m'' from
    h items [] rfl s m hready (.refl s m) hinv
  intro rest
  induction rest with
  | nil =>
    intro done hitems s' m' hready' _ hinv'
    rw [List.append_nil] at hitems
    exact .pure hready' (hitems ▸ hinv')
  | cons item rest ih =>
    intro done hitems s' m' hready' hgrows hinv'
    have hbusy' : ∀ a, busy a → a < m'.heap.size := fun a ha => (hbusy a ha).trans_le hgrows.size_le
    refine (hstep done item rest hitems s' m' hready' hgrows hinv').bind (fun _ h => h) hbusy' ?_
    intro _ s'' m'' hready'' hgrows' hinv''
    exact ih (done ++ [item]) (by simpa using hitems) s'' m'' hready'' (hgrows.trans hgrows' hbusy) hinv''

theorem Simulated.mapM {f : α → Build β} (rel : State → Machine → α → β → Prop) (items : List α)
    (hready : Ready g s m)
    (hrel : ∀ {s m s' m' a b}, Grows types g region idle s m s' m' → rel s m a b → rel s' m' a b)
    (hstep : ∀ item ∈ items, ∀ s' m', Ready g s' m' →
      Simulated types g region idle s' m' (f item) fun s'' m'' b => rel s'' m'' item b) :
    Simulated types g region idle s m (items.mapM f) fun s' m' bs =>
      List.Forall₂ (rel s' m') items bs := by
  induction items generalizing s m with
  | nil => exact .pure hready .nil
  | cons item rest ih =>
    rw [List.mapM_cons]
    refine (hstep item List.mem_cons_self s m hready).bind (fun _ h => h) (fun _ h => h.elim) ?_
    intro b s' m' hready' _ hb
    refine (ih hready' fun a ha => hstep a (List.mem_cons_of_mem _ ha)).bind (fun _ h => h)
      (fun _ h => h.elim) ?_
    intro bs s'' m'' hready'' hgrows hbs
    exact .pure hready'' (.cons (hrel hgrows hb) hbs)

end Reenact.Reconstruction
