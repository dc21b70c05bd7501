import Mathlib
import Reenact.Generate.Verification
import Reenact.Proofs.MatcherCode

/-!
Describing nodes and running what is emitted side by side. A description that succeeds has emitted
statements that take the machine to where the locals for shared nodes hold matchers that tell of these,
whatever it is that a matcher tells of a node.
-/

namespace Reenact

def Stmt.Binds (s : Stmt) (name : String) : Prop :=
  match s with
  | .bind bound _ _ => bound = name
  | _ => False

instance : (s : Stmt) → (name : String) → Decidable (s.Binds name)
  | .bind bound _ _, name => inferInstanceAs (Decidable (bound = name))
  | .assign .., _ | .expr _, _ | .comment _, _ => inferInstanceAs (Decidable False)

namespace Verification

variable {c : Evaluate.Context} {st st' st'' : State} {m m' m'' : Machine} {emitted rest : List Stmt}
  {id : NodeId}

/-! ### Frames -/

/-- Running what was emitted on the way takes the machine along. Only names that were still to be given
at the start, and are given at the end, are bound. -/
structure Frame (c : Evaluate.Context) (st : State) (m : Machine) (emitted : List Stmt) (st' : State)
    (m' : Machine) : Prop where
  statements : st'.statements = st.statements ++ emitted
  run : Evaluate.run c emitted m = (.ok ⟨⟩, m')
  later : m.Later m'
  active : st'.active = st.active
  locals : ∀ {name}, (∀ s ∈ emitted, ¬ s.Binds name) →
    findValue? name m'.locals = findValue? name m.locals
  named : ∀ {name}, ∀ s ∈ emitted, s.Binds name →
    st.scope.names.Ahead name ∧ ¬ st'.scope.names.Ahead name
  ahead : ∀ {name}, st'.scope.names.Ahead name → st.scope.names.Ahead name

namespace Frame

theorem refl (c : Evaluate.Context) (st : State) (m : Machine) : Frame c st m [] st m where
  statements := (List.append_nil _).symm
  run := rfl
  later := .refl m
  active := rfl
  locals _ := rfl
  named _ hs := absurd hs List.not_mem_nil
  ahead hname := hname

theorem trans (h : Frame c st m emitted st' m') (h' : Frame c st' m' rest st'' m'') :
    Frame c st m (emitted ++ rest) st'' m'' where
  statements := by rw [h'.statements, h.statements, List.append_assoc]
  run := (Evaluate.run_append h.run).trans h'.run
  later := h.later.trans h'.later
  active := h'.active.trans h.active
  locals hfree := by
    have hfront := h.locals fun s hs => hfree s (List.mem_append_left _ hs)
    have hback := h'.locals fun s hs => hfree s (List.mem_append_right _ hs)
    exact hback.trans hfront
  named s hs hbinds := by
    rcases List.mem_append.1 hs with hs | hs
    · exact (h.named s hs hbinds).imp_right fun hgiven hname => hgiven (h'.ahead hname)
    · exact (h'.named s hs hbinds).imp_left h.ahead
  ahead hname := h.ahead (h'.ahead hname)

/-- Binding a matcher to the name given last. -/
theorem bind {name : String} {type : Ty} {e : Expr} {p : Matcher}
    (heval : Evaluate.expr c e m = (.ok (.matcher p), m')) (hlater : m.Later m')
    (hlocals : m'.locals = m.locals) (hfree : ∀ q, findValue? name m.locals ≠ some (.matcher q))
    (hname : st.scope.names.Ahead name ∧ ¬ st'.scope.names.Ahead name)
    (hahead : ∀ {name}, st'.scope.names.Ahead name → st.scope.names.Ahead name)
    (hstatements : st'.statements = st.statements ++ [.bind name type e])
    (hactive : st'.active = st.active) :
    Frame c st m [.bind name type e] st' (m'.bindLocal name (.matcher p)) where
  statements := hstatements
  run := Evaluate.run_singleton (Evaluate.stmt_bind heval)
  later := by
    refine hlater.trans ⟨fun {other q} hq => ?_, fun ho => ho⟩
    rw [Machine.findValue?_bindLocal, if_neg, hq]
    rintro rfl
    exact hfree q (hlocals ▸ hq)
  active := hactive
  locals {other} hother := by
    have hne : other ≠ name := fun heq => hother _ List.mem_cons_self heq.symm
    rw [Machine.findValue?_bindLocal, if_neg hne, hlocals]
  named s hs hbinds := by
    rw [List.mem_singleton.1 hs] at hbinds
    obtain rfl : name = _ := hbinds
    exact hname
  ahead := hahead

/-- Where the names to come were free, nothing bound is lost. -/
theorem keeps (h : Frame c st m emitted st' m') (hfree : m.Vacant st.scope.names) : m.Keeps m' := by
  intro name v hv
  rw [h.locals, hv]
  intro s hs hbinds
  obtain ⟨⟨stem, k, hstem, hk, rfl⟩, -⟩ := h.named s hs hbinds
  cases (hfree stem k hstem hk).symm.trans hv

theorem vacant (h : Frame c st m emitted st' m') (hfree : m.Vacant st.scope.names) :
    m'.Vacant st'.scope.names := by
  intro stem k hstem hk
  have hahead : st'.scope.names.Ahead (stem ++ toString k) := ⟨stem, k, hstem, hk, rfl⟩
  rw [h.locals fun s hs hbinds => (h.named s hs hbinds).2 hahead]
  obtain ⟨other, j, hother, hj, heq⟩ := h.ahead hahead
  rw [heq]
  exact hfree other j hother hj

end Frame

/-! ### Steps -/

section

variable {α β : Type} {inv : State → Machine → Prop}

/-- If the step succeeds, then running what it emits leaves a machine for which the invariant holds, and
which is as `post` says. -/
def Leaves (c : Evaluate.Context) (inv : State → Machine → Prop) (st : State) (m : Machine)
    (x : Describe α) (post : Machine → α → Prop) : Prop :=
  ∀ a st', x st = (.ok a, st') → ∃ emitted m', Frame c st m emitted st' m' ∧ inv st' m' ∧ post m' a

variable {x : Describe α} {f : α → Describe β} {post : Machine → α → Prop} {post' : Machine → β → Prop}

theorem Leaves.imp {post' : Machine → α → Prop} (h : Leaves c inv st m x post)
    (hpost : ∀ m' a, post m' a → post' m' a) : Leaves c inv st m x post' := by
  intro a st' hx
  obtain ⟨emitted, m', hframe, hinv, ha⟩ := h a st' hx
  exact ⟨emitted, m', hframe, hinv, hpost m' a ha⟩

theorem Leaves.bind_frame (hx : Leaves c inv st m x post)
    (hf : ∀ a emitted st' m', Frame c st m emitted st' m' → inv st' m' → post m' a →
      Leaves c inv st' m' (f a) post') :
    Leaves c inv st m (x >>= f) post' := by
  intro b st'' hrun
  obtain ⟨a, st', hxs, hfs⟩ := Effect.bind_ok.1 hrun
  obtain ⟨front, m', hframe, hinv, hpost⟩ := hx a st' hxs
  obtain ⟨rest, m'', hframe', hinv', hpost'⟩ := hf a front st' m' hframe hinv hpost b st'' hfs
  exact ⟨front ++ rest, m'', hframe.trans hframe', hinv', hpost'⟩

theorem Leaves.bind (hx : Leaves c inv st m x post)
    (hf : ∀ a st' m', inv st' m' → m.Later m' → st'.active = st.active → post m' a →
      Leaves c inv st' m' (f a) post') :
    Leaves c inv st m (x >>= f) post' :=
  hx.bind_frame fun a _ st' m' hframe hinv => hf a st' m' hinv hframe.later hframe.active

theorem Leaves.pure {a : α} (hinv : inv st m) (hpost : post m a) : Leaves c inv st m (pure a) post := by
  intro b st' hrun
  cases hrun
  exact ⟨[], m, .refl c st m, hinv, hpost⟩

theorem Leaves.look {a : α} (hx : x st = (.ok a, st)) (hf : Leaves c inv st m (f a) post') :
    Leaves c inv st m (x >>= f) post' := by
  intro b st' hrun
  rw [Effect.bind_of_ok hx] at hrun
  exact hf b st' hrun

theorem Leaves.fail {e : GenerateError} : Leaves c inv st m (throw e) post := by
  intro a st' hrun
  cases hrun

theorem Leaves.mapM (rel : Machine → β → α → Prop) (items : List α) (hinv : inv st m)
    (hrel : ∀ {m m' a b}, m.Later m' → rel m b a → rel m' b a)
    (hstep : ∀ item ∈ items, ∀ st' m', inv st' m' → st'.active = st.active →
      Leaves c inv st' m' (f item) fun m'' b => rel m'' b item) :
    Leaves c inv st m (items.mapM f) fun m' bs => List.Forall₂ (rel m') bs items := by
  induction items generalizing st m with
  | nil => exact .pure hinv .nil
  | cons item rest ih =>
    rw [List.mapM_cons]
    refine (hstep item List.mem_cons_self st m hinv rfl).bind ?_
    intro b st' m' hinv' _ hactive hb
    refine (ih hinv' fun a ha st'' m'' hinv'' hactive' =>
      hstep a (List.mem_cons_of_mem _ ha) st'' m'' hinv'' (hactive'.trans hactive)).bind ?_
    intro bs st'' m'' hinv'' hlater' _ hbs
    exact .pure hinv'' (.cons (hrel hlater' hb) hbs)

end

/-! ### Locals for shared nodes -/

variable {tells : Matcher → NodeId → Prop}

/-- No name to come holds a matcher yet, and locals for shared nodes hold matchers that tell of these. -/
structure Stocked (tells : Matcher → NodeId → Prop) (st : State) (m : Machine) : Prop where
  free : ∀ {name p}, st.scope.names.Ahead name → findValue? name m.locals ≠ some (.matcher p)
  hoisted : ∀ {id name}, findValue? id st.hoisted = some name →
    ∃ p, findValue? name m.locals = some (.matcher p) ∧ tells p id

theorem Stocked.of_locals (h : Stocked tells st m) (hlocals : m'.locals = m.locals) : Stocked tells st m' where
  free hname := by rw [hlocals]; exact h.free hname
  hoisted hname := by rw [hlocals]; exact h.hoisted hname

theorem stocked_start {scope : Scope}
    (hfree : ∀ {name p}, scope.names.Ahead name → findValue? name m.locals ≠ some (.matcher p)) :
    Stocked tells (.start scope) m where
  free := hfree
  hoisted hname := by cases hname

theorem addFunctionImport_leaves (path : String) (hstocked : Stocked tells st m) :
    Leaves c (Stocked tells) st m (addFunctionImport path) fun m' _ => m' = m := by
  intro a st' hrun
  cases hrun
  exact ⟨[], m, { Frame.refl c st m with }, { hstocked with }, rfl⟩

theorem matcherCall_leaves {name : String} {typeArgs : List Ty} {args : List Expr}
    {post : Machine → Expr → Prop} (hstocked : Stocked tells st m)
    (hpost : post m (.function none name typeArgs args)) :
    Leaves c (Stocked tells) st m (matcherCall name typeArgs args) post := by
  refine (addFunctionImport_leaves _ hstocked).bind ?_
  rintro _ st' m' hstocked' _ _ rfl
  exact .pure hstocked' hpost

/-- Below a node, the node counts as being described. -/
theorem Leaves.within {d : Describe Expr} {post : Machine → Expr → Prop} (hstocked : Stocked tells st m)
    (hd : Stocked tells { st with active := id :: st.active } m →
      Leaves c (Stocked tells) { st with active := id :: st.active } m d post) :
    Leaves c (Stocked tells) st m (within id d) post := by
  intro e st' hrun
  unfold Verification.within at hrun
  cases hx : d { st with active := id :: st.active } with
  | mk r st₁ =>
    rw [hx] at hrun
    cases hrun
    obtain ⟨emitted, m', hframe, hstocked', hpost⟩ := hd { hstocked with } e st₁ hx
    have hrestored : st₁.active.erase id = st.active := by rw [hframe.active, List.erase_cons_head]
    exact ⟨emitted, m', { hframe with active := hrestored }, { hstocked' with }, hpost⟩

theorem emit_leaves {s : Stmt} (hstocked : Stocked tells st m)
    (hrun : Evaluate.stmt c s m = (.ok ⟨⟩, m')) (hlater : m.Later m') (hlocals : m'.locals = m.locals)
    (hs : ∀ name, ¬ s.Binds name) : Leaves c (Stocked tells) st m (emit s) fun _ _ => True := by
  intro a st' hx
  cases hx
  have hstocked' := hstocked.of_locals hlocals
  refine ⟨[s], m', ⟨rfl, Evaluate.run_singleton hrun, hlater, rfl, fun _ => by rw [hlocals], ?_, ?_⟩,
    { hstocked' with }, trivial⟩
  · intro name s' hs' hbinds
    exact absurd (List.mem_singleton.1 hs' ▸ hbinds) (hs name)
  · exact fun hname => hname

end Verification

end Reenact
