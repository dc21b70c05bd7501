import Mathlib
import Reenact.Generate.Verification
import Reenact.Proofs.Effect
import Reenact.Proofs.Graph

/-!
The descent of a description along a graph. The nodes that are being described differ from each other and
exist, so a bound on the depth that exceeds the number of nodes is never reached. And since nothing looks
at the statements on the way, a mark left before each node is handed to an adaptor changes nothing else.
-/

namespace Reenact

def Stmt.isComment : Stmt → Bool
  | .comment _ => true
  | _ => false

namespace Verification

variable {α β : Type}

/-! ### Levels -/

variable (c : Context) in
/-- What is done for a node, the nodes below it being described by `describe`. A node that is handed to an
adaptor, or to the fallback, is announced to `visit` first. -/
def step (visit : NodeId → Describe Unit) (describe : NodeId → Describe Expr) (id : NodeId) : Describe Expr := do
  let st ← get
  match findValue? id st.hoisted with
  | some name => return hoistedUse name
  | none =>
    let n ← node c id
    if id ∈ st.active then describeBy c describe id n .classOnly
    else
      let matcher ← within id do
        visit id
        dispatch c describe id n
      hoist id n matcher

def unnoticed (_ : NodeId) : Describe Unit := return

/-- Leaves the number of the node in the code, as a comment. -/
def mark (id : NodeId) : Describe Unit := emit (.comment (toString id))

theorem describeAt_succ (c : Context) (depth : ℕ) :
    describeAt c (depth + 1) = step c unnoticed (describeAt c depth) := rfl

theorem describeAt_eq_iterate (c : Context) (depth : ℕ) :
    describeAt c depth = (step c unnoticed)^[depth] (describeAt c 0) := by
  induction depth with
  | zero => rfl
  | succ depth ih => rw [Function.iterate_succ_apply', ← ih, describeAt_succ]

variable (c : Context) in
/-- The composites to bind to locals: those that are mentioned more than once below the root. -/
def sharedBelow (root : NodeId) : List NodeId :=
  ((c.graph.referenceCounts root).filter fun (n, count) =>
    decide (1 < count) && (c.graph.get? n).any Node.isReference).map (·.1)

/-- The name of the local for the matcher of a node. -/
def matcherName (names : LocalNames) (n : Node) : String :=
  (names.fresh (n.runtime.erasure.localStem ++ "_matcher")).2

/-- The state after the matcher of a node was bound to a local. -/
def State.hoisting (st : State) (id : NodeId) (n : Node) (matcher : Expr) : State :=
  { st with
    scope := { st.scope with names := (st.scope.names.fresh (n.runtime.erasure.localStem ++ "_matcher")).1 }
    statements := st.statements ++ [.bind (matcherName st.scope.names n) matcherType matcher]
    hoisted := putEntry id (matcherName st.scope.names n) st.hoisted }

theorem hoist_shared {st : State} {id : NodeId} (hid : id ∈ st.shared) (n : Node) (matcher : Expr) :
    hoist id n matcher st =
      (.ok (hoistedUse (matcherName st.scope.names n)), st.hoisting id n matcher) := by
  unfold hoist
  rw [Effect.bind_of_ok (Effect.get_apply st), if_pos hid]
  rfl

theorem hoist_unshared {st : State} {id : NodeId} (hid : id ∉ st.shared) (n : Node) (matcher : Expr) :
    hoist id n matcher st = (.ok matcher, st) := by
  unfold hoist
  rw [Effect.bind_of_ok (Effect.get_apply st), if_neg hid]
  rfl

/-! ### Runs side by side -/

/-- The state with only some of its statements. -/
def State.keeping (st : State) (keep : Stmt → Bool) : State :=
  { st with statements := st.statements.filter keep }

variable {keep : Stmt → Bool} {active : List NodeId} {x y : Describe α} {f f' : α → Describe β}

/-- While these nodes are being described, the second step does what the first one does, statements apart
that are not to be kept. -/
def Agrees (keep : Stmt → Bool) (active : List NodeId) (x y : Describe α) : Prop :=
  ∀ st, st.active = active →
    y (st.keeping keep) = ((x st).1, (x st).2.keeping keep) ∧ (x st).2.active = active

namespace Agrees

theorem pure (a : α) : Agrees keep active (pure a) (pure a) := fun _ hst => ⟨rfl, hst⟩

theorem fail (e : GenerateError) : Agrees keep active (throw e : Describe α) (throw e) :=
  fun _ hst => ⟨rfl, hst⟩

theorem bind (hx : Agrees keep active x y) (hf : ∀ a, Agrees keep active (f a) (f' a)) :
    Agrees keep active (x >>= f) (y >>= f') := by
  intro st hst
  obtain ⟨hrun, hactive⟩ := hx st hst
  cases hxs : x st with
  | mk r st' =>
    rw [hxs] at hrun hactive
    cases r with
    | ok a =>
      rw [Effect.bind_of_ok hxs, Effect.bind_of_ok hrun]
      exact hf a st' hactive
    | error e =>
      rw [Effect.bind_of_error hxs, Effect.bind_of_error hrun]
      exact ⟨rfl, hactive⟩

theorem mapM {f f' : α → Describe β} (hf : ∀ a, Agrees keep active (f a) (f' a)) (items : List α) :
    Agrees keep active (items.mapM f) (items.mapM f') := by
  induction items with
  | nil => exact .pure []
  | cons item items ih =>
    rw [List.mapM_cons, List.mapM_cons]
    exact (hf item).bind fun _ => ih.bind fun _ => .pure _

theorem node (c : Context) (id : NodeId) : Agrees keep active (node c id) (node c id) := by
  unfold Verification.node
  split
  · exact .pure _
  · exact .fail _

theorem addFunctionImport (path : String) :
    Agrees keep active (addFunctionImport path) (addFunctionImport path) := fun _ hst => ⟨rfl, hst⟩

theorem matcherCall (name : String) (typeArgs : List Ty) (args : List Expr) :
    Agrees keep active (matcherCall name typeArgs args) (matcherCall name typeArgs args) :=
  (addFunctionImport _).bind fun _ => .pure _

theorem within {x y : Describe Expr} {id : NodeId} (h : Agrees keep (id :: active) x y) :
    Agrees keep active (within id x) (within id y) := by
  intro st hst
  obtain ⟨hrun, hactive⟩ := h { st with active := id :: st.active } (by rw [hst])
  have hrun' : y { st.keeping keep with active := id :: st.active } = _ := hrun
  refine ⟨?_, ?_⟩
  · unfold Verification.within
    rw [State.keeping] at hrun' ⊢
    rw [hrun']
    rfl
  · change (x { st with active := id :: st.active }).2.active.erase id = active
    rw [hactive, List.erase_cons_head]

theorem hoist (hkeep : ∀ name type value, keep (.bind name type value) = true) (id : NodeId) (n : Node)
    (e : Expr) : Agrees keep active (hoist id n e) (hoist id n e) := by
  intro st hst
  by_cases hid : id ∈ st.shared
  · rw [hoist_shared hid, hoist_shared (show id ∈ (st.keeping keep).shared from hid)]
    refine ⟨?_, hst⟩
    simp [State.keeping, State.hoisting, matcherName, List.filter_append, hkeep]
  · rw [hoist_unshared hid, hoist_unshared (show id ∉ (st.keeping keep).shared from hid)]
    exact ⟨rfl, hst⟩

variable {c : Context} {describe describe' : NodeId → Describe Expr}
  (hparts : ∀ part, Agrees keep active (describe part) (describe' part))
include hparts

theorem describeElements (function : String) (elements : List NodeId) :
    Agrees keep active (describeElements describe function elements)
      (describeElements describe' function elements) :=
  (mapM hparts elements).bind fun _ => matcherCall _ _ _

theorem describeEntries (entries : List (NodeId × NodeId)) :
    Agrees keep active (describeEntries describe entries) (describeEntries describe' entries) := by
  refine (mapM (fun e => ?_) entries).bind fun _ => matcherCall _ _ _
  exact (hparts e.1).bind fun _ => (hparts e.2).bind fun _ => matcherCall _ _ _

omit hparts in
theorem describePrimitives (component : Ty) (elements : List NodeId) :
    Agrees keep active (describePrimitives c component elements) (describePrimitives c component elements) := by
  refine (mapM (fun id => ?_) elements).bind fun _ => matcherCall _ _ _
  refine (node c id).bind fun n => ?_
  split
  · exact pure _
  · exact fail _

theorem describeBy (id : NodeId) (n : Node) (rule : MatcherRule) :
    Agrees keep active (describeBy c describe id n rule) (describeBy c describe' id n rule) := by
  unfold Verification.describeBy
  split
  · exact matcherCall _ _ _
  · exact fail _
  · exact matcherCall _ _ _
  · exact matcherCall _ _ _
  · exact fail _
  · exact describeElements hparts _ _
  · exact fail _
  · exact describePrimitives _ _
  · exact fail _
  · exact describeElements hparts _ _
  · exact fail _
  · exact describeElements hparts _ _
  · exact fail _
  · exact describeEntries hparts _
  · exact fail _
  · exact matcherCall _ _ _

theorem describeFieldList (matcher : Expr) (fields : List NodeField) :
    Agrees keep active (describeFieldList c describe matcher fields)
      (describeFieldList c describe' matcher fields) := by
  induction fields generalizing matcher with
  | nil => exact pure _
  | cons f fields ih =>
    have hfield : Agrees keep active (describeField c describe f.value) (describeField c describe' f.value) := by
      refine (node c f.value).bind fun n => ?_
      split
      · exact pure _
      · exact hparts f.value
    exact hfield.bind fun _ => ih _

theorem describeFields (n : Node) (fields : List NodeField) :
    Agrees keep active (describeFields c describe n fields) (describeFields c describe' n fields) := by
  refine (addFunctionImport _).bind fun _ => ?_
  refine (describeFieldList hparts _ fields).bind fun _ => ?_
  split
  · exact pure _
  · exact pure _

theorem dispatch (id : NodeId) (n : Node) :
    Agrees keep active (dispatch c describe id n) (dispatch c describe' id n) := by
  unfold Verification.dispatch
  split
  · exact describeBy hparts id n _
  · split
    · exact describeFields hparts _ _
    · exact fail _

end Agrees

variable {c : Context} {visit visit' : NodeId → Describe Unit} {id : NodeId}

/-- One more level down there is one more node being described. -/
theorem step_agrees (hkeep : ∀ name type value, keep (.bind name type value) = true)
    (hvisit : ∀ active id, Agrees keep active (visit id) (visit' id))
    {describe describe' : NodeId → Describe Expr}
    (hparts : id ∉ active → id < c.graph.size →
      ∀ part, Agrees keep (id :: active) (describe part) (describe' part)) :
    Agrees keep active (step c visit describe id) (step c visit' describe' id) := by
  intro st hst
  unfold step
  rw [Effect.bind_of_ok (Effect.get_apply st), Effect.bind_of_ok (Effect.get_apply _)]
  have hsame : (st.keeping keep).hoisted = st.hoisted ∧ (st.keeping keep).active = st.active := ⟨rfl, rfl⟩
  rw [hsame.1, hsame.2]
  cases findValue? id st.hoisted with
  | some name => exact ⟨rfl, hst⟩
  | none =>
    dsimp only
    cases hn : c.graph.get? id with
    | none =>
      have hmissing : node c id = throw (.graph (.missingValue id)) := by
        simp only [node, Graph.node, hn]
      rw [hmissing]
      exact ⟨rfl, hst⟩
    | some n =>
      refine Agrees.bind (.node c id) (fun n => ?_) st hst
      split
      · exact .matcherCall _ _ _
      · next hnew =>
        have hinner := hparts (hst ▸ hnew) (Graph.lt_size hn)
        refine (Agrees.within ?_).bind fun e => .hoist hkeep id n e
        exact (hvisit _ id).bind fun _ => .dispatch hinner id n

/-- With more levels than nodes, whatever lies beyond the last level makes no difference. -/
theorem steps_agree (hkeep : ∀ name type value, keep (.bind name type value) = true)
    (hvisit : ∀ active id, Agrees keep active (visit id) (visit' id)) (bottom bottom' : NodeId → Describe Expr)
    {depth depth' : ℕ} (hnodup : active.Nodup) (hactive : ∀ k ∈ active, k < c.graph.size)
    (hdepth : c.graph.size < depth + active.length) (hdepth' : c.graph.size < depth' + active.length) :
    Agrees keep active ((step c visit)^[depth] bottom id) ((step c visit')^[depth'] bottom' id) := by
  have hle : active.length ≤ (List.range c.graph.size).length :=
    (List.subperm_of_subset hnodup fun k hk => List.mem_range.2 (hactive k hk)).length_le
  rw [List.length_range] at hle
  induction depth generalizing depth' id active with
  | zero => omega
  | succ depth ih =>
    obtain ⟨depth', rfl⟩ := Nat.exists_eq_add_one_of_ne_zero (show depth' ≠ 0 by omega)
    rw [Function.iterate_succ_apply', Function.iterate_succ_apply']
    refine step_agrees hkeep hvisit fun hnew hid part => ?_
    have hnodup' := List.nodup_cons.2 ⟨hnew, hnodup⟩
    have hactive' : ∀ k ∈ id :: active, k < c.graph.size := List.forall_mem_cons.2 ⟨hid, hactive⟩
    have hle' : (id :: active).length ≤ (List.range c.graph.size).length :=
      (List.subperm_of_subset hnodup' fun k hk => List.mem_range.2 (hactive' k hk)).length_le
    rw [List.length_range] at hle'
    refine ih hnodup' hactive' ?_ ?_ hle' <;> rw [List.length_cons] <;> omega

/-- A description comes to an end by itself: what the bounded recursion does where it breaks off is never
done. -/
theorem matcher_eq_iterate (bottom : NodeId → Describe Expr) {depth : ℕ} (hdepth : c.graph.size < depth)
    {st : State} (hst : st.active = []) :
    matcher c id st = (step c unnoticed)^[depth] bottom id st := by
  have hkeeping : ∀ st : State, st.keeping (fun _ => true) = st := by
    intro st
    simp [State.keeping]
  have hvisit : ∀ active id, Agrees (fun _ => true) active (unnoticed id) (unnoticed id) :=
    fun _ _ _ hst => ⟨rfl, hst⟩
  have hagree : Agrees (fun _ => true) [] ((step c unnoticed)^[depth] bottom id)
      ((step c unnoticed)^[c.graph.size + 1] (describeAt c 0) id) :=
    steps_agree (fun _ _ _ => rfl) hvisit bottom _ .nil (by simp) (by simpa using hdepth) (by simp)
  have hagree := hagree st hst
  rw [hkeeping, hkeeping] at hagree
  unfold matcher
  rw [describeAt_eq_iterate]
  exact hagree.1

/-- The same description with a mark before each node that is handed to an adaptor. -/
def markedMatcher (c : Context) (id : NodeId) : Describe Expr :=
  (step c mark)^[c.graph.size + 1] (describeAt c 0) id

/-- The marks are all that marking adds. -/
theorem matcher_unmarked {st : State} (hst : st.active = []) :
    matcher c id (st.keeping (!·.isComment)) =
      ((markedMatcher c id st).1, (markedMatcher c id st).2.keeping (!·.isComment)) := by
  have hmark : ∀ active id, Agrees (!·.isComment) active (mark id) (unnoticed id) := by
    intro active id st hst
    refine ⟨Prod.ext rfl ?_, hst⟩
    change st.keeping _ = State.keeping { st with statements := st.statements ++ [.comment (toString id)] } _
    simp [State.keeping, List.filter_append, Stmt.isComment]
  have hagree : Agrees (!·.isComment) [] (markedMatcher c id)
      ((step c unnoticed)^[c.graph.size + 1] (describeAt c 0) id) :=
    steps_agree (fun _ _ _ => rfl) hmark _ _ .nil (by simp) (by simp) (by simp)
  unfold matcher
  rw [describeAt_eq_iterate, (hagree st hst).1]

theorem exists_marked {st st' : State} {e : Expr} (hst : st.active = []) (hclean : st.keeping (!·.isComment) = st)
    (hrun : matcher c id st = (.ok e, st')) :
    ∃ marked, markedMatcher c id st = (.ok e, marked) ∧ st' = marked.keeping (!·.isComment) := by
  have hunmarked : matcher c id (st.keeping (!·.isComment)) = _ := matcher_unmarked hst
  rw [hclean, hrun] at hunmarked
  obtain ⟨hresult, hstate⟩ := Prod.mk.inj hunmarked
  exact ⟨_, Prod.ext hresult.symm rfl, hstate⟩

end Verification

end Reenact
