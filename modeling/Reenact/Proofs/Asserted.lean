import Mathlib
import Reenact.Generate.TestUnit
import Reenact.Proofs.Effect

/-!
What the statements of a test make assertions about. Describing a value emits bindings only, so the
assertions of a test are those that are made on purpose, in their order.
-/

namespace Reenact

/-- The code whose value the statement makes an assertion about. -/
def Stmt.subject? : Stmt → Option Expr
  | .expr (.apply "assert_that" [actual, _]) => some actual
  | _ => none

def TestUnit.subjects (u : TestUnit) : List Expr := u.check.filterMap Stmt.subject?

namespace Verification

variable {α β : Type} {c : Context} {describe : NodeId → Describe Expr} {subjects rest : List Expr}

/-- If the step succeeds, it emits assertions about these and nothing else. -/
def Asserts (x : Describe α) (subjects : List Expr) : Prop :=
  ∀ st a st', x st = (.ok a, st') →
    ∃ emitted, st'.statements = st.statements ++ emitted ∧ emitted.filterMap Stmt.subject? = subjects

namespace Asserts

theorem of_statements {x : Describe α} (h : ∀ st, (x st).2.statements = st.statements) : Asserts x [] := by
  intro st a st' hrun
  have hkept := h st
  rw [hrun] at hkept
  exact ⟨[], by rw [hkept, List.append_nil], rfl⟩

theorem pure (a : α) : Asserts (pure a : Describe α) [] := .of_statements fun _ => rfl

theorem fail (e : GenerateError) : Asserts (throw e : Describe α) subjects := by
  intro st a st' hrun
  cases hrun

theorem bind {x : Describe α} {f : α → Describe β} (hx : Asserts x subjects)
    (hf : ∀ a, Asserts (f a) rest) : Asserts (x >>= f) (subjects ++ rest) := by
  intro st b st'' hrun
  obtain ⟨a, st', hrun, hrun'⟩ := Effect.bind_ok.1 hrun
  obtain ⟨emitted, hemitted, rfl⟩ := hx st a st' hrun
  obtain ⟨emitted', hemitted', rfl⟩ := hf a st' b st'' hrun'
  exact ⟨emitted ++ emitted', by rw [hemitted', hemitted, List.append_assoc], List.filterMap_append⟩

/-- A step that emits no assertion may stand before any other. -/
theorem after {x : Describe α} {f : α → Describe β} (hx : Asserts x [])
    (hf : ∀ a, Asserts (f a) subjects) : Asserts (x >>= f) subjects := hx.bind hf

theorem before {x : Describe α} {f : α → Describe β} (hx : Asserts x subjects)
    (hf : ∀ a, Asserts (f a) []) : Asserts (x >>= f) subjects := by
  have hboth := hx.bind hf
  rwa [List.append_nil] at hboth

theorem mapM {f : α → Describe β} (hf : ∀ a, Asserts (f a) []) (items : List α) :
    Asserts (items.mapM f) [] := by
  induction items with
  | nil => exact .pure []
  | cons item items ih =>
    rw [List.mapM_cons]
    exact (hf item).after fun _ => ih.after fun _ => .pure _

theorem forM {f : α → Describe Unit} {of : α → List Expr} (hf : ∀ a, Asserts (f a) (of a))
    (items : List α) : Asserts (items.forM f) (items.flatMap of) := by
  induction items with
  | nil => exact .pure _
  | cons item items ih =>
    rw [List.flatMap_cons]
    exact (hf item).bind fun _ => ih

theorem emit (s : Stmt) : Asserts (emit s) s.subject?.toList := by
  intro st a st' hrun
  cases hrun
  refine ⟨[s], rfl, ?_⟩
  cases hs : s.subject? <;> simp [hs]

theorem node (id : NodeId) : Asserts (node c id) [] := by
  unfold Verification.node
  split
  · exact .pure _
  · exact .fail _

theorem addFunctionImport (path : String) : Asserts (addFunctionImport path) [] := .of_statements fun _ => rfl

theorem matcherCall (name : String) (typeArgs : List Ty) (args : List Expr) :
    Asserts (matcherCall name typeArgs args) [] :=
  (addFunctionImport _).after fun _ => .pure _

theorem within {d : Describe Expr} (hd : Asserts d []) (id : NodeId) : Asserts (within id d) [] := by
  intro st e st' hrun
  unfold Verification.within at hrun
  cases hd' : d { st with active := id :: st.active } with
  | mk result st₁ =>
    rw [hd'] at hrun
    cases hrun
    exact hd { st with active := id :: st.active } e st₁ hd'

theorem hoist (id : NodeId) (n : Node) (matcher : Expr) : Asserts (hoist id n matcher) [] := by
  intro st e st' hrun
  unfold Verification.hoist at hrun
  rw [Effect.bind_of_ok (Effect.get_apply st)] at hrun
  split at hrun
  · cases hrun
    exact ⟨_, rfl, rfl⟩
  · cases hrun
    exact ⟨[], by rw [List.append_nil], rfl⟩

end Asserts

/-! ### Descriptions -/

section

variable (hdescribe : ∀ id, Asserts (describe id) [])
include hdescribe

theorem describeElements_asserts (function : String) (elements : List NodeId) :
    Asserts (describeElements describe function elements) [] :=
  (Asserts.mapM hdescribe elements).after fun _ => .matcherCall _ _ _

theorem describeEntries_asserts (entries : List (NodeId × NodeId)) :
    Asserts (describeEntries describe entries) [] := by
  refine (Asserts.mapM (fun e => ?_) entries).after fun _ => .matcherCall _ _ _
  exact (hdescribe e.1).after fun _ => (hdescribe e.2).after fun _ => .matcherCall _ _ _

omit hdescribe in
theorem describePrimitives_asserts (component : Ty) (elements : List NodeId) :
    Asserts (describePrimitives c component elements) [] := by
  refine (Asserts.mapM (fun id => ?_) elements).after fun _ => .matcherCall _ _ _
  refine (Asserts.node id).after fun n => ?_
  split
  · exact .pure _
  · exact .fail _

theorem describeBy_asserts (id : NodeId) (n : Node) (rule : MatcherRule) :
    Asserts (describeBy c describe id n rule) [] := by
  unfold describeBy
  split
  · exact .matcherCall _ _ _
  · exact .fail _
  · exact .matcherCall _ _ _
  · exact .matcherCall _ _ _
  · exact .fail _
  · exact describeElements_asserts hdescribe _ _
  · exact .fail _
  · exact describePrimitives_asserts _ _
  · exact .fail _
  · exact describeElements_asserts hdescribe _ _
  · exact .fail _
  · exact describeElements_asserts hdescribe _ _
  · exact .fail _
  · exact describeEntries_asserts hdescribe _
  · exact .fail _
  · exact .matcherCall _ _ _

theorem describeFieldList_asserts (matcher : Expr) (fields : List NodeField) :
    Asserts (describeFieldList c describe matcher fields) [] := by
  induction fields generalizing matcher with
  | nil => exact .pure _
  | cons f fields ih =>
    have hfield : Asserts (describeField c describe f.value) [] := by
      refine (Asserts.node f.value).after fun n => ?_
      split
      · exact .pure _
      · exact hdescribe f.value
    exact hfield.after fun _ => ih _

theorem describeFields_asserts (n : Node) (fields : List NodeField) :
    Asserts (describeFields c describe n fields) [] := by
  refine (Asserts.addFunctionImport _).after fun _ => ?_
  refine (describeFieldList_asserts hdescribe _ fields).after fun _ => ?_
  split
  · exact .pure _
  · exact .pure _

theorem dispatch_asserts (id : NodeId) (n : Node) : Asserts (dispatch c describe id n) [] := by
  unfold dispatch
  split
  · exact describeBy_asserts hdescribe id n _
  · split
    · exact describeFields_asserts hdescribe _ _
    · exact .fail _

end

theorem describeAt_asserts (depth : ℕ) (id : NodeId) : Asserts (describeAt c depth id) [] := by
  induction depth generalizing id with
  | zero => exact .fail _
  | succ depth ih =>
    refine (Asserts.of_statements fun _ => rfl : Asserts (get : Describe State) []).after fun st => ?_
    cases findValue? id st.hoisted with
    | some name => exact .pure _
    | none =>
      refine (Asserts.node id).after fun n => ?_
      split
      · exact describeBy_asserts ih id n _
      · exact ((dispatch_asserts ih id n).within id).after fun e => .hoist id n e

theorem describeRoot_asserts (id : NodeId) : Asserts (describeRoot c id) [] := by
  have hshare : ∀ shared, Asserts (modify fun st => { st with shared } : Describe Unit) [] :=
    fun _ => .of_statements fun _ => rfl
  exact (hshare _).after fun _ => describeAt_asserts _ id

/-- Asserting a value makes one assertion, which is about the code for it. -/
theorem assertValue_asserts (id : NodeId) (actual : Expr) : Asserts (assertValue c id actual) [actual] :=
  (describeRoot_asserts id).after fun _ => (Asserts.addFunctionImport _).after fun _ => .emit _

end Verification

namespace TestGenerator

open Verification

variable {c : Context} {s : Snapshot}

/-! ### What is looked at after a call -/

/-- What there is at one moment of a call. -/
structure Moment (α : Type) where
  receiver : Option α
  args : List α
  globals : List α

/-- Something that the test has code for, with what it is before the call and after it. -/
structure Watched (α : Type) where
  code : Expr
  before : α
  after : α

def watch {α : Type} (code : List Expr) (before after : List α) : List (Watched α) :=
  (code.zip (before.zip after)).map fun x => ⟨x.1, x.2.1, x.2.2⟩

/-- Those that are not left alone whatever they hold. -/
def unsettled {α : Type} (sig : Signature) (args : List (Watched α)) : List (Watched α) :=
  (args.zipIdx.filter fun a => !isSettled sig a.2 a.1.code).map (·.1)

def globalCode (g : GlobalRef) : Expr := .staticField (.ofClass g.owner) g.name

/-- All that a test may look at again after the call, with the code for the receiver and the arguments. -/
def watched {α : Type} (sig : Signature) (target : Option Expr) (args : List Expr) (globals : List GlobalRef)
    (before after : Moment α) : List (Watched α) :=
  watch target.toList before.receiver.toList after.receiver.toList ++
    unsettled sig (watch args before.args after.args) ++
    watch (globals.map globalCode) before.globals after.globals

/-- Those that are another value after the call, in their order. -/
def differing {α : Type} (differ : α → α → Bool) (ws : List (Watched α)) : List (Watched α) :=
  ws.filter fun w => differ w.before w.after

def moment (p : PhaseState) : Moment NodeId := ⟨p.receiver, p.args, p.globals.map (·.value)⟩

/-- The code for what the call came to, if that is looked at. -/
def outcomeSubjects (sig : Signature) : Outcome → List Expr
  | .returned (some _) => if sig.isVoid then [] else [.loc resultLocal]
  | .threw _ => [.loc errorLocal]
  | _ => []

/-! ### What is asserted after a call -/

def assertChanged (c : Context) (ws : List (Watched NodeId)) : Describe Unit :=
  (differing (changed c.graph) ws).forM fun w => assertValue c w.after w.code

theorem forM_guarded {α : Type} (p : α → Bool) (f : α → Describe Unit) (items : List α) :
    (items.forM fun a => if p a then f a else pure ()) = (items.filter p).forM f := by
  induction items with
  | nil => rfl
  | cons a items ih =>
    rw [List.forM_eq_forM] at ih ⊢
    rw [List.forM_cons, ih, List.filter_cons]
    cases p a with
    | true => rfl
    | false => exact pure_bind _ _

theorem assertChanged_append (c : Context) (ws ws' : List (Watched NodeId)) :
    assertChanged c (ws ++ ws') = assertChanged c ws >>= fun _ => assertChanged c ws' := by
  unfold assertChanged differing
  rw [List.filter_append, List.forM_eq_forM, List.forM_append]

/-- A loop over what is watched that skips what is not to be asserted. -/
theorem assertChanged_map {α : Type} (c : Context) (watch : α → Watched NodeId) (items : List α) :
    assertChanged c (items.map watch) = items.forM fun a =>
      if changed c.graph (watch a).before (watch a).after then assertValue c (watch a).after (watch a).code
      else pure () := by
  unfold assertChanged differing
  rw [List.filter_map, List.forM_eq_forM, List.forM_map]
  exact (forM_guarded (fun a => changed c.graph (watch a).before (watch a).after) _ items).symm

theorem assertReceiver_eq (c : Context) (s : Snapshot) (target : Option Expr) :
    assertReceiver c s target =
      assertChanged c (watch target.toList s.setup.receiver.toList s.expect.receiver.toList) := by
  rw [watch, assertChanged_map]
  unfold assertReceiver
  cases target with
  | none => rfl
  | some target =>
    cases s.setup.receiver with
    | none => rfl
    | some before =>
      cases s.expect.receiver with
      | none => rfl
      | some after => exact bind_pure_unit.symm

theorem assertArgs_eq (c : Context) (sig : Signature) (args : List Expr) (before after : List NodeId) :
    ((args.zip (before.zip after)).zipIdx.forM fun ((arg, before, after), i) =>
      assertArg c sig arg before after i) = assertChanged c (unsettled sig (watch args before after)) := by
  rw [watch, unsettled, List.zipIdx_map, List.filter_map, List.map_map, assertChanged_map, ← forM_guarded]
  congr 1
  funext ⟨⟨arg, before, after⟩, i⟩
  unfold assertArg
  cases hsettled : isSettled sig i arg <;> cases hchanged : changed c.graph before after <;> simp [hsettled, hchanged]

theorem assertGlobals_eq (c : Context) (before after : List CapturedGlobal) :
    ((before.zip after).forM fun (before, after) => assertGlobal c before after) =
      assertChanged c (watch ((after.map (·.global)).map globalCode) (before.map (·.value))
        (after.map (·.value))) := by
  have hpairs : watch ((after.map (·.global)).map globalCode) (before.map (·.value)) (after.map (·.value)) =
      (before.zip after).map fun x => ⟨globalCode x.2.global, x.1.value, x.2.value⟩ := by
    induction before generalizing after with
    | nil => cases after <;> rfl
    | cons b before ih =>
      cases after with
      | nil => rfl
      | cons a after => exact congrArg _ (ih after)
  rw [hpairs, assertChanged_map]
  rfl

/-- After the outcome, all that has changed is asserted, and then the calls out of the code. -/
theorem assertAll_eq (c : Context) (s : Snapshot) (target : Option Expr) (args : List Expr) :
    assertAll c s target args = (do
      assertOutcome c s
      assertChanged c (watched s.signature target args (s.expect.globals.map (·.global)) (moment s.setup)
        (moment s.expect))
      s.outputs.forM (verifyOutput c)) := by
  unfold assertAll watched
  rw [assertReceiver_eq, assertArgs_eq, assertGlobals_eq, assertChanged_append, assertChanged_append, bind_assoc,
    bind_assoc]
  rfl

theorem assertOutcome_asserts : Asserts (assertOutcome c s) (outcomeSubjects s.signature s.outcome) := by
  unfold assertOutcome outcomeSubjects
  cases s.outcome with
  | pending => exact .pure _
  | threw id => exact assertValue_asserts id _
  | returned result =>
    cases result with
    | none => exact .pure _
    | some id =>
      by_cases hvoid : s.signature.isVoid
      · simp only [hvoid, if_true]
        exact .pure _
      · simp only [hvoid]
        exact assertValue_asserts id _

theorem assertChanged_asserts (ws : List (Watched NodeId)) :
    Asserts (assertChanged c ws) ((differing (changed c.graph) ws).map (·.code)) := by
  have hone : ∀ w : Watched NodeId, Asserts (assertValue c w.after w.code) [w.code] := fun w =>
    assertValue_asserts w.after w.code
  rw [List.map_eq_flatMap]
  exact Asserts.forM hone _

theorem verifyOutput_asserts (r : CallRecord) : Asserts (verifyOutput c r) [] := by
  unfold verifyOutput
  have hmatcher : ∀ id, Asserts (matcher c id) [] := describeAt_asserts (c.graph.size + 1)
  refine (Asserts.mapM hmatcher r.args).after fun ms => ?_
  exact .emit _

/-- A test makes assertions about the outcome and what has changed, and about nothing else. -/
theorem assertAll_asserts (target : Option Expr) (args : List Expr) :
    Asserts (assertAll c s target args) (outcomeSubjects s.signature s.outcome ++
      (differing (changed c.graph) (watched s.signature target args (s.expect.globals.map (·.global))
        (moment s.setup) (moment s.expect))).map (·.code)) := by
  rw [assertAll_eq]
  refine assertOutcome_asserts.bind fun _ => ?_
  have houtputs : Asserts (s.outputs.forM (verifyOutput c)) (s.outputs.flatMap fun _ => []) :=
    .forM verifyOutput_asserts _
  rw [List.flatMap_eq_nil_iff.2 fun _ _ => rfl] at houtputs
  exact (assertChanged_asserts _).before fun _ => houtputs

/-- With nothing to look at, nothing is done. -/
theorem assertAll_idle {target : Option Expr} {args : List Expr} (hvoid : s.signature.isVoid)
    (hreturned : ∃ r, s.outcome = .returned r) (houtputs : s.outputs = [])
    (hsame : differing (changed c.graph) (watched s.signature target args (s.expect.globals.map (·.global))
      (moment s.setup) (moment s.expect)) = []) : assertAll c s target args = pure () := by
  have houtcome : assertOutcome c s = pure () := by
    obtain ⟨r, hr⟩ := hreturned
    unfold assertOutcome
    rw [hr]
    cases r with
    | none => rfl
    | some id => exact if_pos hvoid
  rw [assertAll_eq, houtcome, houtputs]
  unfold assertChanged
  rw [hsame]
  rfl

end TestGenerator

end Reenact
