import Mathlib
import Reenact.Generate.TestUnit
import Reenact.Proofs.Description

/-!
One assertion after another. Matchers bound for an earlier assertion may be used by a later one, and
what was bound before all of them stays as it was.
-/

namespace Reenact.Verification

variable {c : Evaluate.Context} {g : Graph} {at_ : ObjectId → NodeId → Prop} {st st' : State}
  {m₀ m m' : Machine} {emitted : List Stmt} {id : NodeId} {e : Expr}

/-- The checks have got to this state and this machine, from a machine that the code under test left. -/
structure Checking (c : Evaluate.Context) (g : Graph) (at_ : ObjectId → NodeId → Prop) (m₀ : Machine)
    (st : State) (m : Machine) : Prop where
  mirrored : Matcher.Mirrored c.types g m₀.heap at_
  stocked : Stocked (Describes c.types g at_ m₀) st m
  active : st.active = []
  later : m₀.Later m
  keeps : m₀.Keeps m
  vacant : m.Vacant st.scope.names

theorem checking_start {m : Machine} {scope : Scope} (hmirrored : Matcher.Mirrored c.types g m.heap at_)
    (hvacant : m.Vacant scope.names) : Checking c g at_ m (.start scope) m where
  mirrored := hmirrored
  stocked := by
    refine stocked_start fun {name p} hahead heq => ?_
    obtain ⟨stem, k, hstem, hk, rfl⟩ := hahead
    cases (hvacant stem k hstem hk).symm.trans heq
  active := rfl
  later := .refl m
  keeps := .refl m
  vacant := hvacant

theorem Checking.step (h : Checking c g at_ m₀ st m) (hframe : Frame c st m emitted st' m')
    (hstocked : Stocked (Describes c.types g at_ m₀) st' m') : Checking c g at_ m₀ st' m' where
  mirrored := h.mirrored
  stocked := hstocked
  active := hframe.active.trans h.active
  later := h.later.trans hframe.later
  keeps := h.keeps.trans (hframe.keeps h.vacant)
  vacant := hframe.vacant h.vacant

/-- Wherever the checks have got to, running what the step emits succeeds. -/
def Passes (c : Evaluate.Context) (g : Graph) (at_ : ObjectId → NodeId → Prop) (m₀ : Machine)
    (x : Describe Unit) : Prop :=
  ∀ st m, Checking c g at_ m₀ st m → Leaves c (Stocked (Describes c.types g at_ m₀)) st m x fun _ _ => True

theorem Passes.skip : Passes c g at_ m₀ (pure ()) := fun _ _ h => .pure h.stocked trivial

theorem Passes.bind {x : Describe Unit} {f : Unit → Describe Unit} (hx : Passes c g at_ m₀ x)
    (hf : Passes c g at_ m₀ (f ())) : Passes c g at_ m₀ (x >>= f) := by
  intro st m h
  refine (hx st m h).bind_frame fun _ emitted st' m' hframe hstocked _ => ?_
  exact hf st' m' (h.step hframe hstocked)

theorem Passes.forM {α : Type} {f : α → Describe Unit} {items : List α}
    (hf : ∀ item ∈ items, Passes c g at_ m₀ (f item)) : Passes c g at_ m₀ (items.forM f) := by
  induction items with
  | nil => exact .skip
  | cons item rest ih =>
    exact (hf item List.mem_cons_self).bind (ih fun a ha => hf a (List.mem_cons_of_mem _ ha))

/-- The code has a value that shows the node, which can be described. -/
def Verifies (c : Evaluate.Context) (g : Graph) (at_ : ObjectId → NodeId → Prop) (m₀ : Machine) (e : Expr)
    (id : NodeId) : Prop :=
  Describable g id ∧ ∃ v, Shows g at_ v id ∧ Evaluate.Yields c m₀ e v

theorem Verifies.passes (h : Verifies c g at_ m₀ e id) :
    Passes c g at_ m₀ (assertValue (context c.types g) id e) := by
  obtain ⟨hdescribable, v, hv, hyields⟩ := h
  intro st m hchecking
  refine assertValue_leaves (describes_reading hchecking.mirrored) hchecking.stocked hchecking.active
    hdescribable (fun p m' hp hm => hp m' (hchecking.later.trans hm) v hv) ?_
  intro emitted expected st' m' _ hframe
  exact hyields m' (hchecking.keeps.trans (hframe.keeps hchecking.vacant))

end Reenact.Verification

namespace Reenact.TestGenerator

open Verification (Verifies Passes context)

variable {c : Evaluate.Context} {g : Graph} {at_ : ObjectId → NodeId → Prop} {m₀ : Machine} {s : Snapshot}
  {target : Expr} {args : List Expr}

theorem assertOutcome_passes (hreturned : ∃ r, s.outcome = .returned r)
    (hresult : ∀ id, s.outcome = .returned (some id) → Verifies c g at_ m₀ (.loc resultLocal) id) :
    Passes c g at_ m₀ (assertOutcome (context c.types g) s) := by
  obtain ⟨r, hr⟩ := hreturned
  unfold assertOutcome
  rw [hr]
  cases r with
  | none => exact .skip
  | some id =>
    dsimp only
    split
    · exact .skip
    · exact (hresult id hr).passes

theorem assertReceiver_passes (hreceiver : ∀ id, s.expect.receiver = some id → Verifies c g at_ m₀ target id) :
    Passes c g at_ m₀ (assertReceiver (context c.types g) s (some target)) := by
  unfold assertReceiver
  split
  · next heq _ hafter =>
    cases heq
    split
    · exact (hreceiver _ hafter).passes
    · exact .skip
  · exact .skip

theorem assertArg_passes {arg : Expr} {before after : NodeId} (i : Nat)
    (harg : Verifies c g at_ m₀ arg after) :
    Passes c g at_ m₀ (assertArg (context c.types g) s.signature arg before after i) := by
  unfold assertArg
  split
  · exact .skip
  · exact harg.passes

private theorem verifies_of_zip {ids : List NodeId} (h : List.Forall₂ (Verifies c g at_ m₀) args ids)
    {before : List NodeId} {item : Expr × NodeId × NodeId} (hitem : item ∈ args.zip (before.zip ids)) :
    Verifies c g at_ m₀ item.1 item.2.2 := by
  induction h generalizing before with
  | nil => cases hitem
  | cons hhead _ ih =>
    cases before with
    | nil => cases hitem
    | cons b before =>
      rcases List.mem_cons.1 hitem with rfl | hrest
      · exact hhead
      · exact ih hrest

/-- Every assertion of a test whose values show what is expected passes. -/
theorem assertAll_passes (hreturned : ∃ r, s.outcome = .returned r)
    (hresult : ∀ id, s.outcome = .returned (some id) → Verifies c g at_ m₀ (.loc resultLocal) id)
    (hreceiver : ∀ id, s.expect.receiver = some id → Verifies c g at_ m₀ target id)
    (hargs : List.Forall₂ (Verifies c g at_ m₀) args s.expect.args) (hglobals : s.setup.globals = [])
    (houtputs : s.outputs = []) : Passes c g at_ m₀ (assertAll (context c.types g) s (some target) args) := by
  unfold assertAll
  refine (assertOutcome_passes hreturned hresult).bind ?_
  refine (assertReceiver_passes hreceiver).bind ?_
  refine Passes.bind (.forM fun item hitem => ?_) ?_
  · exact assertArg_passes item.2 (verifies_of_zip hargs (List.fst_mem_of_mem_zipIdx hitem))
  rw [hglobals, houtputs]
  exact Passes.skip.bind .skip

end Reenact.TestGenerator
