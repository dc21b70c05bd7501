import Mathlib
import Reenact.Proofs.Reconstruction

/-!
Capturing a value, generating the code that rebuilds it and running that code gives the value again,
up to where its objects are.
-/

namespace Reenact.Reconstruction

variable {types : ClassTable} {g : Graph} {s : State} {m : Machine}

theorem ready_start (scope : Scope) (h₀ : Heap) : Ready g (.start scope) (.start h₀) where
  bound hl := by cases hl
  composite hl := by cases hl
  injective ha := by
    obtain ⟨l, hl, _⟩ := ha
    cases hl
  free _ _ _ _ := rfl
  numbered _ := rfl
  keys := .nil

theorem not_at_start {scope : Scope} {h₀ : Heap} {a : ObjectId} {n : NodeId} :
    ¬ At (.start scope) (.start h₀) a n := by
  rintro ⟨l, hl, _⟩
  cases hl

/-- The second object was built for the node that the first one became. -/
def Stands (met : ObjectId → NodeId → Prop) (s : State) (m : Machine) (a b : ObjectId) : Prop :=
  ∃ n, met a n ∧ At s m b n

section

variable {h : Heap} {met : ObjectId → NodeId → Prop} (hc : Captured h types g met) (hready : Ready g s m)
include hc hready

/-- Two values that one node shows are the same, and objects behind one node stand for each other. -/
theorem renamed_of_shows {v w : Value} {n : NodeId} (hv : Shows g met v n) (hw : Shows g (At s m) w n) :
    Renamed (Stands met s m) v w := by
  rcases shows_cases hv with ⟨p, rfl, hp⟩ | ⟨a, rfl, ha⟩ <;>
    rcases shows_cases hw with ⟨q, rfl, hq⟩ | ⟨b, rfl, hb⟩
  · cases hp.symm.trans hq
    cases p <;> exact rfl
  · obtain ⟨l, hl, _⟩ := hb
    obtain ⟨_, _, _, hn⟩ := hready.composite hl
    simp [Graph.inspect, hn] at hp
  · exact absurd hq (hc.inspect ha)
  · exact ⟨n, ha, hb⟩

theorem stands_unique : Relator.BiUnique (Stands met s m) := by
  constructor
  · rintro a a' b ⟨n, ha, hb⟩ ⟨n', ha', hb'⟩
    cases hready.injective hb hb'
    exact hc.injective ha ha'
  · rintro a b b' ⟨n, ha, hb⟩ ⟨n', ha', hb'⟩
    cases hc.functional ha ha'
    exact hb.unique hb'

/-- If every object that was built is complete, it has what the captured one has. -/
theorem stands_linked (hbuilt : ∀ {a n}, At s m a n → Rebuilt types g m.heap (At s m) a n) :
    Linked types h m.heap (Stands met s m) := by
  rintro a b ⟨n, ha, hb⟩
  obtain ⟨o, slots, declared, content, ho, hslots, hn, hrel⟩ := hc.holds ha
  obtain ⟨o', slots', declared', runtime, content', ho', hslots', hn', hclass, hrel'⟩ := hbuilt hb
  cases hn.symm.trans hn'
  refine ⟨o, o', slots, slots', ho, ho', hslots, hslots', hclass, (hrel.join hrel').imp ?_⟩
  rintro x y ⟨k, hx, hy⟩
  exact renamed_of_shows hc hready hx hy

end

private theorem eq_of_codeType {c : Context} {id : NodeId} {type : Ty} {s s' : State}
    (h : codeType c id s = (.ok type, s')) : s' = s := by
  cases hl : findValue? id s.built with
  | some l =>
    rw [codeType_of_built c hl] at h
    cases h
    rfl
  | none =>
    cases hn : c.graph.get? id with
    | some n =>
      obtain ⟨t, htype, _⟩ := codeType_of_node hl hn
      cases htype.symm.trans h
      rfl
    | none =>
      unfold codeType at h
      rw [Effect.bind_of_ok (Effect.get_apply s), hl] at h
      have hmissing : node c id = throw (.graph (.missingValue id)) := by
        simp only [node, Graph.node, hn]
      simp only [hmissing] at h
      cases h

theorem compute_ok {c : Context} {id : NodeId} {code : Computation} {s s' : State}
    (h : compute c id none s = (.ok code, s')) :
    ∃ s₁, value c id s = (.ok code.value, s₁) ∧ s₁.statements = code.statements := by
  unfold compute at h
  obtain ⟨e, s₁, hvalue, hrest⟩ := Effect.bind_ok.1 h
  obtain ⟨type, s₂, htype, hrest⟩ := Effect.bind_ok.1 hrest
  obtain ⟨stmts, s₃, htake, hpure⟩ := Effect.bind_ok.1 hrest
  cases hpure
  cases htake
  exact ⟨s₁, hvalue, by rw [eq_of_codeType htype]⟩

/-- Capture, reconstruction and evaluation give the value again. -/
theorem rebuilt_isomorphic {h : Heap} {v : Value} (ht : types.ExtendsBuiltin)
    (hv : h.WellFormed types v) {declared : Ty} {g₀ : Graph} {i : Interner} {n : NodeId}
    {t : Serialization.State}
    (hcapture : Serialization.node ⟨h, types, Serialization.standard⟩ v declared (.start g₀ i) =
      (.ok n, t))
    (htyped : t.graph.WellTyped n) {scope : Scope} {code : Computation} {s' : State}
    (hbuild : compute (context types t.graph) n none (.start scope) = (.ok code, s')) (h₀ : Heap) :
    ∃ w m, (do Evaluate.run (.bare types) code.statements; Evaluate.expr (.bare types) code.value)
        (.start h₀) = (.ok (.live w), m) ∧
      Isomorphic types h v m.heap w := by
  obtain ⟨n', t', hrun, hgrows, htidy, hshows⟩ := Serialization.node_succeeds types v declared
    hv.readable (Serialization.tidy_of_identities_eq_nil rfl : Serialization.Tidy (.start g₀ i))
  cases hcapture.symm.trans hrun
  have hc := hgrows.captured rfl htidy
  have hsound := hc.sound hshows hv htyped
  obtain ⟨s₁, hvalue, hstatements⟩ := compute_ok hbuild
  obtain ⟨emitted, m, hemitted, hrun', hready, hgrows', w, hw, hyields⟩ :=
    (run_simulated ht _).1 (ready_start scope h₀) hsound _ _ hvalue
  have hcode : code.statements = emitted := by
    rw [← hstatements, hemitted]
    rfl
  have hlinked := stands_linked hc hready fun hat => (hgrows'.new hat).elim
    (fun hold => absurd hold not_at_start) fun hnew => hnew.2.2
  have hunique := stands_unique hc hready
  refine ⟨w, m, ?_, Stands _ _ _, hlinked.isomorphism (renamed_of_shows hc hready hshows hw)
    (fun h h' => hunique.2 h h') fun h h' => hunique.1 h h'⟩
  rw [hcode, Effect.bind_of_ok hrun', hyields.eval]

/-- A list that holds itself and a wrapper twice. -/
theorem rebuilt_loop_isomorphic :
    let loop : Heap := ⟨#[⟨.ofClass "ArrayList", .list [.object 0, .object 1, .object 1], false⟩,
      ⟨.ofClass "collections::SingletonList", .list [.null], false⟩]⟩
    ∃ n t code s', Serialization.node ⟨loop, .builtin, Serialization.standard⟩ (.object 0) .object
        (.start .empty .empty) = (.ok n, t) ∧
      compute (context .builtin t.graph) n none (.start .empty) = (.ok code, s') ∧
      ∃ w m, (do Evaluate.run (.bare .builtin) code.statements; Evaluate.expr (.bare .builtin) code.value)
          (.start loop) = (.ok (.live w), m) ∧
        Isomorphic .builtin loop (.object 0) m.heap w := by
  intro loop
  let captured := Serialization.node ⟨loop, .builtin, Serialization.standard⟩ (.object 0) .object
    (.start .empty .empty)
  let built := compute (context .builtin captured.2.graph) 0 none (.start .empty)
  have hcapture : captured = (.ok 0, captured.2) := Effect.ok_of_toOption (by decide +kernel)
  obtain ⟨code, hcode⟩ := Option.isSome_iff_exists.1
    (by decide +kernel : built.1.toOption.isSome = true)
  have hbuild : built = (.ok code, built.2) := Effect.ok_of_toOption hcode
  exact ⟨0, _, code, _, hcapture, hbuild, rebuilt_isomorphic ClassTable.builtin_extendsBuiltin
    (by decide +kernel) hcapture (by decide +kernel) hbuild loop⟩

end Reenact.Reconstruction
