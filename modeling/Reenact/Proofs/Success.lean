import Mathlib
import Reenact.Proofs.Description

/-!
Describing succeeds where every part exists and arrays of primitives hold literals. The nodes that are
being described differ from each other, so no descent uses up its depth.
-/

namespace Reenact.Verification

variable {types : ClassTable} {g : Graph} {active : List NodeId} {id : NodeId} {α β : Type}

/-- While these nodes are being described the step succeeds, after which they still are. -/
def Succeeds (active : List NodeId) (x : Describe α) : Prop :=
  ∀ st, st.active = active → ∃ a st', x st = (.ok a, st') ∧ st'.active = active

namespace Succeeds

theorem pure (a : α) : Succeeds active (pure a : Describe α) := by
  intro st hst
  exact ⟨a, st, rfl, hst⟩

theorem bind {x : Describe α} {f : α → Describe β} (hx : Succeeds active x)
    (hf : ∀ a, Succeeds active (f a)) : Succeeds active (x >>= f) := by
  intro st hst
  obtain ⟨a, st', hrun, hst'⟩ := hx st hst
  obtain ⟨b, st'', hrun', hst''⟩ := hf a st' hst'
  exact ⟨b, st'', (Effect.bind_of_ok hrun).trans hrun', hst''⟩

theorem look {x : Describe α} {f : α → Describe β} {a : α} (hx : ∀ st, x st = (.ok a, st))
    (hf : Succeeds active (f a)) : Succeeds active (x >>= f) := by
  intro st hst
  rw [Effect.bind_of_ok (hx st)]
  exact hf st hst

theorem mapM {f : α → Describe β} {items : List α} (hf : ∀ item ∈ items, Succeeds active (f item)) :
    Succeeds active (items.mapM f) := by
  induction items with
  | nil => exact pure []
  | cons item rest ih =>
    rw [List.mapM_cons]
    refine (hf item List.mem_cons_self).bind fun b => ?_
    refine (ih fun a ha => hf a (List.mem_cons_of_mem _ ha)).bind fun bs => ?_
    exact pure (b :: bs)

theorem addFunctionImport (path : String) : Succeeds active (addFunctionImport path) := by
  intro st hst
  exact ⟨⟨⟩, _, rfl, hst⟩

theorem emit (s : Stmt) : Succeeds active (emit s) := by
  intro st hst
  exact ⟨⟨⟩, _, rfl, hst⟩

theorem matcherCall (name : String) (typeArgs : List Ty) (args : List Expr) :
    Succeeds active (matcherCall name typeArgs args) :=
  (addFunctionImport _).bind fun _ => pure _

theorem within {d : Describe Expr} (hd : Succeeds (id :: active) d) : Succeeds active (within id d) := by
  intro st hst
  obtain ⟨e, st', hrun, hst'⟩ := hd { st with active := id :: st.active } (by rw [hst])
  refine ⟨e, { st' with active := st'.active.erase id }, ?_, ?_⟩
  · unfold Verification.within
    rw [hrun]
  · change st'.active.erase id = active
    rw [hst', List.erase_cons_head]

theorem hoist (id : NodeId) (n : Node) (e : Expr) : Succeeds active (hoist id n e) := by
  intro st hst
  unfold Verification.hoist
  rw [Effect.bind_of_ok (Effect.get_apply st)]
  split
  · exact ⟨_, _, rfl, hst⟩
  · exact ⟨e, st, rfl, hst⟩

end Succeeds

/-- An array of primitives holds literals. -/
def LiteralsOnly (g : Graph) : Node → Prop
  | .composite declared runtime (.array elements) =>
    (Node.composite declared runtime (.array elements)).componentType.isPrimitive →
      ∀ e ∈ elements, ∃ type l, g.get? e = some (.atom (.literal type l))
  | _ => True

/-- Every node reachable from the root exists, and holds literals where it can hold nothing else. -/
def Writable (g : Graph) (root : NodeId) : Prop :=
  ∀ id, Leads g.children root id → ∃ n, g.get? id = some n ∧ LiteralsOnly g n

theorem Writable.child (h : Writable g id) {part : NodeId} (hpart : part ∈ g.children id) :
    Writable g part := fun n hn => h n (.head hpart hn)

theorem literalOf_succeeds {type : Ty} {l : Literal} (hn : g.get? id = some (.atom (.literal type l))) :
    Succeeds active (literalOf (context types g) id) :=
  .look (fun _ => node_apply hn) (.pure _)

section

variable {describe : NodeId → Describe Expr}

theorem elements_succeed (function : String) {elements : List NodeId}
    (hparts : ∀ part ∈ elements, Succeeds active (describe part)) :
    Succeeds active (describeElements describe function elements) :=
  (Succeeds.mapM hparts).bind fun _ => .matcherCall _ _ _

theorem entries_succeed {entries : List (NodeId × NodeId)}
    (hparts : ∀ e ∈ entries, ∀ part ∈ [e.1, e.2], Succeeds active (describe part)) :
    Succeeds active (describeEntries describe entries) := by
  refine (Succeeds.mapM fun e he => ?_).bind fun _ => .matcherCall _ _ _
  refine (hparts e he e.1 (by simp)).bind fun k => ?_
  exact (hparts e he e.2 (by simp)).bind fun v => .matcherCall _ _ _

theorem fieldList_succeeds {fields : List NodeField} {matcher : Expr}
    (hparts : ∀ f ∈ fields, Succeeds active (describe f.value) ∧ ∃ n, g.get? f.value = some n) :
    Succeeds active (describeFieldList (context types g) describe matcher fields) := by
  induction fields generalizing matcher with
  | nil => exact .pure matcher
  | cons f rest ih =>
    obtain ⟨hdescribe, n, hn⟩ := hparts f List.mem_cons_self
    have hfield : Succeeds active (describeField (context types g) describe f.value) := by
      refine .look (fun _ => node_apply hn) ?_
      match n with
      | .atom (.literal _ l) => exact .pure _
      | .atom (.null _) | .constant .. | .composite .. => exact hdescribe
    exact hfield.bind fun _ => ih fun f' hf' => hparts f' (List.mem_cons_of_mem _ hf')

theorem dispatch_succeeds {n : Node} (hliterals : LiteralsOnly g n)
    (hparts : ∀ part ∈ n.children, Succeeds active (describe part) ∧ ∃ n, g.get? part = some n) :
    Succeeds active (dispatch (context types g) describe id n) := by
  match n with
  | .atom (.literal _ _) | .atom (.null _) | .constant .. => exact .matcherCall _ _ _
  | .composite declared runtime (.array elements) =>
    rw [dispatch_array rfl]
    split
    · next hprimitive =>
      refine (Succeeds.mapM fun e he => ?_).bind fun _ => .matcherCall _ _ _
      obtain ⟨type, l, hn⟩ := hliterals hprimitive e he
      exact literalOf_succeeds hn
    · exact elements_succeed _ fun part hpart => (hparts part hpart).1
  | .composite _ _ (.list _) | .composite _ _ (.set _) =>
    exact elements_succeed _ fun part hpart => (hparts part hpart).1
  | .composite _ _ (.map entries) =>
    exact entries_succeed fun e he part hpart => (hparts part (List.mem_flatMap.2 ⟨e, he, hpart⟩)).1
  | .composite declared runtime (.object fields) =>
    have hfields : Succeeds active (describeFields (context types g) describe
        (.composite declared runtime (.object fields)) fields) := by
      refine (Succeeds.addFunctionImport _).bind fun _ => ?_
      refine (fieldList_succeeds fun f hf => hparts _ (List.mem_map.2 ⟨f, hf, rfl⟩)).bind fun _ => ?_
      dsimp only
      split
      · exact .pure _
      · exact .pure _
    exact hfields

end

/-- Each level down adds a node to those being described. -/
theorem describeAt_succeeds (depth : Nat) (hwritable : Writable g id) (hnodup : active.Nodup)
    (hactive : ∀ k ∈ active, k < g.size) (hdepth : g.size < depth + active.length) :
    Succeeds active (describeAt (context types g) depth id) := by
  induction depth generalizing id active with
  | zero =>
    -- there would be more nodes being described than nodes
    have hle : active.length ≤ (List.range g.size).length :=
      (List.subperm_of_subset hnodup fun k hk => List.mem_range.2 (hactive k hk)).length_le
    rw [List.length_range] at hle
    omega
  | succ depth ih =>
    obtain ⟨n, hn, hliterals⟩ := hwritable id .refl
    have hparts : id ∉ active → ∀ part ∈ n.children,
        Succeeds (id :: active) (describeAt (context types g) depth part) ∧
          ∃ n, g.get? part = some n := by
      intro hnew part hpart
      have hchild : part ∈ g.children id := by simpa [Graph.children, hn] using hpart
      refine ⟨ih (hwritable.child hchild) (List.nodup_cons.2 ⟨hnew, hnodup⟩) ?_ ?_, ?_⟩
      · exact List.forall_mem_cons.2 ⟨Graph.lt_size hn, hactive⟩
      · rw [List.length_cons]
        omega
      · obtain ⟨n', hn', -⟩ := hwritable part (.head hchild .refl)
        exact ⟨n', hn'⟩
    intro st hst
    unfold describeAt
    rw [Effect.bind_of_ok (Effect.get_apply st), hst]
    cases findValue? id st.hoisted with
    | some name => exact ⟨_, st, rfl, hst⟩
    | none =>
      dsimp only
      refine Succeeds.look (fun _ => node_apply hn) ?_ st hst
      split
      · exact .matcherCall _ _ _
      · next hnew =>
        exact (Succeeds.within (dispatch_succeeds hliterals (hparts hnew))).bind fun e => .hoist id n e

variable (types) in
theorem assertValue_succeeds (hwritable : Writable g id) (actual : Expr) :
    Succeeds [] (assertValue (context types g) id actual) := by
  have hmatcher : Succeeds [] (matcher (context types g) id) :=
    describeAt_succeeds _ hwritable .nil (by simp) (by simp)
  have hroot : Succeeds [] (describeRoot (context types g) id) := by
    intro st hst
    unfold describeRoot
    rw [Effect.bind_of_ok (Effect.modify_apply _ st)]
    exact hmatcher _ hst
  refine hroot.bind fun expected => ?_
  exact (Succeeds.addFunctionImport _).bind fun _ => .emit _

end Reenact.Verification
