import Mathlib
import Reenact.Proofs.Graph
import Reenact.Proofs.Sameness

/-!
Graphs that look atoms up in an index, and take the instances that they hold from an interner which other
graphs use as well. The index holds the atoms of the graph and no others, so an atom has one node for ever, and
what the interner holds or forgets in between does not show.
-/

namespace Reenact

/-- Of one type, and literals with one key or both null. -/
def Atom.same : Atom → Atom → Bool
  | .literal type value, .literal type' value' => type == type' && value.key == value'.key
  | .null type, .null type' => type == type'
  | _, _ => false

theorem Atom.same_iff {a b : Atom} : a.same b ↔ a = b := by
  cases a <;> cases b <;> simp [same, Literal.key_inj]

/-- The atom under which an interner has an instance of an atom, or is going to have it. -/
def Interner.held (i : Interner) (a : Atom) : Atom := ((i.instances.find? (·.1.same a)).map (·.1)).getD a

theorem Interner.held_eq (i : Interner) (a : Atom) : i.held a = a := by
  unfold held
  cases h : i.instances.find? (·.1.same a) with
  | none => rfl
  | some entry =>
    have hsame := List.find?_some h
    exact Atom.same_iff.1 hsame

/-- A graph with an index of its atoms. -/
structure IndexedGraph where
  graph : Graph
  ids : List (Atom × NodeId)

namespace IndexedGraph

def empty : IndexedGraph := ⟨Graph.empty, []⟩

/-- The last id there is. Nodes beyond it would all be called by it. -/
def maxId : NodeId := 2 ^ 32 - 1

def push (x : IndexedGraph) (n : Node) : IndexedGraph × NodeId :=
  ({ x with graph := (x.graph.push n).1 }, min x.graph.size maxId)

def id? (x : IndexedGraph) (a : Atom) : Option NodeId := (x.ids.find? (·.1.same a)).map (·.2)

/-- The node of an atom. The interner is asked only for an atom that is not in the index. -/
def atom (x : IndexedGraph) (i : Interner) (a : Atom) : IndexedGraph × Interner × NodeId :=
  match x.id? a with
  | some id => (x, i, id)
  | none =>
    let (y, id) := x.push (.atom (i.held a))
    ({ y with ids := (a, id) :: y.ids }, (i.intern a).1, id)

def insert (x : IndexedGraph) (i : Interner) : Node → IndexedGraph × Interner × NodeId
  | .atom a => x.atom i a
  | n => ((x.push n).1, i, (x.push n).2)

def extend (x : IndexedGraph) (id : NodeId) (parts : Graph.Parts) : IndexedGraph :=
  { x with graph := (x.graph.extend id parts).1 }

end IndexedGraph

/-- What is asked of a graph: the node of an atom, a place for a node, or more parts for a composite node. -/
inductive GraphCall where
  | atom (a : Atom)
  | insert (n : Node)
  | append (id : NodeId) (parts : Graph.Parts)

namespace GraphCall

/-- The atom that is requested or inserted. -/
def requested? : GraphCall → Option Atom
  | atom a | insert (.atom a) => some a
  | _ => none

/-- What a graph becomes that has no index, with the id that is answered. -/
def on (g : Graph) : GraphCall → Graph × Option NodeId
  | atom a => ((g.atom a).1, some (g.atom a).2)
  | insert n => ((g.insert n).1, some (g.insert n).2)
  | append id parts => ((g.extend id parts).1, none)

theorem eq_of_requested {c : GraphCall} {a : Atom} (ha : c.requested? = some a) :
    c = .atom a ∨ c = .insert (.atom a) := by
  cases c with
  | atom a' =>
    cases ha
    exact .inl rfl
  | insert n =>
    cases n with
    | atom a' =>
      cases ha
      exact .inr rfl
    | constant => cases ha
    | composite => cases ha
  | append id parts => cases ha

theorem on_of_requested {c : GraphCall} {a : Atom} (ha : c.requested? = some a) (g : Graph) :
    c.on g = ((g.atom a).1, some (g.atom a).2) := by
  obtain rfl | rfl := eq_of_requested ha <;> rfl

/-- A node that is no atom is put behind all others. -/
theorem on_insert {n : Node} (hn : ∀ a, n ≠ .atom a) (g : Graph) :
    (GraphCall.insert n).on g = ((g.push n).1, some g.size) := by
  cases n with
  | atom a => exact absurd rfl (hn a)
  | constant => rfl
  | composite => rfl

/-- A call asks for an atom, or for a place for another node, or adds parts. -/
theorem sorts (c : GraphCall) : (∃ a, c.requested? = some a) ∨ (∃ n, c = .insert n ∧ ∀ a, n ≠ .atom a) ∨
    ∃ id parts, c = .append id parts := by
  cases c with
  | atom a => exact .inl ⟨a, rfl⟩
  | insert n =>
    cases n with
    | atom a => exact .inl ⟨a, rfl⟩
    | constant => exact .inr (.inl ⟨_, rfl, by simp⟩)
    | composite => exact .inr (.inl ⟨_, rfl, by simp⟩)
  | append id parts => exact .inr (.inr ⟨id, parts, rfl⟩)

end GraphCall

namespace IndexedGraph

def call (x : IndexedGraph) (i : Interner) : GraphCall → IndexedGraph × Interner × Option NodeId
  | .atom a => ((x.atom i a).1, (x.atom i a).2.1, some (x.atom i a).2.2)
  | .insert n => ((x.insert i n).1, (x.insert i n).2.1, some (x.insert i n).2.2)
  | .append id parts => (x.extend id parts, i, none)

theorem call_of_requested {c : GraphCall} {a : Atom} (ha : c.requested? = some a) (x : IndexedGraph)
    (i : Interner) : x.call i c = ((x.atom i a).1, (x.atom i a).2.1, some (x.atom i a).2.2) := by
  obtain rfl | rfl := GraphCall.eq_of_requested ha <;> rfl

theorem call_insert {n : Node} (hn : ∀ a, n ≠ .atom a) (x : IndexedGraph) (i : Interner) :
    x.call i (.insert n) = ((x.push n).1, i, some (x.push n).2) := by
  cases n with
  | atom a => exact absurd rfl (hn a)
  | constant => rfl
  | composite => rfl

end IndexedGraph

/-- Any number of graphs over one interner. -/
structure Workspace where
  graphs : ℕ → IndexedGraph
  interner : Interner

namespace Workspace

/-- A call of one of the graphs, or something that is done to the interner by somebody else. -/
inductive Step where
  | call (k : ℕ) (c : GraphCall)
  | intern (a : Atom)
  | clear

def step (w : Workspace) : Step → Workspace × Option NodeId
  | .call k c =>
    let (x, i, reply) := (w.graphs k).call w.interner c
    (⟨Function.update w.graphs k x, i⟩, reply)
  | .intern a => (⟨w.graphs, (w.interner.intern a).1⟩, none)
  | .clear => (⟨w.graphs, w.interner.clear⟩, none)

def after (w : Workspace) (steps : List Step) : Workspace := steps.foldl (fun w s => (w.step s).1) w

def start : Workspace := ⟨fun _ => .empty, .empty⟩

/-- Every node of every graph can have an id. -/
def Fits (w : Workspace) : Prop := ∀ k, (w.graphs k).graph.size < 2 ^ 32

end Workspace

namespace Graph

variable {g : Graph} {id m : NodeId}

theorem get?_push_of_lt (n : Node) (hm : m < g.size) : (g.push n).1.get? m = g.get? m := by
  rw [get?_push, if_neg hm.ne]

theorem get?_push_eq_atom {n : Node} (hn : ∀ a, n ≠ .atom a) {a : Atom} :
    (g.push n).1.get? m = some (.atom a) ↔ g.get? m = some (.atom a) := by
  rw [get?_push]
  split
  case isTrue hm =>
    have hnone : g.get? m = none := by simp [get?, hm, size]
    simp [hnone, hn a]
  case isFalse => rfl

theorem extend_eq_self {parts : Parts} {n : Node} (hn : g.get? id = some n) (hplain : n.isReference = false) :
    (g.extend id parts).1 = g := by
  unfold extend
  rw [hn]
  cases n with
  | composite => cases hplain
  | _ => rfl

theorem size_extend (parts : Parts) : (g.extend id parts).1.size = g.size := by
  unfold extend
  split
  · exact size_setContent _
  · rfl

theorem get?_extend_of_ne (parts : Parts) (hne : m ≠ id) : (g.extend id parts).1.get? m = g.get? m := by
  unfold extend
  split
  · exact get?_setContent_of_ne _ hne
  · rfl

theorem get?_extend_eq_atom {parts : Parts} {a : Atom} :
    (g.extend id parts).1.get? m = some (.atom a) ↔ g.get? m = some (.atom a) := by
  unfold extend
  split
  case h_1 declared runtime content hid =>
    by_cases hm : m = id
    · subst hm
      simp [get?_setContent _ hid, hid]
    · rw [get?_setContent_of_ne _ hm]
  case h_2 => rfl

end Graph

namespace IndexedGraph

variable {x : IndexedGraph} {i : Interner} {a : Atom} {id : NodeId} {n : Node}

/-- The index has the atoms of the graph, each under the id of its only node. -/
def InStep (x : IndexedGraph) : Prop := ∀ a id, x.id? a = some id ↔ x.graph.get? id = some (.atom a)

theorem inStep_empty : empty.InStep := fun a id => by simp [empty, id?, Graph.empty, Graph.get?]

theorem id?_cons (g : Graph) (b : Atom) (ids : List (Atom × NodeId)) (id : NodeId) :
    (⟨g, (b, id) :: ids⟩ : IndexedGraph).id? a = if b = a then some id else (⟨g, ids⟩ : IndexedGraph).id? a := by
  unfold id?
  rw [List.find?_cons]
  by_cases h : b = a
  · rw [if_pos h, (Atom.same_iff.2 h : b.same a = true)]
    rfl
  · rw [if_neg h, Bool.eq_false_iff.2 (mt Atom.same_iff.1 h)]

theorem push_eq (hx : x.graph.size < 2 ^ 32) :
    x.push n = (⟨(x.graph.push n).1, x.ids⟩, x.graph.size) := by
  have hid : min x.graph.size maxId = x.graph.size := Nat.min_eq_left (Nat.le_sub_one_of_lt hx)
  rw [push, hid]

/-- The index finds the node that a search of the whole graph finds. -/
theorem InStep.atomId?_eq (hx : x.InStep) : x.graph.atomId? a = x.id? a := by
  cases hid : x.graph.atomId? a with
  | some id => exact ((hx a id).2 (Graph.get?_of_atomId? hid)).symm
  | none =>
    cases hid' : x.id? a with
    | none => rfl
    | some id =>
      have hget := (hx a id).1 hid'
      rw [Graph.atomId?, Array.findIdx?_eq_none_iff] at hid
      have hne := hid _ (Array.mem_of_getElem? hget)
      simp at hne

theorem InStep.atom_eq (hx : x.InStep) (hlt : x.graph.size < 2 ^ 32) :
    (x.atom i a).1.graph = (x.graph.atom a).1 ∧ (x.atom i a).2.2 = (x.graph.atom a).2 := by
  unfold atom Graph.atom
  rw [hx.atomId?_eq]
  cases x.id? a with
  | some id => exact ⟨rfl, rfl⟩
  | none =>
    rw [push_eq hlt, Interner.held_eq]
    exact ⟨rfl, rfl⟩

theorem InStep.atom (hx : x.InStep) (hlt : x.graph.size < 2 ^ 32) : (x.atom i a).1.InStep := by
  unfold IndexedGraph.atom
  cases hid : x.id? a with
  | some id => exact hx
  | none =>
    rw [push_eq hlt, Interner.held_eq]
    intro b m
    rw [id?_cons, Graph.get?_push]
    have hnew : x.graph.get? x.graph.size = none := by simp [Graph.get?, Graph.size]
    by_cases hb : a = b <;> by_cases hm : m = x.graph.size
    · simp [hb, hm]
    · subst hb
      have hget : x.graph.get? m ≠ some (.atom a) := fun hget => by simp [(hx a m).2 hget] at hid
      simp [hm, Ne.symm hm, hget]
    · have hget : x.id? b ≠ some m := fun hget => by
        have hold := (hx b m).1 hget
        rw [hm, hnew] at hold
        cases hold
      rw [if_neg hb, if_pos hm]
      exact iff_of_false hget (by simp [hb])
    · rw [if_neg hb, if_neg hm]
      exact hx b m

theorem InStep.push (hx : x.InStep) (hn : ∀ a, n ≠ .atom a) : (x.push n).1.InStep := fun a id =>
  (hx a id).trans (Graph.get?_push_eq_atom hn).symm

theorem InStep.extend (hx : x.InStep) (parts : Graph.Parts) : (x.extend id parts).InStep := fun a m =>
  (hx a m).trans Graph.get?_extend_eq_atom.symm

/-- A call keeps index and graph in step. -/
theorem InStep.call (hx : x.InStep) (hlt : x.graph.size < 2 ^ 32) (c : GraphCall) : (x.call i c).1.InStep := by
  obtain ⟨a, ha⟩ | ⟨n, rfl, hn⟩ | ⟨id, parts, rfl⟩ := c.sorts
  · rw [call_of_requested ha]
    exact hx.atom hlt
  · rw [call_insert hn]
    exact hx.push hn
  · exact hx.extend parts

/-- In step with its graph, the index makes no difference to what a call does and answers. -/
theorem InStep.call_eq (hx : x.InStep) (hlt : x.graph.size < 2 ^ 32) (c : GraphCall) :
    ((x.call i c).1.graph, (x.call i c).2.2) = c.on x.graph := by
  obtain ⟨a, ha⟩ | ⟨n, rfl, hn⟩ | ⟨id, parts, rfl⟩ := c.sorts
  · rw [call_of_requested ha, GraphCall.on_of_requested ha, ← (hx.atom_eq (i := i) hlt).1,
      ← (hx.atom_eq (i := i) hlt).2]
  · rw [call_insert hn, GraphCall.on_insert hn, push_eq hlt]
  · rfl

theorem size_call (x : IndexedGraph) (i : Interner) (c : GraphCall) :
    (x.call i c).1.graph.size = x.graph.size ∨ (x.call i c).1.graph.size = x.graph.size + 1 := by
  obtain ⟨a, ha⟩ | ⟨n, rfl, hn⟩ | ⟨id, parts, rfl⟩ := c.sorts
  · rw [call_of_requested ha]
    unfold IndexedGraph.atom
    cases x.id? a with
    | some id => exact .inl rfl
    | none => exact .inr (Graph.size_push _)
  · rw [call_insert hn]
    exact .inr (Graph.size_push _)
  · exact .inl (Graph.size_extend parts)

end IndexedGraph

namespace Graph

variable {g : Graph} {id : NodeId}

/-- A call leaves every node as it is, the composite node apart that it adds parts to. -/
theorem get?_on {n : Node} (hn : g.get? id = some n) (c : GraphCall) :
    ∃ n', (c.on g).1.get? id = some n' ∧ (n' = n ∨ ∃ parts declared runtime content,
      c = .append id parts ∧ n = .composite declared runtime content ∧
        n' = .composite declared runtime (Content.extend parts content)) := by
  have hpush : ∀ m, (g.push m).1.get? id = some n := fun m => by rw [get?_push_of_lt m (lt_size hn), hn]
  obtain ⟨a, ha⟩ | ⟨m, rfl, hm⟩ | ⟨m, parts, rfl⟩ := c.sorts
  · rw [GraphCall.on_of_requested ha, atom]
    cases g.atomId? a with
    | some _ => exact ⟨n, hn, .inl rfl⟩
    | none => exact ⟨n, hpush _, .inl rfl⟩
  · rw [GraphCall.on_insert hm]
    exact ⟨n, hpush m, .inl rfl⟩
  · show ∃ n', (g.extend m parts).1.get? id = some n' ∧ _
    by_cases hm : id = m
    · subst hm
      cases n with
      | atom a => exact ⟨_, by rw [extend_eq_self hn rfl, hn], .inl rfl⟩
      | constant => exact ⟨_, by rw [extend_eq_self hn rfl, hn], .inl rfl⟩
      | composite declared runtime content =>
        refine ⟨_, ?_, .inr ⟨parts, declared, runtime, content, rfl, rfl, rfl⟩⟩
        unfold extend
        rw [hn]
        exact get?_setContent _ hn
    · exact ⟨n, by rw [get?_extend_of_ne parts hm, hn], .inl rfl⟩

theorem get?_on_atom {a : Atom} (h : g.get? id = some (.atom a)) (c : GraphCall) :
    (c.on g).1.get? id = some (.atom a) := by
  obtain ⟨n, hn, rfl | ⟨_, _, _, _, _, hcomposite, _⟩⟩ := get?_on h c
  · exact hn
  · cases hcomposite

/-- The node of an atom holds it. -/
theorem get?_atom (g : Graph) (a : Atom) : (g.atom a).1.get? (g.atom a).2 = some (.atom a) := by
  unfold atom
  cases hid : g.atomId? a with
  | some id => exact get?_of_atomId? hid
  | none =>
    show (g.push _).1.get? g.size = _
    rw [get?_push, if_pos rfl]

end Graph

namespace Workspace

variable {w : Workspace} {k j : ℕ} {c : GraphCall} {s : Step} {steps : List Step}

/-- Every index of a workspace is in step with its graph. -/
def InStep (w : Workspace) : Prop := ∀ k, (w.graphs k).InStep

theorem after_append (w : Workspace) (steps more : List Step) :
    w.after (steps ++ more) = (w.after steps).after more := List.foldl_append

theorem after_concat (w : Workspace) (steps : List Step) (s : Step) :
    w.after (steps ++ [s]) = ((w.after steps).step s).1 := by
  rw [after_append]
  rfl

theorem graphs_step_call_self (w : Workspace) (k : ℕ) (c : GraphCall) :
    (w.step (.call k c)).1.graphs k = ((w.graphs k).call w.interner c).1 := Function.update_self _ _ _

theorem graphs_step_of_ne (w : Workspace) (hs : ∀ c, s ≠ .call j c) : (w.step s).1.graphs j = w.graphs j := by
  cases s with
  | call k c =>
    have hne : j ≠ k := fun h => hs c (by rw [h])
    exact Function.update_of_ne hne _ _
  | intern a => rfl
  | clear => rfl

/-- A step does to a graph what the call does to it that the step makes there, if any. -/
theorem InStep.graph_step (hw : w.InStep) (hfits : w.Fits) (s : Step) (j : ℕ) :
    (∃ c, s = .call j c ∧ ((w.step s).1.graphs j).graph = (c.on (w.graphs j).graph).1) ∨
      ((∀ c, s ≠ .call j c) ∧ (w.step s).1.graphs j = w.graphs j) := by
  by_cases hs : ∃ c, s = .call j c
  · obtain ⟨c, rfl⟩ := hs
    refine .inl ⟨c, rfl, ?_⟩
    rw [graphs_step_call_self, ← (hw j).call_eq (i := w.interner) (hfits j)]
  · have hs := not_exists.1 hs
    exact .inr ⟨hs, graphs_step_of_ne w hs⟩

theorem InStep.step (hw : w.InStep) (hfits : w.Fits) (s : Step) : (w.step s).1.InStep := by
  intro j
  by_cases hs : ∃ c, s = .call j c
  · obtain ⟨c, rfl⟩ := hs
    rw [graphs_step_call_self]
    exact (hw j).call (hfits j) c
  · rw [graphs_step_of_ne w (not_exists.1 hs)]
    exact hw j

theorem size_step (w : Workspace) (s : Step) (j : ℕ) :
    ((w.step s).1.graphs j).graph.size = (w.graphs j).graph.size ∨
      ((w.step s).1.graphs j).graph.size = (w.graphs j).graph.size + 1 := by
  by_cases hs : ∃ c, s = .call j c
  · obtain ⟨c, rfl⟩ := hs
    rw [graphs_step_call_self]
    exact IndexedGraph.size_call _ _ c
  · rw [graphs_step_of_ne w (not_exists.1 hs)]
    exact .inl rfl

theorem size_after (w : Workspace) (steps : List Step) (j : ℕ) :
    (w.graphs j).graph.size ≤ ((w.after steps).graphs j).graph.size ∧
      ((w.after steps).graphs j).graph.size ≤ (w.graphs j).graph.size + steps.length := by
  induction steps using List.reverseRecOn with
  | nil => exact ⟨le_rfl, le_rfl⟩
  | append_singleton steps s ih =>
    rw [after_concat, List.length_append, List.length_singleton]
    have := size_step (w.after steps) s j
    omega

theorem Fits.of_after (h : (w.after steps).Fits) : w.Fits := fun k => (size_after w steps k).1.trans_lt (h k)

theorem fits_start_after (h : steps.length < 2 ^ 32) : (start.after steps).Fits := fun k => by
  have hsize := (size_after start steps k).2
  have hstart : (start.graphs k).graph.size = 0 := rfl
  omega

theorem inStep_start : start.InStep := fun _ => IndexedGraph.inStep_empty

/-- The indexes are in step along every run that fits. -/
theorem InStep.after (hw : w.InStep) (hfits : (w.after steps).Fits) : (w.after steps).InStep := by
  induction steps using List.reverseRecOn with
  | nil => exact hw
  | append_singleton steps s ih =>
    rw [after_append] at hfits
    rw [after_concat]
    exact (ih hfits.of_after).step hfits.of_after s

/-- The node of an atom is there along every run that fits. -/
theorem InStep.get?_after (hw : w.InStep) (hfits : (w.after steps).Fits) {id : NodeId} {a : Atom}
    (h : (w.graphs j).graph.get? id = some (.atom a)) :
    ((w.after steps).graphs j).graph.get? id = some (.atom a) := by
  induction steps using List.reverseRecOn with
  | nil => exact h
  | append_singleton steps s ih =>
    rw [after_append] at hfits
    rw [after_concat]
    have hbefore := ih hfits.of_after
    obtain ⟨c, -, hgraph⟩ | ⟨-, hgraph⟩ := (hw.after hfits.of_after).graph_step hfits.of_after s j
    · rw [hgraph]
      exact Graph.get?_on_atom hbefore c
    · rw [hgraph]
      exact hbefore

/-- A call on a graph answers as the library's graph does. -/
theorem InStep.call_eq (hw : w.InStep) (hfits : w.Fits) (k : ℕ) (c : GraphCall) :
    (((w.step (.call k c)).1.graphs k).graph, (w.step (.call k c)).2) = c.on (w.graphs k).graph := by
  rw [graphs_step_call_self]
  exact (hw k).call_eq (hfits k) c

/-- A step leaves every node as it is, the composite node apart that it adds parts to. -/
theorem InStep.get?_step (hw : w.InStep) (hfits : w.Fits) (s : Step) {id : NodeId} {n : Node}
    (hn : (w.graphs j).graph.get? id = some n) :
    ∃ n', ((w.step s).1.graphs j).graph.get? id = some n' ∧ (n' = n ∨ ∃ parts declared runtime content,
      s = .call j (.append id parts) ∧ n = .composite declared runtime content ∧
        n' = .composite declared runtime (Graph.Content.extend parts content)) := by
  obtain ⟨c, rfl, hgraph⟩ | ⟨-, hgraph⟩ := hw.graph_step hfits s j
  · rw [hgraph]
    obtain ⟨n', hn', rfl | ⟨parts, declared, runtime, content, rfl, hchanged⟩⟩ := Graph.get?_on hn c
    · exact ⟨n', hn', .inl rfl⟩
    · exact ⟨n', hn', .inr ⟨parts, declared, runtime, content, rfl, hchanged⟩⟩
  · exact ⟨n, by rw [hgraph, hn], .inl rfl⟩

theorem InStep.requested (hw : w.InStep) (hfits : w.Fits) {a : Atom} (ha : c.requested? = some a) :
    ∃ id, (w.step (.call k c)).2 = some id ∧ ((w.step (.call k c)).1.graphs k).graph.get? id = some (.atom a) := by
  have hcall := hw.call_eq hfits k c
  rw [GraphCall.on_of_requested ha] at hcall
  obtain ⟨hgraph, hreply⟩ := Prod.mk.inj hcall
  rw [hgraph]
  exact ⟨_, hreply, Graph.get?_atom _ a⟩

/-- The answer to a request of another atom is another id, and to one of the same atom the same id. -/
theorem InStep.requested_again (hw : w.InStep) (hfits : w.Fits) {id : NodeId} {a b : Atom}
    (h : (w.graphs k).graph.get? id = some (.atom a)) (hb : c.requested? = some b) :
    ∃ id', (w.step (.call k c)).2 = some id' ∧ (id' = id ↔ b.same a) := by
  have hcall := hw.call_eq hfits k c
  rw [GraphCall.on_of_requested hb] at hcall
  refine ⟨_, (Prod.mk.inj hcall).2, ?_⟩
  rw [Atom.same_iff]
  constructor
  · intro hid
    have hboth := Graph.get?_on_atom h (.atom b)
    rw [← hid] at hboth
    cases hboth.symm.trans (Graph.get?_atom _ b)
    rfl
  · rintro rfl
    have hknown : (w.graphs k).graph.atomId? b = some id := by rw [(hw k).atomId?_eq, (hw k b id).2 h]
    rw [Graph.atom, hknown]

/-- In every run over a common interner, whatever is done to it: graphs do what they do without index and
interner; a requested atom has its node for ever, and of later requests those of the same atom and no others are
answered by it; any other node is inserted under a new id; and no step touches a node that is there, but for the
parts that it adds to a composite one. -/
theorem atoms_unique_ids_stable (before between : List Step) (k : ℕ) (c : GraphCall)
    (hfits : (start.after (before ++ .call k c :: between)).Fits) :
    let w := start.after before
    let called := w.step (.call k c)
    let now := called.1.after between
    (((called.1.graphs k).graph, called.2) = c.on (w.graphs k).graph) ∧
    (∀ a, c.requested? = some a → ∃ id, called.2 = some id ∧ (now.graphs k).graph.get? id = some (.atom a) ∧
      ∀ c' b, c'.requested? = some b → ∃ id', (now.step (.call k c')).2 = some id' ∧ (id' = id ↔ b.same a)) ∧
    (∀ n, c = .insert n → (∀ a, n ≠ .atom a) → ∃ id, called.2 = some id ∧ (w.graphs k).graph.get? id = none ∧
      (called.1.graphs k).graph.get? id = some n) ∧
    ∀ s j id n, (now.graphs j).graph.get? id = some n → ∃ n', ((now.step s).1.graphs j).graph.get? id = some n' ∧
      (n' = n ∨ ∃ parts declared runtime content, s = .call j (.append id parts) ∧
        n = .composite declared runtime content ∧
        n' = .composite declared runtime (Graph.Content.extend parts content)) := by
  intro w called now
  have hnow : start.after (before ++ .call k c :: between) = now := by
    rw [after_append]
    rfl
  rw [hnow] at hfits
  have hcalled : called.1.Fits := hfits.of_after
  have hw : w.Fits := fun j => (size_after w [.call k c] j).1.trans_lt (hcalled j)
  have hstep : w.InStep := inStep_start.after hw
  have hcalledStep : called.1.InStep := hstep.step hw _
  have hnowStep : now.InStep := hcalledStep.after hfits
  refine ⟨hstep.call_eq hw k c, fun a ha => ?_, ?_, fun s j id n hn => hnowStep.get?_step hfits s hn⟩
  · obtain ⟨id, hreply, hid⟩ := hstep.requested hw (k := k) ha
    have hkept := hcalledStep.get?_after hfits hid
    exact ⟨id, hreply, hkept, fun c' b hb => hnowStep.requested_again hfits hkept hb⟩
  · rintro n rfl hn
    have hcall := hstep.call_eq hw k (.insert n)
    rw [GraphCall.on_insert hn] at hcall
    obtain ⟨hgraph, hreply⟩ := Prod.mk.inj hcall
    refine ⟨_, hreply, by simp [Graph.get?, Graph.size], ?_⟩
    rw [hgraph, Graph.get?_push, if_pos rfl]

/-- Zero and negative zero, with the interner emptied in between and the one known to another graph before. -/
theorem zeros_apart :
    let zero : Atom := .literal (.primitive .double) (.double 0)
    let negative : Atom := .literal (.primitive .double) (.double 0x8000000000000000)
    let called := (start.after [.call 1 (.atom negative)]).step (.call 0 (.atom zero))
    let now := called.1.after [.clear, .intern negative]
    ∃ id, called.2 = some id ∧
      (∃ id', (now.step (.call 0 (.insert (.atom negative)))).2 = some id' ∧ id' ≠ id) ∧
      (now.step (.call 0 (.insert (.atom zero)))).2 = some id := by
  intro zero negative called now
  obtain ⟨-, hrequested, -, -⟩ := atoms_unique_ids_stable [.call 1 (.atom negative)] [.clear, .intern negative] 0
    (.atom zero) (fits_start_after (by simp))
  obtain ⟨id, hid, -, hlater⟩ := hrequested zero rfl
  obtain ⟨id', hid', hnegative⟩ := hlater (.insert (.atom negative)) negative rfl
  obtain ⟨id'', hid'', hzero⟩ := hlater (.insert (.atom zero)) zero rfl
  refine ⟨id, hid, ⟨id', hid', fun h => ?_⟩, ?_⟩
  · exact absurd (hnegative.1 h) (by decide)
  · rw [hzero.2 (by decide)] at hid''
    exact hid''

end Workspace

end Reenact
