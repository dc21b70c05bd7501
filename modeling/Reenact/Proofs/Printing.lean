import Mathlib
import Reenact.Graph.Printer
import Reenact.Proofs.Graph
import Reenact.Proofs.Reachability
import Reenact.Proofs.Views

/-!
Printing with one set of active nodes, which a node enters before its children are printed and leaves after
them. The set is back to what it was whenever a node is done, so it holds just the nodes that are being printed
around the present one: a cycle is marked where a node comes back below itself and nowhere else. Where nothing
comes back, the marks make no difference.
-/

namespace Reenact

/-- What is written for an id: a mark for an unknown one, a mark for a node that is met below itself, or a node
with what is written for its children. -/
inductive Picture where
  | missing (id : NodeId)
  | cycle (id : NodeId) (n : Node)
  | whole (id : NodeId) (n : Node) (parts : List Picture)

/-- The text of a node from the texts of its children, in their order. -/
def Node.layout (n : Node) (texts : List String) : String :=
  match n with
  | .atom (.literal _ value) => value.text
  | .atom (.null _) => "null"
  | .constant _ runtime name => runtime.simpleText ++ "::" ++ name
  | .composite _ runtime content =>
    match content with
    | .array _ | .list _ => "[" ++ ", ".intercalate texts ++ "]"
    | .set _ => Graph.braces texts
    | .map _ => Graph.braces ((DeepEquality.unzipEntries texts).map fun (k, v) => k ++ "=" ++ v)
    | .object fields =>
      runtime.simpleText ++ " " ++ Graph.braces (fields.zipWith (fun f text => f.name ++ ": " ++ text) texts)

namespace Picture

def id : Picture → NodeId
  | missing id | cycle id _ | whole id _ _ => id

def isCycle : Picture → Bool
  | cycle _ _ => true
  | _ => false

def text : Picture → String
  | missing id => s!"<missing #{id}>"
  | cycle _ n => "<cycle " ++ n.runtime.simpleText ++ ">"
  | whole _ n parts => n.layout (parts.map text)

/-- A picture is part of another one, below these nodes, the nearest one first. -/
inductive Within (p : Picture) : (ancestors : List NodeId) → Picture → Prop where
  | self : Within p [] p
  | part {ancestors : List NodeId} {id : NodeId} {n : Node} {parts : List Picture} {q : Picture} :
      Within p ancestors (.whole id n parts) → q ∈ parts → Within p (id :: ancestors) q

end Picture

namespace Graph

variable {g : Graph} {id root : NodeId} {n : Node} {active path : List NodeId} {depth depth' : ℕ}

/-- Prints a node while the nodes in the set are being printed, and gives the set that it leaves behind. Only
nested calls are bounded, by `depth`; there is no result if the bound is met. -/
def printing (g : Graph) : (depth : ℕ) → NodeId → StateT (Finset NodeId) Option Picture
  | 0, _ => failure
  | depth + 1, id => do
    match g.get? id with
    | none => return .missing id
    | some n =>
      if id ∈ (← get) then return .cycle id n
      modify (Insert.insert id)
      let parts ← n.children.mapM (g.printing depth)
      modify (Finset.erase · id)
      return .whole id n parts

/-- The text of a node as plain recursion gives it, without any set of nodes. It has one if the recursion
ends. -/
inductive WrittenOut (g : Graph) : NodeId → String → Prop where
  | missing {id : NodeId} : g.get? id = none → WrittenOut g id s!"<missing #{id}>"
  | node {id : NodeId} {n : Node} {texts : NodeId → String} : g.get? id = some n →
      (∀ c ∈ n.children, WrittenOut g c (texts c)) → WrittenOut g id (n.layout (n.children.map texts))

/-- A node that the root reaches comes back below itself. -/
def Cyclic (g : Graph) (root : NodeId) : Prop :=
  ∃ a, Leads g.children root a ∧ Relation.TransGen (fun a b => b ∈ g.children a) a a

theorem printNode_eq (print : NodeId → String) (n : Node) :
    printNode print n = n.layout (n.children.map print) := by
  cases n with
  | atom a => cases a <;> rfl
  | constant => rfl
  | composite declared runtime content =>
    cases content with
    | array | list | set => rfl
    | map entries =>
      have hpairs : (entries.flatMap fun e => [e.1, e.2]).map print =
          (entries.map fun e => (print e.1, print e.2)).flatMap fun e => [e.1, e.2] := by
        rw [List.map_flatMap, List.flatMap_map]
        rfl
      simp only [printNode, Node.layout, Node.children, Content.children, hpairs,
        DeepEquality.unzipEntries_flatMap, List.map_map]
      rfl
    | object fields =>
      simp only [printNode, Node.layout, Node.children, Content.children, List.map_map, List.zipWith_map_right,
        List.zipWith_self]
      rfl

/-! ### The set of active nodes -/

/-- What is written for a node below the nodes in `active`. -/
def pictureBelow (g : Graph) : (depth : ℕ) → (active : List NodeId) → NodeId → Picture
  | 0, _, id => .missing id
  | depth + 1, active, id =>
    match g.get? id with
    | none => .missing id
    | some n =>
      if id ∈ active then .cycle id n else .whole id n (n.children.map (g.pictureBelow depth (id :: active)))

/-- The nodes that can still be entered. -/
def inactive (g : Graph) (active : List NodeId) : Finset NodeId := Finset.range g.size \ active.toFinset

theorem card_inactive_le (g : Graph) (active : List NodeId) : (g.inactive active).card ≤ g.size := by
  have hle := Finset.card_le_card (Finset.sdiff_subset (s := Finset.range g.size) (t := active.toFinset))
  rwa [Finset.card_range] at hle

theorem card_inactive_cons_lt (hn : g.get? id = some n) (hid : id ∉ active) :
    (g.inactive (id :: active)).card < (g.inactive active).card := by
  have hmem : id ∈ g.inactive active :=
    Finset.mem_sdiff.2 ⟨Finset.mem_range.2 (lt_size hn), by simpa using hid⟩
  have herase : g.inactive (id :: active) = (g.inactive active).erase id := by
    unfold inactive
    rw [List.toFinset_cons, Finset.sdiff_insert]
  rw [herase]
  exact Finset.card_erase_lt_of_mem hmem

theorem id_pictureBelow (g : Graph) (depth : ℕ) (active : List NodeId) (id : NodeId) :
    (g.pictureBelow depth active id).id = id := by
  cases depth with
  | zero => rfl
  | succ depth =>
    unfold pictureBelow
    split
    · rfl
    · split <;> rfl

theorem text_pictureBelow (g : Graph) (depth : ℕ) (active : List NodeId) (id : NodeId) :
    (g.pictureBelow depth active id).text = g.printBelow depth active id := by
  induction depth generalizing active id with
  | zero => rw [pictureBelow, printBelow, Picture.text]
  | succ depth ih =>
    cases hn : g.get? id with
    | none => simp only [pictureBelow, printBelow, hn, Picture.text]
    | some n =>
      by_cases hid : id ∈ active
      · simp only [pictureBelow, printBelow, hn, if_pos hid, Picture.text]
      · simp only [pictureBelow, printBelow, hn, if_neg hid, Picture.text, printNode_eq, List.map_map]
        congr 2
        funext c
        exact ih _ _

/-- A bound beyond the number of nodes that can still be entered makes no difference. -/
theorem pictureBelow_eq (hdepth : (g.inactive active).card < depth) (hdepth' : (g.inactive active).card < depth') :
    g.pictureBelow depth active id = g.pictureBelow depth' active id := by
  induction depth generalizing depth' active id with
  | zero => omega
  | succ depth ih =>
    obtain ⟨depth', rfl⟩ := Nat.exists_eq_succ_of_ne_zero (Nat.ne_zero_of_lt hdepth')
    unfold pictureBelow
    split
    · rfl
    · next n hn =>
      split
      · rfl
      · next hid =>
        have hless := card_inactive_cons_lt hn hid
        congr 2
        funext c
        exact ih (by omega) (by omega)

/-- Printing one node after the other gives back the set of active nodes if each one does. -/
theorem mapM_printing {f : NodeId → StateT (Finset NodeId) Option Picture} {picture : NodeId → Picture}
    {s : Finset NodeId} {ids : List NodeId} (hf : ∀ c ∈ ids, f c s = some (picture c, s)) :
    ids.mapM f s = some (ids.map picture, s) := by
  induction ids with
  | nil => rfl
  | cons c ids ih =>
    obtain ⟨hc, hids⟩ := List.forall_mem_cons.1 hf
    rw [List.mapM_cons]
    change (f c s).bind _ = _
    rw [hc]
    change (ids.mapM f s).bind _ = _
    rw [ih hids]
    rfl

theorem printing_succ {s : Finset NodeId} (hn : g.get? id = some n) :
    g.printing (depth + 1) id s = if id ∈ s then some (.cycle id n, s)
      else (n.children.mapM (g.printing depth) (Insert.insert id s)).map
        fun done => (.whole id n done.1, done.2.erase id) := by
  simp only [printing, hn]
  by_cases hid : id ∈ s
  · rw [if_pos hid]
    change (if id ∈ s then _ else _ : StateT (Finset NodeId) Option Picture) s = _
    rw [if_pos hid]
    rfl
  · rw [if_neg hid]
    change (if id ∈ s then _ else _ : StateT (Finset NodeId) Option Picture) s = _
    rw [if_neg hid]
    change (n.children.mapM (g.printing depth) (Insert.insert id s)).bind _ = _
    rw [Option.map_eq_bind]
    rfl

theorem printing_eq (hdepth : (g.inactive active).card < depth) :
    g.printing depth id active.toFinset = some (g.pictureBelow depth active id, active.toFinset) := by
  induction depth generalizing active id with
  | zero => omega
  | succ depth ih =>
    cases hn : g.get? id with
    | none =>
      simp only [printing, pictureBelow, hn]
      rfl
    | some n =>
      rw [printing_succ hn]
      by_cases hid : id ∈ active
      · simp only [pictureBelow, hn, if_pos hid, List.mem_toFinset]
      · have hparts : n.children.mapM (g.printing depth) (id :: active).toFinset =
            some (n.children.map (g.pictureBelow depth (id :: active)), (id :: active).toFinset) := by
          have hless := card_inactive_cons_lt hn hid
          exact mapM_printing fun c _ => ih (by omega)
        rw [List.toFinset_cons] at hparts
        have hleft : (Insert.insert id active.toFinset).erase id = active.toFinset :=
          Finset.erase_insert (by simpa using hid)
        simp only [pictureBelow, hn, if_neg hid, List.mem_toFinset, hparts, Option.map_some, hleft]

/-! ### Marks -/

theorem isCycle_pictureBelow (hdepth : 0 < depth) (active : List NodeId) (id : NodeId) :
    (g.pictureBelow depth active id).isCycle ↔ id ∈ active ∧ (g.get? id).isSome := by
  obtain ⟨depth, rfl⟩ := Nat.exists_eq_succ_of_ne_zero hdepth.ne'
  cases hn : g.get? id with
  | none => simp [pictureBelow, hn, Picture.isCycle]
  | some n => by_cases hid : id ∈ active <;> simp [pictureBelow, hn, hid, Picture.isCycle]

theorem pictureBelow_whole (hdepth : 0 < depth) (hn : g.get? id = some n) (hid : id ∉ active) :
    g.pictureBelow depth active id = .whole id n (n.children.map (g.pictureBelow (depth - 1) (id :: active))) := by
  obtain ⟨depth, rfl⟩ := Nat.exists_eq_succ_of_ne_zero hdepth.ne'
  simp only [pictureBelow, hn, if_neg hid, Nat.succ_eq_add_one, Nat.add_sub_cancel]

theorem whole_of_pictureBelow {k : NodeId} {parts : List Picture} (id : NodeId)
    (h : Picture.whole k n parts = g.pictureBelow depth active id) : k = id ∧ g.get? id = some n ∧ id ∉ active ∧
      parts = n.children.map (g.pictureBelow (depth - 1) (id :: active)) := by
  cases depth with
  | zero => cases h
  | succ depth =>
    unfold pictureBelow at h
    split at h
    · cases h
    · next hn =>
      split at h
      · cases h
      · next hid =>
        cases h
        exact ⟨rfl, hn, hid, rfl⟩

/-- What is written inside a picture is what is written for a node of the graph while the nodes around it are
active, and these are on the way from the root down to it. -/
theorem within_pictureBelow {q : Picture} (h : (g.pictureBelow depth active root).Within path q)
    (hdepth : (g.inactive active).card < depth) : (∀ a ∈ path, (g.get? a).isSome) ∧
      ∃ k, (g.inactive (path ++ active)).card < k ∧ q = g.pictureBelow k (path ++ active) q.id := by
  induction h with
  | self => exact ⟨by simp, depth, hdepth, by rw [id_pictureBelow]; rfl⟩
  | @part ancestors id n parts q _ hq ih =>
    obtain ⟨hknown, k, hk, heq⟩ := ih
    obtain ⟨-, hn, hid, hparts⟩ := whole_of_pictureBelow id heq
    rw [hparts] at hq
    obtain ⟨c, -, rfl⟩ := List.mem_map.1 hq
    have hless := card_inactive_cons_lt hn hid
    refine ⟨List.forall_mem_cons.2 ⟨by simp [hn], hknown⟩, k - 1, ?_, ?_⟩
    · rw [List.cons_append]
      omega
    · rw [id_pictureBelow]
      rfl

/-! ### Without marks -/

theorem WrittenOut.unique {t t' : String} (h : g.WrittenOut id t) (h' : g.WrittenOut id t') : t = t' := by
  induction h generalizing t' with
  | missing hnone =>
    cases h' with
    | missing => rfl
    | node hn => cases hnone.symm.trans hn
  | node hn _ ih =>
    cases h' with
    | missing hnone => cases hnone.symm.trans hn
    | node hn' hchildren =>
      cases hn.symm.trans hn'
      congr 1
      exact List.map_congr_left fun c hc => ih c hc (hchildren c hc)

theorem Cyclic.of_child {c : NodeId} (hc : c ∈ g.children id) (h : g.Cyclic c) : g.Cyclic id := by
  obtain ⟨a, hlead, hback⟩ := h
  exact ⟨a, .head hc hlead, hback⟩

theorem children_of_get? (hn : g.get? id = some n) : g.children id = n.children := by
  simp [children, hn]

theorem Cyclic.exists_child (h : g.Cyclic id) : ∃ c ∈ g.children id, g.Cyclic c := by
  obtain ⟨a, hlead, hback⟩ := h
  rcases Relation.ReflTransGen.cases_head hlead with rfl | ⟨c, hc, hrest⟩
  · obtain ⟨c, hc, hrest⟩ := Relation.TransGen.head'_iff.1 hback
    exact ⟨c, hc, id, hrest, hback⟩
  · exact ⟨c, hc, a, hrest, hback⟩

/-- A plain recursion that ends has met no cycle. -/
theorem WrittenOut.not_cyclic {t : String} (h : g.WrittenOut id t) : ¬ g.Cyclic id := by
  induction h with
  | missing hn =>
    intro hcyclic
    obtain ⟨c, hc, -⟩ := hcyclic.exists_child
    simp [children, hn] at hc
  | node hn _ ih =>
    intro hcyclic
    obtain ⟨c, hc, hchild⟩ := hcyclic.exists_child
    rw [children_of_get? hn] at hc
    exact ih c hc hchild

/-- Where no cycle is met, no active node is met again. -/
theorem writtenOut_printBelow (hacyclic : ¬ g.Cyclic id) (hdepth : (g.inactive active).card < depth)
    (habove : ∀ a ∈ active, Relation.TransGen (fun a b => b ∈ g.children a) a id) :
    g.WrittenOut id (g.printBelow depth active id) := by
  induction depth generalizing active id with
  | zero => omega
  | succ depth ih =>
    unfold printBelow
    split
    · next hn => exact .missing hn
    · next n hn =>
      have hid : id ∉ active := fun hid => hacyclic ⟨id, .refl, habove id hid⟩
      rw [if_neg hid, printNode_eq]
      refine .node hn fun c hc => ?_
      have hstep : c ∈ g.children id := by rwa [children_of_get? hn]
      have hless := card_inactive_cons_lt hn hid
      refine ih (fun h => hacyclic (h.of_child hstep)) (by omega) fun a ha => ?_
      rcases List.mem_cons.1 ha with rfl | ha
      · exact .single hstep
      · exact (habove a ha).tail hstep

/-- Printing ends and leaves the set of active nodes as it was, whatever the set and the graph. In what is
written for a root, a node is marked as a cycle iff it is one of the nodes on the way down to it; any other
node is written with all its children, no matter how often it was written elsewhere. Without a cycle in reach
the text is what plain recursion gives, and with one the plain recursion does not end. -/
theorem printing_marks_cycles (g : Graph) (root : NodeId) :
    (∀ active : Finset NodeId, ∃ p, ∀ depth, g.size < depth → g.printing depth root active = some (p, active)) ∧
      (∃ p, (∀ depth, g.size < depth → g.printing depth root ∅ = some (p, ∅)) ∧ p.text = g.print root ∧
        ∀ path q, p.Within path q → (q.isCycle ↔ q.id ∈ path) ∧ ∀ n, g.get? q.id = some n → q.id ∉ path →
          ∃ parts, q = .whole q.id n parts ∧ parts.map Picture.id = n.children) ∧
      ∀ text, g.WrittenOut root text ↔ ¬ g.Cyclic root ∧ text = g.print root := by
  have hrun : ∀ (active : List NodeId) depth, g.size < depth → g.printing depth root active.toFinset =
      some (g.pictureBelow (g.size + 1) active root, active.toFinset) := by
    intro active depth hdepth
    have hless := g.card_inactive_le active
    have hbound : g.pictureBelow depth active root = g.pictureBelow (g.size + 1) active root :=
      pictureBelow_eq (by omega) (by omega)
    rw [printing_eq (by omega), hbound]
  refine ⟨fun active => ?_, ?_, fun text => ?_⟩
  · have hactive := hrun active.toList
    rw [Finset.toList_toFinset] at hactive
    exact ⟨_, hactive⟩
  · refine ⟨_, hrun [], text_pictureBelow _ _ _ _, fun path q hq => ?_⟩
    obtain ⟨hknown, k, hk, heq⟩ := within_pictureBelow hq (Nat.lt_succ_of_le (g.card_inactive_le []))
    rw [List.append_nil] at hk heq
    have hpos : 0 < k := Nat.zero_lt_of_lt hk
    refine ⟨?_, fun n hn hid => ⟨_, heq.trans (pictureBelow_whole hpos hn hid), ?_⟩⟩
    · have hcycle := isCycle_pictureBelow (g := g) hpos path q.id
      rw [← heq] at hcycle
      exact hcycle.trans ⟨And.left, fun hid => ⟨hid, hknown _ hid⟩⟩
    · rw [List.map_map]
      exact List.map_id'' (fun c => id_pictureBelow g _ _ c) _
  · have hplain : ¬ g.Cyclic root → g.WrittenOut root (g.print root) := fun hacyclic =>
      writtenOut_printBelow hacyclic (Nat.lt_succ_of_le (g.card_inactive_le [])) (by simp)
    constructor
    · intro htext
      exact ⟨htext.not_cyclic, htext.unique (hplain htext.not_cyclic)⟩
    · rintro ⟨hacyclic, rfl⟩
      exact hplain hacyclic

/-- A list that holds another one twice, which holds the outer one. -/
example :
    let list := Ty.ofClass "ArrayList"
    let g : Graph := ⟨#[.composite list list (.list [1, 1]), .composite list list (.list [0])]⟩
    g.print 0 = "[[<cycle ArrayList>], [<cycle ArrayList>]]" := by
  decide +kernel

end Graph

end Reenact
