import Mathlib
import Reenact.Graph.Basic

/-!
What a value graph holds under each id after a node was added or filled.
-/

namespace Reenact.Graph

variable {g : Graph} {id m : NodeId}

theorem lt_size {n : Node} (h : g.get? id = some n) : id < g.size :=
  get?_isSome.1 (by simp [h])

@[simp]
theorem size_push (n : Node) : (g.push n).1.size = g.size + 1 := by
  simp [push, size]

theorem get?_push (n : Node) :
    (g.push n).1.get? m = if m = g.size then some n else g.get? m := by
  simp only [push, get?, size, Array.getElem?_push]
  split <;> simp_all

@[simp]
theorem size_setContent (content : Content) : (g.setContent id content).size = g.size := by
  simp [setContent, size]

theorem get?_setContent_of_ne (content : Content) (hne : m ≠ id) :
    (g.setContent id content).get? m = g.get? m := by
  simp [setContent, get?, Array.getElem?_modify, Ne.symm hne]

theorem get?_setContent {declared runtime : Ty} {old : Content} (content : Content)
    (h : g.get? id = some (.composite declared runtime old)) :
    (g.setContent id content).get? id = some (.composite declared runtime content) := by
  unfold get? at h
  simp [setContent, get?, Array.getElem?_modify, h]

theorem get?_setContent_of_not_isReference {n : Node} (content : Content)
    (h : g.get? m = some n) (hn : n.isReference = false) :
    (g.setContent id content).get? m = some n := by
  unfold get? at h
  by_cases hm : id = m
  · subst hm
    cases n <;> simp_all [setContent, get?, Array.getElem?_modify, Node.isReference]
  · simp [setContent, get?, Array.getElem?_modify, hm, h]

theorem get?_of_atomId? {a : Atom} (h : g.atomId? a = some id) : g.get? id = some (.atom a) := by
  unfold atomId? at h
  rw [Array.findIdx?_eq_some_iff_getElem] at h
  obtain ⟨hlt, heq, _⟩ := h
  simp only [beq_iff_eq] at heq
  simp [get?, hlt, heq]

end Reenact.Graph
