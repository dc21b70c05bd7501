import Mathlib
import Reenact.Class.Demo
import Reenact.Live.Sample
import Reenact.Proofs.Equivalence
import Reenact.Proofs.Heap

/-!
Linked nodes and what they unfold to: the values that are read one after the other as the references to the
next node are followed. Rings and chains that end in a loop are read without end. Deep equality of two of them
compares finitely many pairs of nodes, and yet it tells whether the two readings ever differ: pairs of nodes
that are read at one time are a bisimulation as long as the values agree.
-/

namespace Reenact

namespace Heap

variable {h : Heap} {a b : ObjectId} {ids : List ObjectId} {path path' : ℕ → ObjectId} {values values' : ℕ → Int}

def nodeObject (value : Int) (next : Value) : Obj :=
  ⟨nodeType, .fields [("value", int32 value), ("next", next)], false⟩

/-- The value that is read after so many references to the next node. -/
def unfolding (h : Heap) : Value → ℕ → Option Value
  | .object id, 0 => h.field? id "value"
  | .object id, n + 1 => (h.field? id "next").bind fun next => h.unfolding next n
  | _, _ => none

/-- The path leads from each node to the next one, and these are the values on it. -/
def Spells (h : Heap) (path : ℕ → ObjectId) (values : ℕ → Int) : Prop :=
  ∀ n, h.get? (path n) = some (nodeObject (values n) (.object (path (n + 1))))

theorem Spells.unfolding (hpath : h.Spells path values) (n k : ℕ) :
    h.unfolding (.object (path k)) n = some (int32 (values (k + n))) := by
  induction n generalizing k with
  | zero => simp [Heap.unfolding, field?, body?_of_get? (hpath k), nodeObject, findValue?]
  | succ n ih =>
    have hrest : h.unfolding (.object (path (k + 1))) n = some (int32 (values (k + (n + 1)))) := by
      rw [ih (k + 1), Nat.add_right_comm, Nat.add_assoc]
    simpa [Heap.unfolding, field?, body?_of_get? (hpath k), nodeObject, findValue?] using hrest

/-! ### Building nodes -/

theorem newObject_node (h : Heap) (number : Int) :
    h.newObject nodeType [("value", int32 number), ("next", .null)] =
      (⟨h.objects.push (nodeObject number .null)⟩, h.size) := by
  rw [newObject_of_nodup nodeType (by simp)]
  rfl

theorem newNodes_eq (h : Heap) (numbers : List Int) :
    h.newNodes numbers = (⟨h.objects ++ (numbers.map (nodeObject · .null)).toArray⟩,
      List.range' h.size numbers.length) := by
  let step (s : Heap × List ObjectId) (number : Int) : Heap × List ObjectId :=
    ((s.1.newObject nodeType [("value", int32 number), ("next", .null)]).1,
      s.2 ++ [(s.1.newObject nodeType [("value", int32 number), ("next", .null)]).2])
  suffices hfold : ∀ (ids : List ObjectId) (h : Heap), numbers.foldl step (h, ids) =
      (⟨h.objects ++ (numbers.map (nodeObject · .null)).toArray⟩, ids ++ List.range' h.size numbers.length) from
    hfold [] h
  induction numbers with
  | nil => simp
  | cons number numbers ih =>
    intro ids h
    rw [List.foldl_cons, show step (h, ids) number =
      (⟨h.objects.push (nodeObject number .null)⟩, ids ++ [h.size]) by simp only [step, newObject_node], ih]
    simp [size, List.range'_succ]

theorem get?_newNodes_of_lt {numbers : List Int} (ha : a < h.size) : (h.newNodes numbers).1.get? a = h.get? a := by
  rw [newNodes_eq]
  exact Array.getElem?_append_left ha

theorem get?_newNodes {numbers : List Int} {i : ℕ} {number : Int} (hi : numbers[i]? = some number) :
    (h.newNodes numbers).1.get? (h.size + i) = some (nodeObject number .null) := by
  rw [newNodes_eq]
  simp [get?, size, Array.getElem?_append_right, hi]

theorem get?_setField_of_ne {name : String} {v : Value} (hne : b ≠ a) :
    (h.setField a name v).1.get? b = h.get? b := by
  unfold setField
  split
  · exact get?_setBody_of_ne _ hne
  · rfl

theorem get?_setField_next {value : Int} {old next : Value} (ha : h.get? a = some (nodeObject value old)) :
    (h.setField a "next" next).1.get? a = some (nodeObject value next) := by
  rw [setField_fields ha rfl, get?_setBody _ ha]
  rfl

theorem link_cons (h : Heap) {next last : ObjectId} (hnext : (ids ++ [last])[0]? = some next) :
    h.link (a :: ids ++ [last]) = ((h.setField a "next" (.object next)).1).link (ids ++ [last]) := by
  cases ids with
  | nil => cases hnext; rfl
  | cons b ids => cases hnext; rfl

theorem get?_link_of_notMem {last : ObjectId} (ha : a ∉ ids) : (h.link (ids ++ [last])).get? a = h.get? a := by
  induction ids generalizing h with
  | nil => rfl
  | cons b ids ih =>
    obtain ⟨hne, hrest⟩ := List.ne_and_not_mem_of_not_mem_cons ha
    rw [link_cons h (List.getElem?_eq_getElem (by simp)), ih hrest, get?_setField_of_ne hne]

/-- Each node that is linked refers to the one that follows it in the list. -/
theorem get?_link {last next : ObjectId} {value : Int} {old : Value} {i : ℕ} (hids : ids.Nodup)
    (ha : ids[i]? = some a) (hobject : h.get? a = some (nodeObject value old))
    (hnext : (ids ++ [last])[i + 1]? = some next) :
    (h.link (ids ++ [last])).get? a = some (nodeObject value (.object next)) := by
  induction ids generalizing h i with
  | nil => cases ha
  | cons b ids ih =>
    obtain ⟨hnew, hrest⟩ := List.nodup_cons.1 hids
    rw [List.cons_append, List.getElem?_cons_succ] at hnext
    cases i with
    | zero =>
      cases ha
      rw [link_cons h hnext, get?_link_of_notMem hnew, get?_setField_next hobject]
    | succ i =>
      rw [List.getElem?_cons_succ] at ha
      have hne : a ≠ b := fun heq => hnew (heq ▸ List.mem_of_getElem? ha)
      rw [link_cons h (List.getElem?_eq_getElem (by simp))]
      exact ih hrest ha ((get?_setField_of_ne hne).trans hobject) hnext

end Heap

/-- What the last of some linked nodes refers to: the first one, or itself. -/
inductive Closing where
  | ring | selfLoop

namespace Closing

def build : Closing → Heap → List Int → Heap × Value
  | ring => Heap.newRing
  | selfLoop => Heap.newSelfLoop

/-- Which of so many nodes is read at a time: all of them over and over, or all of them once and then the last
one again and again. -/
def place (length : ℕ) : Closing → ℕ → ℕ
  | ring, n => n % length
  | selfLoop, n => min n (length - 1)

/-- The node that the last of so many nodes refers to. -/
def target (length : ℕ) : Closing → ℕ
  | ring => 0
  | selfLoop => length - 1

variable {h : Heap} {numbers : List Int} {n : ℕ}

theorem place_lt (c : Closing) (hlength : 0 < n) (time : ℕ) : c.place n time < n := by
  cases c with
  | ring => exact Nat.mod_lt time hlength
  | selfLoop =>
    simp only [place]
    omega

theorem place_zero (c : Closing) (length : ℕ) : c.place length 0 = 0 := by
  cases c with
  | ring => exact Nat.zero_mod length
  | selfLoop => exact Nat.zero_min _

theorem place_succ_of_lt (c : Closing) {time : ℕ} (hinside : c.place n time + 1 < n) :
    c.place n (time + 1) = c.place n time + 1 := by
  cases c with
  | ring =>
    simp only [place] at *
    rw [← Nat.mod_add_mod, Nat.mod_eq_of_lt hinside]
  | selfLoop =>
    simp only [place] at *
    omega

theorem place_succ_of_last (c : Closing) {time : ℕ} (hlast : c.place n time + 1 = n) :
    c.place n (time + 1) = c.target n := by
  cases c with
  | ring =>
    simp only [place, target] at *
    rw [← Nat.mod_add_mod, hlast, Nat.mod_self]
  | selfLoop =>
    simp only [place, target] at *
    omega

theorem build_eq (c : Closing) (h : Heap) (hnumbers : numbers ≠ []) :
    c.build h numbers = ((h.newNodes numbers).1.link (List.range' h.size numbers.length ++
      [h.size + c.target numbers.length]), .object h.size) := by
  have hids : (h.newNodes numbers).2 = List.range' h.size numbers.length := by rw [Heap.newNodes_eq]
  obtain ⟨number, rest, rfl⟩ := List.exists_cons_of_ne_nil hnumbers
  cases c with
  | ring =>
    simp only [build, Heap.newRing, hids, List.length_cons, List.range'_succ]
    rfl
  | selfLoop =>
    have hlast : (List.range' h.size (number :: rest).length).getLast? =
        some (h.size + ((number :: rest).length - 1)) := by
      simp [List.getLast?_range']
    simp only [build, Heap.newSelfLoop, hids, hlast]
    rfl

/-- What the heap held before, it still holds. -/
theorem get?_build (c : Closing) (hnumbers : numbers ≠ []) {a : ObjectId} (ha : a < h.size) :
    (c.build h numbers).1.get? a = h.get? a := by
  have hold : a ∉ List.range' h.size numbers.length :=
    fun hmem => Nat.not_le.2 ha (List.mem_range'_1.1 hmem).1
  rw [build_eq c h hnumbers, Heap.get?_link_of_notMem hold, Heap.get?_newNodes_of_lt ha]

theorem build_spells (c : Closing) (h : Heap) (hnumbers : numbers ≠ []) :
    (c.build h numbers).1.Spells (fun n => h.size + c.place numbers.length n)
      fun n => numbers.getD (c.place numbers.length n) 0 := by
  intro time
  have hlength : 0 < numbers.length := List.length_pos_iff.2 hnumbers
  have hplace := c.place_lt hlength time
  have hnumber : numbers[c.place numbers.length time]? = some (numbers.getD (c.place numbers.length time) 0) := by
    simp [hplace]
  have hid : (List.range' h.size numbers.length)[c.place numbers.length time]? =
      some (h.size + c.place numbers.length time) := by
    simp [hplace]
  have hnext : (List.range' h.size numbers.length ++ [h.size + c.target numbers.length])[
      c.place numbers.length time + 1]? = some (h.size + c.place numbers.length (time + 1)) := by
    rcases Nat.lt_or_eq_of_le (Nat.succ_le_of_lt hplace) with hinside | hlast
    · rw [c.place_succ_of_lt hinside, List.getElem?_append_left (by simpa using hinside)]
      simp [hinside]
    · rw [c.place_succ_of_last hlast, show c.place numbers.length time + 1 = numbers.length from hlast]
      simp
  rw [build_eq c h hnumbers]
  exact Heap.get?_link List.nodup_range' hid (Heap.get?_newNodes hnumber) hnext

/-- The structure that is built is a path of nodes, and remains one in whatever is built after it. -/
theorem build_path (c : Closing) (h : Heap) (hnumbers : numbers ≠ []) {h' : Heap}
    (hkept : ∀ {a o}, (c.build h numbers).1.get? a = some o → h'.get? a = some o) : ∃ path values,
      (c.build h numbers).2 = .object (path 0) ∧ h'.Spells path values ∧
        ∀ time, numbers[c.place numbers.length time]? = some (values time) := by
  refine ⟨_, _, ?_, fun time => hkept (c.build_spells h hnumbers time), fun time => ?_⟩
  · rw [build_eq c h hnumbers, place_zero]
    rfl
  · have hplace := c.place_lt (List.length_pos_iff.2 hnumbers) time
    simp [hplace]

end Closing

namespace DeepEquality

variable {h : Heap} {R : Value → Value → Prop} {a b : ObjectId} {v w : Value} {m n : Int}
  {path path' : ℕ → ObjectId} {values values' : ℕ → Int}

theorem slots_nodeObject (value : Int) (next : Value) : (Heap.nodeObject value next).slots? .demo =
    some ⟨.object, [(.field "demo::Node" "value" (.primitive .int), Heap.int32 value),
      (.field "demo::Node" "next" Heap.nodeType, next)]⟩ := by
  have hfields : ClassTable.demo.allFields "demo::Node" =
      [("demo::Node", ⟨"value", .primitive .int, false⟩), ("demo::Node", ⟨"next", Heap.nodeType, false⟩)] := by
    decide +kernel
  have hclass : Heap.nodeType.className?.getD "" = "demo::Node" := rfl
  simp [Obj.slots?, Heap.nodeObject, hclass, hfields, fieldSlots, findValue?, dropEntry]

/-- Contents with the same two labels correspond label by label. -/
theorem corresponds_pair {types : ClassTable} {label label' : Slot} (hne : label ≠ label') {v v' w w' : Value} :
    Corresponds h types R ⟨.object, [(label, v), (label', v')]⟩ ⟨.object, [(label, w), (label', w')]⟩ ↔
      AgreeLive h types R v w ∧ AgreeLive h types R v' w' := by
  constructor
  · intro hmatched
    obtain ⟨first, hfirst, hlabel, hagree⟩ := hmatched.mem_left (x := (label, v)) (by simp)
    obtain ⟨second, hsecond, hlabel', hagree'⟩ := hmatched.mem_left (x := (label', v')) (by simp)
    simp only [List.mem_cons, List.not_mem_nil, or_false] at hfirst hsecond
    obtain rfl | rfl := hfirst
    · obtain rfl | rfl := hsecond
      · exact (hne hlabel'.symm).elim
      · exact ⟨hagree, hagree'⟩
    · exact (hne hlabel).elim
  · rintro ⟨hagree, hagree'⟩
    exact ⟨[(label, w), (label', w')], .cons ⟨rfl, hagree⟩ (.cons ⟨rfl, hagree'⟩ .nil), .refl _⟩

theorem agree_int32 {types : ClassTable} :
    AgreeLive h types R (Heap.int32 m) (Heap.int32 n) ↔ Heap.int32 m = Heap.int32 n := by
  rw [agreeLive_iff]
  simp [Heap.int32, Heap.identity, Value.object?]

theorem agree_objects {types : ClassTable} (ha : a < h.size) (hb : b < h.size) :
    AgreeLive h types R (.object a) (.object b) ↔ R (.object a) (.object b) := by
  rw [agreeLive_iff]
  simp [Heap.identity, Value.object?, ha, hb]

/-- Two nodes agree if they hold the same value and the nodes that follow them agree. -/
theorem locally_nodes (ha : h.get? a = some (Heap.nodeObject m v)) (hb : h.get? b = some (Heap.nodeObject n w)) :
    Locally (h.structure .demo) (h.structure .demo) R (.object a) (.object b) ↔
      Heap.int32 m = Heap.int32 n ∧ AgreeLive h .demo R v w := by
  have hslots := slots_nodeObject m v
  have hslots' := slots_nodeObject n w
  have hfields : ClassTable.demo.FieldsDistinct := by decide +kernel
  have hkeys : ∀ number next, (Heap.nodeObject number next).body.KeysDistinct := by
    intro number next
    simp [Heap.nodeObject, Body.KeysDistinct]
  have hcontents := contentsAgree_iff (h := h) (R := R) (fun _ => hfields) hslots hslots' (hkeys m v) (hkeys n w)
    rfl rfl rfl
  rw [corresponds_pair (by simp), agree_int32] at hcontents
  rw [locally_objects]
  constructor
  · rintro ⟨o, o', left, right, ho, ho', hleft, hright, -, -, -, hagree⟩
    cases ha.symm.trans ho
    cases hb.symm.trans ho'
    cases hslots.symm.trans hleft
    cases hslots'.symm.trans hright
    exact hcontents.1 hagree
  · exact fun hagree => ⟨_, _, _, _, ha, hb, hslots, hslots', rfl, rfl, rfl, hcontents.2 hagree⟩

/-- Two paths of nodes are equal exactly if the same values are read on both of them. -/
theorem equal_iff_values (hpath : h.Spells path values) (hpath' : h.Spells path' values') :
    h.equal .demo (.object (path 0)) (.object (path' 0)) = true ↔
      ∀ n, Heap.int32 (values n) = Heap.int32 (values' n) := by
  have hlive : ∀ n, path n < h.size ∧ path' n < h.size :=
    fun n => ⟨Heap.lt_size (hpath n), Heap.lt_size (hpath' n)⟩
  constructor
  · intro hequal
    obtain ⟨R, hR, hagree⟩ := bisimulation_of_equals hequal
    have hnodes : ∀ n, R (.object (path n)) (.object (path' n)) → Heap.int32 (values n) = Heap.int32 (values' n) ∧
        R (.object (path (n + 1))) (.object (path' (n + 1))) := by
      intro n hn
      have hlocal := (locally_nodes (hpath n) (hpath' n)).1 (hR.locally _ _ hn)
      rwa [agree_objects (hlive (n + 1)).1 (hlive (n + 1)).2] at hlocal
    have hrelated : ∀ n, R (.object (path n)) (.object (path' n)) := by
      intro n
      induction n with
      | zero => exact (agree_objects (hlive 0).1 (hlive 0).2).1 hagree
      | succ n ih => exact (hnodes n ih).2
    exact fun n => (hnodes n (hrelated n)).1
  · intro hvalues
    let R (v w : Value) : Prop := ∃ n, v = .object (path n) ∧ w = .object (path' n)
    have hagree : ∀ n, AgreeLive h .demo R (.object (path n)) (.object (path' n)) :=
      fun n => (agree_objects (hlive n).1 (hlive n).2).2 ⟨n, rfl, rfl⟩
    refine equals_of_bisimulation (R := R) ⟨?_, ?_⟩ (hagree 0)
    · rintro _ _ ⟨n, rfl, rfl⟩
      exact ⟨Heap.identity_isSome.2 (hlive n).1, Heap.identity_isSome.2 (hlive n).2⟩
    · rintro _ _ ⟨n, rfl, rfl⟩
      exact (locally_nodes (hpath n) (hpath' n)).2 ⟨hvalues n, hagree (n + 1)⟩

/-- Rings and chains that end in a loop are deeply equal iff they unfold to the same values: a ring to its
numbers over and over, a chain to its numbers and then the last of them for ever. -/
theorem equal_iff_unfoldings (h : Heap) (c c' : Closing) {xs ys : List Int} (hxs : xs ≠ []) (hys : ys ≠ []) :
    let left := c.build h xs
    let right := c'.build left.1 ys
    (∀ n, ∃ x, xs[c.place xs.length n]? = some x ∧ right.1.unfolding left.2 n = some (Heap.int32 x)) ∧
      (∀ n, ∃ y, ys[c'.place ys.length n]? = some y ∧ right.1.unfolding right.2 n = some (Heap.int32 y)) ∧
      (right.1.equal .demo left.2 right.2 = true ↔
        ∀ n, right.1.unfolding left.2 n = right.1.unfolding right.2 n) := by
  intro left right
  have hkept : ∀ {a o}, left.1.get? a = some o → right.1.get? a = some o :=
    fun ho => (c'.get?_build hys (Heap.lt_size ho)).trans ho
  obtain ⟨path, values, hleft, hpath, hvalues⟩ := c.build_path h hxs hkept
  obtain ⟨path', values', hright, hpath', hvalues'⟩ := c'.build_path left.1 hys id
  have hread : ∀ n, right.1.unfolding left.2 n = some (Heap.int32 (values n)) := by
    intro n
    rw [show left.2 = _ from hleft, hpath.unfolding n 0, Nat.zero_add]
  have hread' : ∀ n, right.1.unfolding right.2 n = some (Heap.int32 (values' n)) := by
    intro n
    rw [show right.2 = _ from hright, hpath'.unfolding n 0, Nat.zero_add]
  refine ⟨fun n => ⟨values n, hvalues n, hread n⟩, fun n => ⟨values' n, hvalues' n, hread' n⟩, ?_⟩
  rw [show left.2 = _ from hleft, show right.2 = _ from hright, equal_iff_values hpath hpath', ← hleft, ← hright]
  exact forall_congr' fun n => by rw [hread, hread', Option.some.injEq]

/-- A ring of two numbers is read like a ring that holds them twice, and unlike a chain that ends in the first
of them. -/
theorem rings_equal_by_unfolding :
    let short := Heap.newRing .empty [1, 2]
    let long := Heap.newRing short.1 [1, 2, 1, 2]
    let chain := Heap.newSelfLoop short.1 [1, 2, 1]
    long.1.equal .demo short.2 long.2 = true ∧ chain.1.equal .demo short.2 chain.2 = false := by
  intro short long chain
  have hone : ([1, 2] : List Int) ≠ [] := by decide
  have htwice : ([1, 2, 1, 2] : List Int) ≠ [] := by decide
  have hchain : ([1, 2, 1] : List Int) ≠ [] := by decide
  constructor
  · obtain ⟨hread, hread', hequal⟩ := equal_iff_unfoldings .empty .ring .ring hone htwice
    refine hequal.2 fun n => ?_
    obtain ⟨x, hx, hleft⟩ := hread n
    obtain ⟨y, hy, hright⟩ := hread' n
    rw [hleft, hright]
    simp only [Closing.place, List.length_cons, List.length_nil, Nat.zero_add, Nat.reduceAdd] at hx hy
    obtain ⟨hmod, hmod'⟩ | ⟨hmod, hmod'⟩ | ⟨hmod, hmod'⟩ | ⟨hmod, hmod'⟩ : (n % 2 = 0 ∧ n % 4 = 0) ∨
        (n % 2 = 1 ∧ n % 4 = 1) ∨ (n % 2 = 0 ∧ n % 4 = 2) ∨ (n % 2 = 1 ∧ n % 4 = 3) := by omega
    all_goals
      rw [hmod] at hx
      rw [hmod'] at hy
      cases hx
      cases hy
      rfl
  · obtain ⟨hread, hread', hequal⟩ := equal_iff_unfoldings .empty .ring .selfLoop hone hchain
    refine Bool.eq_false_iff.2 fun heq => ?_
    obtain ⟨x, hx, hleft⟩ := hread 3
    obtain ⟨y, hy, hright⟩ := hread' 3
    have hsame := (hleft.symm.trans (hequal.1 heq 3)).trans hright
    cases hx
    cases hy
    exact absurd hsame (by decide)

end DeepEquality

end Reenact
