import Mathlib
import Reenact.Proofs.Heap
import Reenact.Proofs.Queue
import Reenact.Proofs.Sameness
import Reenact.Proofs.Unchanged
import Reenact.Proofs.WellFormed

/-!
Heaps that come about by making objects and changing them, in any order and with objects shared at will. A set
never holds an element twice nor a map a key, and under each key a map has what was put there last.
-/

namespace Reenact

/-! ### Edits -/

/-- What can be done to an object. -/
inductive Edit where
  | setField (name : String) (value : Value)
  | push (value : Value)
  | setElement (i : ℕ) (value : Value)
  | put (key value : Value)

/-- Whether an edit took place, or what a map had under the key before. -/
inductive Reply where
  | done (b : Bool)
  | previous (value : Option Value)

namespace Edit

/-- The shapes of the objects that an edit is meant for. -/
def shapes : Edit → List Shape
  | setField .. => [.object]
  | push .. => [.array, .list, .set]
  | setElement .. => [.array, .list]
  | put .. => [.map]

/-- The reply when the object is of another shape. -/
def refusal : Edit → Reply
  | put .. => .previous none
  | _ => .done false

/-- The body of an object before and after an edit that is meant for its shape, and the reply. -/
inductive Changes : Edit → Body → Body → Reply → Prop where
  | field {name v stored} :
      Changes (.setField name v) (.fields stored) (.fields (putEntry name v stored)) (.done true)
  | array {v items} : Changes (.push v) (.array items) (.array (items ++ [v])) (.done true)
  | list {v items} : Changes (.push v) (.list items) (.list (items ++ [v])) (.done true)
  | new {v items} : v ∉ items → Changes (.push v) (.set items) (.set (items ++ [v])) (.done true)
  | held {v items} : v ∈ items → Changes (.push v) (.set items) (.set items) (.done false)
  | arrayElement {i v items} : Changes (.setElement i v) (.array items) (.array (items.set i v))
      (.done (i < items.length))
  | listElement {i v items} : Changes (.setElement i v) (.list items) (.list (items.set i v))
      (.done (i < items.length))
  | put {k v entries} : Changes (.put k v) (.map entries) (.map (putEntry k v entries))
      (.previous (findValue? k entries))

end Edit

namespace Heap

def shape? (h : Heap) (id : ObjectId) : Option Shape := (h.body? id).map Body.shape

def edit (h : Heap) (id : ObjectId) : Edit → Heap × Reply
  | .setField name v => ((h.setField id name v).1, .done (h.setField id name v).2)
  | .push v => ((h.push id v).1, .done (h.push id v).2)
  | .setElement i v => ((h.setElement id i v).1, .done (h.setElement id i v).2)
  | .put k v => ((h.put id k v).1, .previous (h.put id k v).2)

end Heap

section

variable {h : Heap} {id : ObjectId} {o : Obj} {e : Edit} {body after : Body} {reply : Reply}

theorem Edit.Changes.shape_mem (hc : e.Changes body after reply) : body.shape ∈ e.shapes := by
  cases hc <;> simp [shapes, Body.shape]

theorem Edit.Changes.distinct (hc : e.Changes body after reply) (hbody : body.Distinct) : after.Distinct := by
  cases hc with
  | field => exact nodup_putEntry hbody
  | new hv =>
    rw [← List.concat_eq_append]
    exact List.Nodup.concat hv hbody
  | held => exact hbody
  | put => exact nodup_putEntry hbody
  | _ => trivial

theorem Edit.Changes.edit (hc : e.Changes o.body after reply) (ho : h.get? id = some o) :
    h.edit id e = (h.setBody id after, reply) := by
  obtain ⟨type, body, locked⟩ := o
  have hbody : h.body? id = some body := Heap.body?_of_get? ho
  dsimp only at hc
  cases hc with
  | field => simp only [Heap.edit, Heap.setField, hbody]
  | array => simp only [Heap.edit, Heap.push, hbody]
  | list => simp only [Heap.edit, Heap.push, hbody]
  | new hv => simp only [Heap.edit, Heap.push_set ho rfl hv]
  | held hv =>
    have hsame := Heap.setBody_self ho
    simp only [Heap.edit, Heap.push_set_of_mem ho rfl hv, hsame]
  | arrayElement => simp only [Heap.edit, Heap.setElement_eq (.inl rfl) _ _ ho rfl]
  | listElement => simp only [Heap.edit, Heap.setElement_eq (.inr rfl) _ _ ho rfl]
  | put => simp only [Heap.edit, Heap.put_map ho rfl]

namespace Heap

theorem changes_or_nothing (e : Edit) (ho : h.get? id = some o) : (∃ after reply, e.Changes o.body after reply) ∨
    o.body.shape ∉ e.shapes ∧ h.edit id e = (h, e.refusal) := by
  obtain ⟨type, body, locked⟩ := o
  have hbody : h.body? id = some body := body?_of_get? ho
  cases e with
  | setField name v =>
    cases body with
    | fields => exact .inl ⟨_, _, .field⟩
    | _ => exact .inr ⟨by simp [Edit.shapes, Body.shape], by simp only [edit, setField, hbody, Edit.refusal]⟩
  | push v =>
    cases body with
    | array => exact .inl ⟨_, _, .array⟩
    | list => exact .inl ⟨_, _, .list⟩
    | set items =>
      by_cases hv : v ∈ items
      · exact .inl ⟨_, _, .held hv⟩
      · exact .inl ⟨_, _, .new hv⟩
    | _ => exact .inr ⟨by simp [Edit.shapes, Body.shape], by simp only [edit, push, hbody, Edit.refusal]⟩
  | setElement i v =>
    cases body with
    | array => exact .inl ⟨_, _, .arrayElement⟩
    | list => exact .inl ⟨_, _, .listElement⟩
    | _ => exact .inr ⟨by simp [Edit.shapes, Body.shape], by simp only [edit, setElement, hbody, Edit.refusal]⟩
  | put k v =>
    cases body with
    | map => exact .inl ⟨_, _, .put⟩
    | _ => exact .inr ⟨by simp [Edit.shapes, Body.shape], by simp only [edit, put, hbody, Edit.refusal]⟩

theorem shape?_of_get? (ho : h.get? id = some o) : h.shape? id = some o.body.shape := by
  rw [shape?, body?_of_get? ho, Option.map_some]

/-- All that an edit can come to. -/
theorem edit_cases (h : Heap) (id : ObjectId) (e : Edit) :
    (∃ o after reply, h.get? id = some o ∧ e.Changes o.body after reply ∧
      h.edit id e = (h.setBody id after, reply)) ∨
      (∀ s ∈ e.shapes, h.shape? id ≠ some s) ∧ h.edit id e = (h, e.refusal) := by
  cases ho : h.get? id with
  | none =>
    have hbody : h.body? id = none := by rw [body?, ho, Option.map_none]
    refine .inr ⟨?_, ?_⟩
    · intro s _ hs
      rw [shape?, hbody] at hs
      cases hs
    · cases e <;> simp only [edit, setField, push, setElement, put, hbody, Edit.refusal]
  | some o =>
    rcases changes_or_nothing e ho with ⟨after, reply, hc⟩ | ⟨hshape, hedit⟩
    · exact .inl ⟨o, after, reply, rfl, hc, hc.edit ho⟩
    · refine .inr ⟨?_, hedit⟩
      intro s hs hsome
      rw [shape?_of_get? ho, Option.some.injEq] at hsome
      exact hshape (hsome ▸ hs)

/-- An edit does nothing to an object of a shape that it is not meant for, nor where there is no object. -/
theorem edit_of_other_shape (hother : ∀ s ∈ e.shapes, h.shape? id ≠ some s) : h.edit id e = (h, e.refusal) := by
  rcases edit_cases h id e with ⟨o, after, reply, ho, hc, -⟩ | ⟨-, hedit⟩
  · exact absurd (shape?_of_get? ho) (hother _ hc.shape_mem)
  · exact hedit

end Heap

end

/-! ### Histories -/

/-- How an object is made. -/
inductive Making where
  | object (type : Ty) (entries : List (String × Value))
  | array (component : Ty) (items : List Value)
  | list (type : Ty) (items : List Value)
  | set (type : Ty) (items : List Value)
  | map (type : Ty) (entries : List (Value × Value))

namespace Making

def type : Making → Ty
  | array component _ => .array component
  | object type _ | list type _ | set type _ | map type _ => type

/-- What the new object holds. -/
def body : Making → Body
  | object _ entries => .fields (putAll [] entries)
  | array _ items => .array items
  | list _ items => .list items
  | set _ items => .set items.eraseDups
  | map _ entries => .map (putAll [] entries)

theorem distinct (m : Making) : m.body.Distinct := by
  cases m with
  | object => exact nodup_putAll List.nodup_nil
  | set => exact nodup_eraseDups _
  | map => exact nodup_putAll List.nodup_nil
  | _ => trivial

end Making

inductive Action where
  | make (m : Making)
  | edit (id : ObjectId) (e : Edit)

namespace Heap

variable {h : Heap} {id : ObjectId}

def make (h : Heap) : Making → Heap × ObjectId
  | .object type entries => h.newObject type entries
  | .array component items => h.newArray component items
  | .list type items => h.newList type items
  | .set type items => h.newSet type items
  | .map type entries => h.newMap type entries

theorem make_eq (h : Heap) (m : Making) : h.make m = h.alloc m.type m.body := by
  cases m with
  | set type items => exact newSet_eq type items
  | map type entries => exact newMap_eq type entries
  | _ => rfl

def apply (h : Heap) : Action → Heap
  | .make m => (h.make m).1
  | .edit id e => (h.edit id e).1

def after (h : Heap) (actions : List Action) : Heap := actions.foldl apply h

/-- No object holds an element, a key or a field twice. -/
def Distinct (h : Heap) : Prop := ∀ id o, h.get? id = some o → o.body.Distinct

theorem distinct_empty : empty.Distinct := by
  intro id o ho
  cases lt_size ho

theorem Distinct.body? (hd : h.Distinct) {body : Body} (hbody : h.body? id = some body) : body.Distinct := by
  obtain ⟨o, ho, rfl⟩ := Option.map_eq_some_iff.1 hbody
  exact hd id o ho

theorem Distinct.make (hd : h.Distinct) (m : Making) : (h.make m).1.Distinct := by
  intro id o ho
  rw [make_eq, get?_alloc] at ho
  by_cases hid : id = h.size
  · rw [if_pos hid] at ho
    cases ho
    exact m.distinct
  · rw [if_neg hid] at ho
    exact hd id o ho

theorem Distinct.edit (hd : h.Distinct) (id : ObjectId) (e : Edit) : (h.edit id e).1.Distinct := by
  rcases edit_cases h id e with ⟨o, after, reply, ho, hc, hedit⟩ | ⟨-, hedit⟩
  · intro a p hp
    rw [hedit] at hp
    by_cases ha : a = id
    · subst ha
      rw [get?_setBody after ho] at hp
      cases hp
      exact hc.distinct (hd a o ho)
    · rw [get?_setBody_of_ne after ha] at hp
      exact hd a p hp
  · rw [hedit]
    exact hd

theorem Distinct.apply (hd : h.Distinct) (a : Action) : (h.apply a).Distinct := by
  cases a with
  | make m => exact hd.make m
  | edit id e => exact hd.edit id e

theorem Distinct.after (hd : h.Distinct) (actions : List Action) : (h.after actions).Distinct := by
  induction actions generalizing h with
  | nil => exact hd
  | cons a actions ih => exact ih (hd.apply a)

/-- What the comparison of objects asks of a heap holds of every heap that was built. -/
theorem bodiesDistinct_after (actions : List Action) : (empty.after actions).BodiesDistinct := by
  intro o ho
  obtain ⟨id, hid⟩ := Array.mem_iff_getElem?.1 ho
  have hbody : o.body.Distinct := distinct_empty.after actions id o hid
  cases hshape : o.body with
  | fields | map =>
    rw [hshape] at hbody
    exact hbody
  | _ => trivial

end Heap

/-! ### What maps were given -/

/-- The entries of a map. Other bodies have none. -/
def Body.entries : Body → List (Value × Value)
  | .map entries => entries
  | _ => []

def Heap.entries (h : Heap) (id : ObjectId) : List (Value × Value) := ((h.body? id).map Body.entries).getD []

/-- The entries that a new map is given. -/
def Making.puts : Making → List (Value × Value)
  | .map _ entries => entries
  | _ => []

def Edit.puts : Edit → List (Value × Value)
  | .put k v => [(k, v)]
  | _ => []

/-- The entries that an action puts into a map. What is put where no map is does not count. -/
def Action.puts (h : Heap) (id : ObjectId) : Action → List (Value × Value)
  | .make m => if id = h.size then m.puts else []
  | .edit a e => if a = id ∧ h.shape? id = some .map then e.puts else []

/-- All that actions put into a map, oldest first. -/
def Heap.puts (h : Heap) (id : ObjectId) : List Action → List (Value × Value)
  | [] => []
  | a :: actions => a.puts h id ++ (h.apply a).puts id actions

theorem Making.entries_body (m : Making) : m.body.entries = putAll [] m.puts := by
  cases m <;> rfl

theorem Edit.Changes.entries {e : Edit} {body after : Body} {reply : Reply} (hc : e.Changes body after reply) :
    after.entries = putAll body.entries (if body.shape = .map then e.puts else []) := by
  cases hc <;> rfl

namespace Heap

variable {h : Heap} {id : ObjectId}

theorem entries_of_get? {o : Obj} (ho : h.get? id = some o) : h.entries id = o.body.entries := by
  rw [entries, body?_of_get? ho]
  rfl

theorem entries_congr {h' : Heap} (hget : h'.get? id = h.get? id) : h'.entries id = h.entries id := by
  rw [entries, entries, body?, body?, hget]

theorem entries_make (h : Heap) (id : ObjectId) (m : Making) :
    (h.make m).1.entries id = putAll (h.entries id) ((Action.make m).puts h id) := by
  rw [make_eq, Action.puts]
  by_cases hid : id = h.size
  · have hnone : h.entries h.size = [] := by simp [entries, body?, get?, size]
    rw [hid, if_pos rfl, hnone, entries_of_get? (get?_alloc_self m.type m.body), m.entries_body]
  · rw [if_neg hid]
    apply entries_congr
    rw [get?_alloc, if_neg hid]

theorem entries_edit (h : Heap) (id a : ObjectId) (e : Edit) :
    (h.edit a e).1.entries id = putAll (h.entries id) ((Action.edit a e).puts h id) := by
  rw [Action.puts]
  rcases edit_cases h a e with ⟨o, after, reply, ho, hc, hedit⟩ | ⟨hother, hedit⟩
  · rw [hedit]
    by_cases ha : a = id
    · subst ha
      rw [entries_of_get? (get?_setBody after ho), entries_of_get? ho, hc.entries, shape?_of_get? ho]
      simp only [true_and, Option.some.injEq]
    · rw [if_neg fun hboth => ha hboth.1]
      exact entries_congr (get?_setBody_of_ne after (Ne.symm ha))
  · rw [hedit]
    -- Only a put could count, and it found no map.
    cases e with
    | put k v =>
      have hmap : ¬(a = id ∧ h.shape? id = some .map) := by
        rintro ⟨rfl, hmap⟩
        exact hother .map (List.mem_singleton.2 rfl) hmap
      rw [if_neg hmap]
      rfl
    | _ => simp [Edit.puts, putAll]

/-- A map holds what it was given, under each key what it was given last. -/
theorem entries_after (h : Heap) (id : ObjectId) (actions : List Action) :
    (h.after actions).entries id = putAll (h.entries id) (h.puts id actions) := by
  induction actions generalizing h with
  | nil => rfl
  | cons a actions ih =>
    have hstep : (h.apply a).entries id = putAll (h.entries id) (a.puts h id) := by
      cases a with
      | make m => exact entries_make h id m
      | edit a e => exact entries_edit h id a e
    rw [puts, putAll_append, ← hstep]
    exact ih (h.apply a)

theorem findValue?_entries_after (actions : List Action) (id : ObjectId) (k : Value) :
    findValue? k ((empty.after actions).entries id) =
      ((empty.puts id actions).reverse.find? (·.1.same k)).map (·.2) := by
  have hstart : empty.entries id = [] := by simp [entries, body?, get?, empty]
  have hsame : (fun e : Value × Value => e.1.same k) = fun e => decide (e.1 = k) := by
    funext e
    exact Value.same_eq e.1 k
  rw [entries_after, hstart, findValue?_putAll_reverse, findValue?_eq_find?, hsame]
  exact Option.or_none

/-! ### Sets and maps -/

theorem push_set_spec {items : List Value} (hbody : h.body? id = some (.set items)) (v : Value) :
    ∃ items', (h.push id v).1.body? id = some (.set items') ∧
      ((h.push id v).2 ↔ items.length < items'.length) ∧ ((h.push id v).2 ↔ ∀ w ∈ items, ¬w.same v) ∧
      (items' = items ∨ items' = items ++ [v]) := by
  obtain ⟨o, ho, hset⟩ := Option.map_eq_some_iff.1 hbody
  by_cases hv : v ∈ items
  · rw [push_set_of_mem ho hset hv]
    refine ⟨items, hbody, by simp, ?_, .inl rfl⟩
    apply iff_of_false Bool.false_ne_true
    intro hapart
    exact hapart v hv (Value.same_iff.2 rfl)
  · rw [push_set ho hset hv]
    refine ⟨items ++ [v], body?_of_get? (get?_setBody _ ho), by simp, ?_, .inr rfl⟩
    apply iff_of_true rfl
    intro w hw hsame
    rw [Value.same_iff.1 hsame] at hw
    exact hv hw

theorem put_map_spec {entries : List (Value × Value)} (hbody : h.body? id = some (.map entries)) (k v : Value) :
    ∃ entries', (h.put id k v).1.body? id = some (.map entries') ∧
      ((h.put id k v).2 = none ↔ entries' = entries ++ [(k, v)]) ∧
      ∀ w, (h.put id k v).2 = some w →
        ∃ i k', entries[i]? = some (k', w) ∧ k'.same k ∧ entries' = entries.set i (k', v) := by
  obtain ⟨o, ho, hmap⟩ := Option.map_eq_some_iff.1 hbody
  rw [put_map ho hmap]
  refine ⟨putEntry k v entries, body?_of_get? (get?_setBody _ ho), putEntry_eq_concat_iff.symm, ?_⟩
  intro w hw
  obtain ⟨i, hi, hput⟩ := putEntry_of_findValue? (v := v) hw
  exact ⟨i, k, hi, Value.same_iff.2 rfl, hput⟩

/-- Of all heaps that come about by making objects and editing them. Sameness is an equivalence: identity for
objects, kind and bits for scalars. No two elements of a set are the same; a push tells whether the set has grown,
which is whether it held no such element. No two keys of a map are the same; putting gives the value that was put
last under the key, which stays at its place, and gives none if and only if an entry was added at the end. An edit
that is not meant for the object's shape changes nothing. -/
theorem elements_and_keys_stay_distinct (actions : List Action) :
    let h := empty.after actions
    Equivalence (fun v w : Value => v.same w) ∧
    (∀ a b, (Value.object a).same (.object b) ↔ a = b) ∧
    (∀ l l', (Value.scalar l).same (.scalar l') ↔ l.kind? = l'.kind? ∧ l.key.2 = l'.key.2) ∧
    (∀ id items, h.body? id = some (.set items) →
      items.Pairwise (fun v w => ¬v.same w) ∧
      ∀ v, ∃ items', (h.push id v).1.body? id = some (.set items') ∧
        ((h.push id v).2 ↔ items.length < items'.length) ∧ ((h.push id v).2 ↔ ∀ w ∈ items, ¬w.same v) ∧
        (items' = items ∨ items' = items ++ [v])) ∧
    (∀ id entries, h.body? id = some (.map entries) →
      entries.Pairwise (fun x y => ¬x.1.same y.1) ∧
      ∀ k v, (h.put id k v).2 = ((empty.puts id actions).reverse.find? (·.1.same k)).map (·.2) ∧
        ∃ entries', (h.put id k v).1.body? id = some (.map entries') ∧
          ((h.put id k v).2 = none ↔ entries' = entries ++ [(k, v)]) ∧
          ∀ w, (h.put id k v).2 = some w →
            ∃ i k', entries[i]? = some (k', w) ∧ k'.same k ∧ entries' = entries.set i (k', v)) ∧
    ∀ id e, (∀ s ∈ e.shapes, h.shape? id ≠ some s) → h.edit id e = (h, e.refusal) := by
  intro h
  have hdistinct : h.Distinct := distinct_empty.after actions
  refine ⟨Value.same_equivalence, ?_, fun l l' => Value.same_scalar, ?_, ?_, ?_⟩
  · intro a b
    rw [Value.same_iff, Value.object.injEq]
  · intro id items hbody
    have hnodup : items.Nodup := hdistinct.body? hbody
    refine ⟨hnodup.imp fun hne hsame => hne (Value.same_iff.1 hsame), ?_⟩
    exact push_set_spec hbody
  · intro id entries hbody
    have hnodup : (entries.map (·.1)).Nodup := hdistinct.body? hbody
    have hkeys : entries.Pairwise fun x y => x.1 ≠ y.1 := List.pairwise_map.1 hnodup
    refine ⟨hkeys.imp fun hne hsame => hne (Value.same_iff.1 hsame), fun k v => ⟨?_, put_map_spec hbody k v⟩⟩
    obtain ⟨o, ho, hmap⟩ := Option.map_eq_some_iff.1 hbody
    have hentries : h.entries id = entries := by rw [entries_of_get? ho, hmap, Body.entries]
    rw [put_map ho hmap, ← findValue?_entries_after, hentries]
  · intro id e hother
    exact edit_of_other_shape hother

/-- A list that is an element and a key is known again after it was pushed into itself, and so is a NaN. Zero and
negative zero are two elements, and two keys. -/
theorem changed_list_known_again :
    let list : Value := .object 0
    let zero : Value := .scalar (.double 0)
    let negative : Value := .scalar (.double 0x8000000000000000)
    let nan : Value := .scalar (.double 0x7FF8000000000000)
    let actions : List Action := [.make (.list (.ofClass "ArrayList") []),
      .make (.set (.ofClass "HashSet") [list, zero, negative, nan, list, nan]),
      .make (.map (.ofClass "HashMap") [(list, zero), (nan, zero), (zero, list)]),
      .edit 0 (.push list), .edit 2 (.put list nan)]
    let h := empty.after actions
    h.body? 1 = some (.set [list, zero, negative, nan]) ∧ (h.push 1 list).2 = false ∧
      (h.put 2 list zero).2 = some nan ∧ (h.put 2 nan list).2 = some zero ∧ (h.put 2 negative list).2 = none := by
  intro list zero negative nan actions h
  obtain ⟨-, -, -, hsets, hmaps, -⟩ := elements_and_keys_stay_distinct actions
  have hset : h.body? 1 = some (.set [list, zero, negative, nan]) := by decide
  have hmap : h.body? 2 = some (.map [(list, nan), (nan, zero), (zero, list)]) := by decide
  have hputs : empty.puts 2 actions = [(list, zero), (nan, zero), (zero, list), (list, nan)] := by decide
  obtain ⟨-, hput⟩ := hmaps 2 _ hmap
  have hlast (k v : Value) : (h.put 2 k v).2 =
      (([(list, zero), (nan, zero), (zero, list), (list, nan)].reverse).find? (·.1.same k)).map (·.2) := by
    rw [← hputs]
    exact (hput k v).1
  obtain ⟨items', -, -, hapart, -⟩ := (hsets 1 _ hset).2 list
  refine ⟨hset, ?_, (hlast list zero).trans (by decide), (hlast nan list).trans (by decide),
    (hlast negative list).trans (by decide)⟩
  rw [← Bool.not_eq_true]
  intro hgrown
  exact hapart.1 hgrown list List.mem_cons_self (by decide)

end Heap

end Reenact
