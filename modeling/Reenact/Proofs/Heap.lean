import Mathlib
import Reenact.Live.Heap
import Reenact.Proofs.Assoc

/-!
What a heap holds under each number after an object was allocated or changed.
-/

namespace Reenact

theorem eraseDups_concat {α : Type} [DecidableEq α] (as : List α) (a : α) :
    (as ++ [a]).eraseDups = if a ∈ as then as.eraseDups else as.eraseDups ++ [a] := by
  rw [List.eraseDups_append]
  by_cases ha : a ∈ as
  · simp [List.removeAll, ha]
  · simp [List.removeAll, ha, List.eraseDups_cons]

theorem eraseDups_of_nodup {α : Type} [DecidableEq α] {as : List α} (h : as.Nodup) : as.eraseDups = as := by
  induction as using List.reverseRecOn with
  | nil => rfl
  | append_singleton as a ih =>
    rw [← List.concat_eq_append, List.nodup_concat] at h
    rw [eraseDups_concat, if_neg h.1, ih h.2]

namespace Heap

variable {h : Heap} {id a : ObjectId} {o : Obj}

theorem lt_size (ha : h.get? a = some o) : a < h.size := get?_isSome.1 (by simp [ha])

@[simp]
theorem size_alloc (type : Ty) (body : Body) : (h.alloc type body).1.size = h.size + 1 := by
  simp [alloc, size]

theorem get?_alloc (type : Ty) (body : Body) :
    (h.alloc type body).1.get? a = if a = h.size then some ⟨type, body, false⟩ else h.get? a := by
  simp only [alloc, get?, size, Array.getElem?_push]
  split <;> simp_all

theorem get?_alloc_self (type : Ty) (body : Body) :
    (h.alloc type body).1.get? h.size = some ⟨type, body, false⟩ := by
  simp [get?_alloc]

theorem get?_alloc_of_get? (type : Ty) (body : Body) (ha : h.get? a = some o) :
    (h.alloc type body).1.get? a = some o := by
  rw [get?_alloc, if_neg (Nat.ne_of_lt (lt_size ha))]
  exact ha

@[simp]
theorem size_setBody (body : Body) : (h.setBody id body).size = h.size := by
  simp [setBody, size]

theorem get?_setBody_of_ne (body : Body) (hne : a ≠ id) :
    (h.setBody id body).get? a = h.get? a := by
  simp [setBody, get?, Array.getElem?_modify, Ne.symm hne]

theorem get?_setBody (body : Body) (ho : h.get? id = some o) :
    (h.setBody id body).get? id = some { o with body } := by
  unfold get? at ho
  simp [setBody, get?, Array.getElem?_modify, ho]

theorem setBody_self (ho : h.get? id = some o) : h.setBody id o.body = h := by
  unfold get? at ho
  obtain ⟨objects⟩ := h
  simp only [setBody, Heap.mk.injEq]
  apply Array.ext_getElem?
  intro i
  by_cases hi : id = i
  · subst hi
    simp [Array.getElem?_modify, ho]
  · simp [Array.getElem?_modify, hi]

theorem setBody_alloc (type : Ty) (body body' : Body) :
    (h.alloc type body).1.setBody h.size body' = (h.alloc type body').1 := by
  simp only [setBody, alloc, size, Heap.mk.injEq]
  apply Array.ext_getElem?
  intro i
  by_cases hi : h.objects.size = i
  · subst hi
    rw [Array.getElem?_modify, if_pos rfl, Array.getElem?_push_size, Array.getElem?_push_size]
    rfl
  · simp [Array.getElem?_modify, Array.getElem?_push, hi, Ne.symm hi]

theorem body?_of_get? (ho : h.get? id = some o) : h.body? id = some o.body := by
  simp [body?, ho]

/-! ### Storing parts -/

variable {v k : Value} {items : List Value} {entries : List (Value × Value)}

theorem push_list (ho : h.get? id = some o) (hbody : o.body = .list items) :
    h.push id v = (h.setBody id (.list (items ++ [v])), true) := by
  simp [push, body?_of_get? ho, hbody]

theorem push_set (ho : h.get? id = some o) (hbody : o.body = .set items) (hv : v ∉ items) :
    h.push id v = (h.setBody id (.set (items ++ [v])), true) := by
  simp [push, body?_of_get? ho, hbody, hv]

theorem push_set_of_mem (ho : h.get? id = some o) (hbody : o.body = .set items) (hv : v ∈ items) :
    h.push id v = (h, false) := by
  simp [push, body?_of_get? ho, hbody, hv]

theorem put_map (ho : h.get? id = some o) (hbody : o.body = .map entries) :
    h.put id k v = (h.setBody id (.map (putEntry k v entries)), findValue? k entries) := by
  simp [put, body?_of_get? ho, hbody]

theorem setField_fields {stored : List (String × Value)} {name : String} (ho : h.get? id = some o)
    (hbody : o.body = .fields stored) :
    h.setField id name v = (h.setBody id (.fields (putEntry name v stored)), true) := by
  simp [setField, body?_of_get? ho, hbody]

/-- Behind the end of an array or a list nothing is stored. -/
theorem setElement_eq {make : List Value → Body} (hmake : make = .array ∨ make = .list) (i : Nat) (v : Value)
    (ho : h.get? id = some o) (hbody : o.body = make items) :
    h.setElement id i v = (h.setBody id (make (items.set i v)), decide (i < items.length)) := by
  have hcases : h.setElement id i v =
      if i < items.length then (h.setBody id (make (items.set i v)), true) else (h, false) := by
    rcases hmake with rfl | rfl <;> simp only [setElement, body?_of_get? ho, hbody]
  rw [hcases]
  by_cases hi : i < items.length
  · rw [if_pos hi, decide_eq_true hi]
  · have hset : items.set i v = items := List.set_eq_of_length_le (Nat.not_lt.1 hi)
    rw [if_neg hi, decide_eq_false hi, hset, ← hbody, setBody_self ho]

theorem setElement_array {i : Nat} (ho : h.get? id = some o) (hbody : o.body = .array items)
    (hi : i < items.length) :
    h.setElement id i v = (h.setBody id (.array (items.set i v)), true) := by
  rw [setElement_eq (.inl rfl) i v ho hbody, decide_eq_true hi]

/-- Of values given more than once a new set holds the first. -/
theorem newSet_eq (type : Ty) (items : List Value) :
    h.newSet type items = h.alloc type (.set items.eraseDups) := by
  induction items using List.reverseRecOn with
  | nil => rfl
  | append_singleton items v ih =>
    -- The last item is pushed to the set of those before it.
    have hstep : h.newSet type (items ++ [v]) =
        (((h.newSet type items).1.push (h.newSet type items).2 v).1, (h.newSet type items).2) := by
      rw [newSet, List.foldl_append]
      rfl
    rw [hstep, ih, eraseDups_concat]
    by_cases hv : v ∈ items
    · have hpush : ((h.alloc type (.set items.eraseDups)).1.push h.size v).1 =
          (h.alloc type (.set items.eraseDups)).1 := by
        rw [push_set_of_mem (get?_alloc_self type _) rfl (List.mem_eraseDups.2 hv)]
      rw [if_pos hv]
      exact Prod.ext hpush rfl
    · have hpush : ((h.alloc type (.set items.eraseDups)).1.push h.size v).1 =
          (h.alloc type (.set (items.eraseDups ++ [v]))).1 := by
        rw [push_set (get?_alloc_self type _) rfl fun hmem => hv (List.mem_eraseDups.1 hmem), setBody_alloc]
      rw [if_neg hv]
      exact Prod.ext hpush rfl

/-- Distinct values all go into a new set. -/
theorem newSet_of_nodup (type : Ty) (hitems : items.Nodup) :
    h.newSet type items = h.alloc type (.set items) := by
  rw [newSet_eq, eraseDups_of_nodup hitems]

theorem newMap_eq (type : Ty) (entries : List (Value × Value)) :
    h.newMap type entries = h.alloc type (.map (putAll [] entries)) := by
  induction entries using List.reverseRecOn with
  | nil => rfl
  | append_singleton entries e ih =>
    have hstep : h.newMap type (entries ++ [e]) =
        (((h.newMap type entries).1.put (h.newMap type entries).2 e.1 e.2).1, (h.newMap type entries).2) := by
      rw [newMap, List.foldl_append]
      rfl
    have hput : ((h.alloc type (.map (putAll [] entries))).1.put h.size e.1 e.2).1 =
        (h.alloc type (.map (putEntry e.1 e.2 (putAll [] entries)))).1 := by
      rw [put_map (get?_alloc_self type _) rfl, setBody_alloc]
    rw [hstep, ih, putAll_append]
    exact Prod.ext hput rfl

/-- Fields of distinct names are stored as they come. -/
theorem newObject_of_nodup (type : Ty) {stored : List (String × Value)}
    (hnames : (stored.map (·.1)).Nodup) :
    h.newObject type stored = h.alloc type (.fields stored) := by
  have hall : stored.foldl (fun es e => putEntry e.1 e.2 es) [] = stored :=
    @putAll_of_nodup _ _ _ [] _ hnames
  exact congrArg (fun es => h.alloc type (.fields es)) hall

end Heap

end Reenact
