import Reenact.Slots

/-!
Deep equality of two structures, each a heap of live objects or a value graph. Pairs of references
are put on a worklist once and compared there, so sharing and cycles cost nothing; pairs of atoms
are compared at once. Sets of atoms are compared as multisets, maps with atoms for keys by key,
and all other contents slot by slot.
-/

namespace Reenact

inductive Plain where
  | null
  | scalar (l : Literal)
  | constant (type name : String)
  deriving DecidableEq

inductive Inspected (ν : Type) where
  | plain (p : Plain)
  | composite (type : Ty) (slots : Slots ν)
  | unreadable

/-- A structure to compare: which nodes have an identity, and what a node shows. -/
structure Structure (ν : Type) where
  identity : ν → Option Nat
  inspect : ν → Inspected ν
  bound : Nat
  identity_lt : ∀ {n i}, identity n = some i → i < bound
  identity_inj : ∀ {m n i}, identity m = some i → identity n = some i → m = n
  /-- Only references have parts. -/
  identity_isSome : ∀ {n type slots}, inspect n = .composite type slots → (identity n).isSome

def Heap.inspect (h : Heap) (types : ClassTable) : Value → Inspected Value
  | .null => .plain .null
  | .scalar l => .plain (.scalar l)
  | .constant type name => .plain (.constant type name)
  | .object id =>
    match h.get? id with
    | none => .unreadable
    | some o =>
      match o.slots? types with
      | some slots => .composite o.type slots
      | none => .unreadable

def Heap.identity (h : Heap) : Value → Option Nat
  | .object id => if id < h.size then some id else none
  | _ => none

theorem Heap.identity_eq_some {h : Heap} {v : Value} {i : Nat} :
    h.identity v = some i ↔ v = .object i ∧ i < h.size := by
  cases v <;> simp [identity]
  constructor
  · rintro ⟨hlt, rfl⟩; exact ⟨rfl, hlt⟩
  · rintro ⟨rfl, hlt⟩; exact ⟨hlt, rfl⟩

def Heap.structure (h : Heap) (types : ClassTable) : Structure Value where
  identity := h.identity
  inspect := h.inspect types
  bound := h.size
  identity_lt hi := (Heap.identity_eq_some.1 hi).2
  identity_inj hm hn := (Heap.identity_eq_some.1 hm).1.trans (Heap.identity_eq_some.1 hn).1.symm
  identity_isSome {n type slots} hn := by
    cases n with
    | object id =>
      have hid : (h.get? id).isSome := by
        cases found : h.get? id <;> simp [Heap.inspect, found] at hn ⊢
      simp [Heap.identity, Heap.get?_isSome.1 hid]
    | null => simp [Heap.inspect] at hn
    | scalar => simp [Heap.inspect] at hn
    | constant => simp [Heap.inspect] at hn

def Graph.inspect (g : Graph) (id : NodeId) : Inspected NodeId :=
  match g.get? id with
  | none => .unreadable
  | some (.atom (.literal _ value)) => .plain (.scalar value)
  | some (.atom (.null _)) => .plain .null
  | some (.constant _ runtime name) => .plain (.constant (runtime.className?.getD "") name)
  | some (.composite _ runtime content) => .composite runtime content.slots

def Graph.identity (g : Graph) (id : NodeId) : Option Nat :=
  match g.get? id with
  | some n => if n.isReference then some id else none
  | none => none

theorem Graph.identity_eq_some {g : Graph} {id i : NodeId} :
    g.identity id = some i ↔ id = i ∧ ∃ n, g.get? i = some n ∧ n.isReference := by
  unfold identity
  constructor
  · intro hi
    split at hi
    · next n found =>
      split at hi <;> cases hi
      exact ⟨rfl, n, found, by assumption⟩
    · cases hi
  · rintro ⟨rfl, n, found, href⟩
    simp [found, href]

def Graph.structure (g : Graph) : Structure NodeId where
  identity := g.identity
  inspect := g.inspect
  bound := g.size
  identity_lt hi := by
    obtain ⟨_, _, found, _⟩ := Graph.identity_eq_some.1 hi
    exact (Array.getElem?_eq_some_iff.1 found).1
  identity_inj hm hn := (Graph.identity_eq_some.1 hm).1.trans (Graph.identity_eq_some.1 hn).1.symm
  identity_isSome {n type slots} hn := by
    unfold Graph.inspect at hn
    split at hn <;> simp_all [Graph.identity, Node.isReference]

namespace Structure

variable {ν μ : Type}

/-- What a node without identity shows, if it is a plain value. -/
def plain? (s : Structure ν) (n : ν) : Option Plain :=
  match s.identity n, s.inspect n with
  | none, .plain p => some p
  | _, _ => none

def plains? (s : Structure ν) (ns : List ν) : Option (List Plain) := ns.mapM s.plain?

end Structure

/-- Pairs of references: those to compare yet, and the identities of all that were ever put here. -/
structure Worklist (ν μ : Type) where
  queue : List (ν × μ)
  seen : List (Nat × Nat)

def Worklist.empty {ν μ : Type} : Worklist ν μ := ⟨[], []⟩

namespace DeepEquality

variable {ν μ : Type}

/-- Every field on the left beside the field that it is compared with: the one in the equal slot,
else the first of the same name. -/
def fieldPartners (left : List (Slot × ν)) (right : List (Slot × μ)) : List (ν × Option μ) :=
  left.map fun (slot, value) =>
    let equal := right.find? (·.1 == slot)
    let named := right.find? fun (other, _) =>
      slot.fieldName?.isSome && other.fieldName? == slot.fieldName?
    (value, (equal <|> named).map (·.2))

/-- Every value on the left beside the right side's value under the equal key. A key that the right
side holds more than once stands for its last value. -/
def keyPartners (left : List (Plain × ν)) (right : List (Plain × μ)) : List (ν × Option μ) :=
  left.map fun (key, value) => (value, (right.reverse.find? (·.1 == key)).map (·.2))

def positionPartners (left : List ν) (right : List μ) : List (ν × Option μ) :=
  (left.zip right).map fun (l, r) => (l, some r)

/-- The keys and values of a map's slots, which alternate. -/
def unzipEntries {α : Type} : List α → List (α × α)
  | k :: v :: rest => (k, v) :: unzipEntries rest
  | _ => []

variable (s : Structure ν) (t : Structure μ)

def plainEntries? (s : Structure ν) (nodes : List ν) : Option (List (Plain × ν)) :=
  (unzipEntries nodes).mapM fun (k, v) => (s.plain? k).map (·, v)

/-- What two contents of one shape and length demand: `none` if they differ whatever their parts
are, else the partners to compare. -/
def demands (left : Slots ν) (right : Slots μ) : Option (List (ν × Option μ)) :=
  match left.shape with
  | .object => some (fieldPartners left.entries right.entries)
  | .array | .list => some (positionPartners left.nodes right.nodes)
  | .set =>
    match s.plains? left.nodes, t.plains? right.nodes with
    | some as, some bs => if as.isPerm bs then some [] else none
    | _, _ => some (positionPartners left.nodes right.nodes)
  | .map =>
    match plainEntries? s left.nodes, plainEntries? t right.nodes with
    | some as, some bs => some (keyPartners as bs)
    | _, _ => some (positionPartners left.nodes right.nodes)

/-- Puts a pair on the worklist unless it was there before. -/
def enqueue (w : Worklist ν μ) (l : ν) (r : μ) (ids : Nat × Nat) : Worklist ν μ :=
  if ids ∈ w.seen then w else ⟨w.queue ++ [(l, r)], ids :: w.seen⟩

/-- Two references are deferred to the worklist. Any other pair is decided at once: it is equal only
if both show the same plain value. -/
def pair (l : ν) (r : μ) (w : Worklist ν μ) : Bool × Worklist ν μ :=
  match s.identity l, t.identity r with
  | some i, some j => (true, enqueue w l r (i, j))
  | _, _ =>
    match s.inspect l, t.inspect r with
    | .plain a, .plain b => (a == b, w)
    | _, _ => (false, w)

/-- Pairs values with their partners in turn, up to the first that has none or differs. -/
def pairAll : List (ν × Option μ) → Worklist ν μ → Bool × Worklist ν μ
  | [], w => (true, w)
  | (_, none) :: _, w => (false, w)
  | (l, some r) :: rest, w =>
    match pair s t l r w with
    | (true, w) => pairAll rest w
    | (false, w) => (false, w)

/-- Compares what two references hold, deferring the references in it. -/
def compare (l : ν) (r : μ) (w : Worklist ν μ) : Bool × Worklist ν μ :=
  match s.inspect l, t.inspect r with
  | .composite lt left, .composite rt right =>
    if lt.erasure = rt.erasure ∧ left.shape = right.shape
        ∧ left.entries.length = right.entries.length then
      match demands s t left right with
      | some partners => pairAll s t partners w
      | none => (false, w)
    else (false, w)
  | .plain a, .plain b => (a == b, w)
  | _, _ => (false, w)

/-- Compares the pairs on the worklist, first come first served, up to the first that differs. -/
def drainUpTo : (steps : Nat) → Worklist ν μ → Bool × Worklist ν μ
  | 0, w => (w.queue.isEmpty, w)
  | steps + 1, w =>
    match w.queue with
    | [] => (true, w)
    | (l, r) :: rest =>
      match compare s t l r { w with queue := rest } with
      | (true, w) => drainUpTo steps w
      | (false, w) => (false, w)

/-- Empties the worklist. Every pair of identities is queued at most once, so the number of pairs
bounds the steps. -/
def drain (w : Worklist ν μ) : Bool × Worklist ν μ :=
  drainUpTo s t (w.queue.length + s.bound * t.bound) w

def equals (l : ν) (r : μ) : Bool :=
  match pair s t l r .empty with
  | (true, w) => (drain s t w).1
  | (false, _) => false

end DeepEquality

def Heap.equal (h : Heap) (types : ClassTable) (a b : Value) : Bool :=
  DeepEquality.equals (h.structure types) (h.structure types) a b

/-- Whether two captured values, of one graph or of two, are deeply equal. -/
def Graph.equal (g : Graph) (a : NodeId) (g' : Graph) (b : NodeId) : Bool :=
  DeepEquality.equals g.structure g'.structure a b

def Graph.matchesLive (g : Graph) (id : NodeId) (h : Heap) (types : ClassTable) (v : Value) :
    Bool :=
  DeepEquality.equals g.structure (h.structure types) id v

end Reenact
