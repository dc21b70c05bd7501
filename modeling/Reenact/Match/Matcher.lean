import Reenact.Equality
import Reenact.Match.Pairing

/-!
Matchers: descriptions of the values that an assertion accepts, the test whether a value is
accepted, and the texts of an assertion that fails.
-/

namespace Reenact

inductive Matcher where
  | equalTo (expected : Value)
  | nullValue
  | instanceOf (type : Ty)
  /-- A list or a set with these elements in order. -/
  | inOrder (elements : List Matcher)
  | arrayOf (elements : List Matcher)
  /-- A list, a set or an array whose elements can be matched up with these. -/
  | anyOrder (elements : List Matcher)
  /-- A map whose entries can be matched up with these. -/
  | mapOf (entries : List (Matcher × Matcher))
  /-- An array of exactly this primitive component with these values. -/
  | primitives (kind : Primitive) (values : List Literal)
  /-- A plain object of the class, or when not `exact` of any class that fits it, in which the first
  field of each name holds the value or is matched. -/
  | fieldwise (exact : Bool) (type : Ty) (fields : List (String × (Value ⊕ Matcher)))

structure AssertionError where
  expected : String
  actual : String
  deriving DecidableEq, Repr

def AssertionError.message (e : AssertionError) : String :=
  s!"expected: {e.expected}\n     but: {e.actual}"

namespace Matcher

def parts? (h : Heap) (types : ClassTable) (shapes : List Shape) (v : Value) :
    Option (List Value) :=
  match v with
  | .object id =>
    match h.slots? types id with
    | some slots => if slots.shape ∈ shapes then some slots.nodes else none
    | none => none
  | _ => none

def componentOf? (h : Heap) : Value → Option Ty
  | .object id => (h.get? id).bind (·.type.component?)
  | _ => none

def isInstance (h : Heap) (types : ClassTable) (type : Ty) (v : Value) : Bool :=
  match h.typeOf? v with
  | some t => types.isAssignable t type
  | none => false

/-- The slots of a plain object, or of any other, whose class is accepted. -/
def acceptedSlots? (h : Heap) (types : ClassTable) (exact : Bool) (type : Ty) (v : Value) :
    Option (Slots Value) :=
  match v with
  | .object id =>
    match h.get? id with
    | some o =>
      if (if exact then decide (o.type.erasure = type.erasure) else types.isAssignable o.type type)
      then o.slots? types
      else none
    | none => none
  | _ => none

mutual

def accepts (h : Heap) (types : ClassTable) : Matcher → Value → Bool
  | .equalTo expected, v => h.equal types expected v
  | .nullValue, v => v == .null
  | .instanceOf type, v => isInstance h types type v
  | .inOrder elements, v =>
    match parts? h types [.list, .set] v with
    | some items => items.length == elements.length && acceptsEach h types elements items
    | none => false
  | .arrayOf elements, v =>
    match parts? h types [.array] v with
    | some items => items.length == elements.length && acceptsEach h types elements items
    | none => false
  | .anyOrder elements, v =>
    match parts? h types [.list, .set, .array] v with
    | some items =>
      items.length == elements.length && Pairing.perfect (elementTable h types elements items)
    | none => false
  | .mapOf es, v =>
    match parts? h types [.map] v with
    | some items =>
      let pairs := DeepEquality.unzipEntries items
      pairs.length == es.length && Pairing.perfect (entryTable h types es pairs)
    | none => false
  | .primitives kind values, v =>
    componentOf? h v == some (.primitive kind)
      && (parts? h types [.array] v).map (·.map Value.literal?) == some (values.map some)
  | .fieldwise exact type fields, v =>
    match acceptedSlots? h types exact type v with
    | some slots => acceptsFields h types slots fields .empty
    | none => false

def acceptsEach (h : Heap) (types : ClassTable) : List Matcher → List Value → Bool
  | m :: ms, v :: vs => accepts h types m v && acceptsEach h types ms vs
  | _, _ => true

def elementTable (h : Heap) (types : ClassTable) : List Matcher → List Value → List (List Bool)
  | [], _ => []
  | m :: ms, vs => vs.map (fun v => accepts h types m v) :: elementTable h types ms vs

def entryTable (h : Heap) (types : ClassTable) :
    List (Matcher × Matcher) → List (Value × Value) → List (List Bool)
  | [], _ => []
  | (k, m) :: rest, vs =>
    vs.map (fun (a, b) => accepts h types k a && accepts h types m b)
      :: entryTable h types rest vs

/-- All expected values of an object are compared on one worklist, which is emptied at the end. -/
def acceptsFields (h : Heap) (types : ClassTable) (slots : Slots Value) :
    List (String × (Value ⊕ Matcher)) → Worklist Value Value → Bool
  | [], w => (DeepEquality.drain (h.structure types) (h.structure types) w).1
  | (name, .inl expected) :: rest, w =>
    match slots.field? name with
    | some actual =>
      match DeepEquality.pair (h.structure types) (h.structure types) expected actual w with
      | (true, w) => acceptsFields h types slots rest w
      | (false, _) => false
    | none => false
  | (name, .inr m) :: rest, w =>
    match slots.field? name with
    | some actual => accepts h types m actual && acceptsFields h types slots rest w
    | none => false

end

def commas (texts : List String) : String := ", ".intercalate texts

mutual

def describe (h : Heap) : Matcher → String
  | .equalTo expected => h.text expected
  | .nullValue => "null"
  | .instanceOf type => "an instance of " ++ type.text
  | .inOrder elements => "iterable containing [" ++ commas (describeAll h elements) ++ "]"
  | .arrayOf elements => "array [" ++ commas (describeAll h elements) ++ "]"
  | .anyOrder elements =>
    "iterable with items [" ++ commas (describeAll h elements) ++ "] in any order"
  | .mapOf es => "map containing \x7b" ++ commas (describeEntries h es) ++ "\x7d"
  | .primitives kind values => kind.name ++ " array [" ++ commas (values.map Literal.text) ++ "]"
  | .fieldwise exact type fields =>
    (if exact then "of type " else "assignable to ") ++ type.text
      ++ " with fields \x7b" ++ commas (describeFields h fields) ++ "\x7d"

def describeAll (h : Heap) : List Matcher → List String
  | [] => []
  | m :: ms => describe h m :: describeAll h ms

def describeEntries (h : Heap) : List (Matcher × Matcher) → List String
  | [] => []
  | (k, v) :: rest => (describe h k ++ "=" ++ describe h v) :: describeEntries h rest

def describeFields (h : Heap) : List (String × (Value ⊕ Matcher)) → List String
  | [] => []
  | (name, .inl v) :: rest => (name ++ ": " ++ h.text v) :: describeFields h rest
  | (name, .inr m) :: rest => (name ++ ": " ++ describe h m) :: describeFields h rest

end

/-- Stands in for what cannot be read. -/
def unreadable : String := "<description failed>"

def slotLine (h : Heap) (slot : Slot) (v : Value) : String :=
  let shown :=
    match v.object?.bind h.get? with
    | some o => if o.locked then unreadable else h.text v
    | none => h.text v
  "\n\t" ++ slot.text ++ ": " ++ shown

/-- What a value is that a matcher refused, in words. -/
def describeMismatch (h : Heap) (types : ClassTable) (m : Matcher) (v : Value) : String :=
  match m, v with
  | .fieldwise _ _ _, .object id =>
    match h.get? id with
    | none => unreadable
    | some o =>
      match o.slots? types with
      | none => unreadable
      | some slots =>
        "of type : " ++ o.type.text ++ "\nwith fields:"
          ++ String.join (slots.entries.map fun (slot, v) => slotLine h slot v)
  | _, _ => "was " ++ h.text v

def check (h : Heap) (types : ClassTable) (m : Matcher) (v : Value) : Except AssertionError Unit :=
  if m.accepts h types v then .ok ()
  else .error ⟨m.describe h, m.describeMismatch h types v⟩

end Matcher

/-- Asserts that a call fails, and gives what it threw; a number that it returned is reported. -/
def expectThrows : Except Value Int → Except AssertionError Value
  | .error thrown => .ok thrown
  | .ok n => .error ⟨"a thrown error", s!"returned {n}"⟩

end Reenact
