import Reenact.Code.Expr
import Reenact.Match.Matcher

/-!
What the evaluation of generated code works on: run-time values, the state of a run, and the ways in
which a run can fail.
-/

namespace Reenact

/-- What an expression evaluates to: a live value, or one of the things that assertions are made
from. -/
inductive RunValue where
  | live (v : Value)
  | matcher (m : Matcher)
  /-- A matcher of plain objects that more fields can be added to. -/
  | builder (fields : List (String × (Value ⊕ Matcher)))
  | entry (key value : Matcher)
  | seq (items : List RunValue)
  | closure (body : Expr)
  | unit

inductive EvalError where
  | unboundLocal (name : String)
  | unknownMethod (name : String)
  | typeMismatch (expected : String)
  | outOfBounds (i size : Nat)
  | thrown (v : Value)
  | nothingThrown
  | assertion (e : AssertionError)
  /-- Closures call each other without end. -/
  | tooDeep
  deriving DecidableEq

def EvalError.message (h : Heap) : EvalError → String
  | .unboundLocal name => s!"unbound local `{name}`"
  | .unknownMethod name => s!"unknown method `{name}`"
  | .typeMismatch expected => s!"type mismatch: expected {expected}"
  | .outOfBounds i size => s!"index {i} out of bounds for length {size}"
  | .thrown v => "call threw " ++ h.text v
  | .nothingThrown => "expected the call to throw"
  | .assertion e => "assertion failed: " ++ e.message
  | .tooDeep => "closures nest too deep"

/-- A call that a host method was told to remember. -/
structure RecordedCall where
  owner : String
  member : String
  args : List Value
  deriving DecidableEq

/-- What a nested call with equal arguments answers. -/
structure Stub where
  call : RecordedCall
  result : Value
  deriving DecidableEq

structure Machine where
  heap : Heap
  locals : List (String × RunValue)
  statics : List ((String × String) × Value)
  stubs : List Stub
  calls : List RecordedCall

def Machine.start (heap : Heap) : Machine := ⟨heap, [], [], [], []⟩

/-- What was done before an error stays done. -/
abbrev Eval := ExceptT EvalError (StateM Machine)

namespace Machine

/-- The live value of a local; other things have none. -/
def local? (m : Machine) (name : String) : Option Value :=
  match findValue? name m.locals with
  | some (.live v) => some v
  | _ => none

def bindLocal (m : Machine) (name : String) (v : RunValue) : Machine :=
  { m with locals := putEntry name v m.locals }

/-- The value of a static field; one never stored has the default of its declared type. -/
def static (m : Machine) (types : ClassTable) (owner name : String) : Value :=
  match findValue? (owner, name) m.statics with
  | some v => v
  | none =>
    match (types.staticFields owner).find? (·.name == name) with
    | some f => .default f.type
    | none => .null

def setStatic (m : Machine) (owner name : String) (v : Value) : Machine :=
  { m with statics := putEntry (owner, name) v m.statics }

def argsEqual (h : Heap) (types : ClassTable) (as bs : List Value) : Bool :=
  as.length == bs.length && (as.zip bs).all fun (a, b) => h.equal types a b

def stubbed? (m : Machine) (types : ClassTable) (call : RecordedCall) : Option Value :=
  (m.stubs.find? fun s =>
    s.call.owner == call.owner && s.call.member == call.member
      && argsEqual m.heap types s.call.args call.args).map Stub.result

end Machine

namespace RunValue

def mismatch {α : Type} (expected : String) : Eval α := throw (.typeMismatch expected)

/-- The live value of a result; a call without result gives null. -/
def toLive : RunValue → Eval Value
  | live v => return v
  | unit => return .null
  | _ => mismatch "live value"

def toMatcher : RunValue → Eval Matcher
  | matcher m => return m
  | _ => mismatch "matcher"

def toMatchers : RunValue → Eval (List Matcher)
  | seq items => items.mapM toMatcher
  | _ => mismatch "matcher sequence"

def toEntry : RunValue → Eval (Matcher × Matcher)
  | entry k v => return (k, v)
  | _ => mismatch "entry"

def toEntries : RunValue → Eval (List (Matcher × Matcher))
  | seq items => items.mapM toEntry
  | _ => mismatch "entry sequence"

def toText (v : RunValue) : Eval String := do
  match ← v.toLive with
  | .scalar (.str s) => return s
  | _ => mismatch "string"

end RunValue

end Reenact
