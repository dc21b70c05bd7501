import Reenact.Eval.Collection
import Reenact.Eval.Convert
import Reenact.Eval.Host
import Reenact.Generate.TestUnit

/-!
Evaluation of generated code. Expressions are evaluated from left to right; a failure ends the
statement at once and leaves what was done so far.
-/

namespace Reenact.Evaluate

structure Context where
  types : ClassTable
  host : Host

variable (c : Context)

def mismatch {α : Type} (expected : String) : Eval α := RunValue.mismatch expected

def localValue (name : String) : Eval RunValue := do
  match findValue? name (← get).locals with
  | some v => return v
  | none => throw (.unboundLocal name)

/-- The elements of an array literal: a sequence where matchers are wanted, else a new array. -/
def arrayOf (component : Ty) (values : List RunValue) : Eval RunValue := do
  if component.className? == Verification.matcherType.className?
      || component.className? == Verification.entryType.className? then
    return .seq values
  else
    let items ← values.mapM RunValue.toLive
    return .live (.object (← Collection.onHeap fun h => h.newArray component items))

/-- An object that a field is taken from or stored into. -/
def objectOf (expected : String) (v : RunValue) : Eval ObjectId := do
  match ← v.toLive with
  | .object id => return id
  | _ => mismatch expected

def readField (target : RunValue) (name : String) : Eval RunValue := do
  let id ← objectOf "object" target
  return .live (((← get).heap.field? id name).getD .null)

def readElement (target : RunValue) (i : Nat) : Eval RunValue := do
  let items ← Collection.elements (← target.toLive)
  match items[i]? with
  | some v => return .live v
  | none => throw (.outOfBounds i items.length)

def castValue (v : RunValue) (type : Ty) : Eval RunValue := do
  match Convert.value (← v.toLive) type with
  | .ok v => return .live v
  | .error expected => mismatch expected

/-- The type argument of a function; a missing one stands for any object. -/
def typeArg (typeArgs : List Ty) : Ty := typeArgs.head?.getD .object

def callBuilder (fields : List (String × (Value ⊕ Matcher))) (method : String) (typeArgs : List Ty)
    (args : List RunValue) : Eval RunValue := do
  match method with
  | "field" =>
    match args with
    | name :: expected :: _ =>
      let expected ←
        match expected with
        | .matcher m => pure (.inr m)
        | v => .inl <$> v.toLive
      let name ← name.toText
      return .builder (fields ++ [(name, expected)])
    | _ => mismatch "field name and expectation"
  | "matching" | "matching_as" =>
    match typeArgs with
    | type :: _ => return .matcher (.fieldwise (method == "matching") type fields)
    | [] => mismatch "type argument"
  | _ => throw (.unknownMethod ("generic_matcher()." ++ method))

/-- A method call: by the host if it knows the method, else by the built-in collections. -/
def callMethod (target : RunValue) (method : String) (typeArgs : List Ty) (args : List RunValue) :
    Eval RunValue := do
  match target, method, args with
  | .builder fields, _, _ => callBuilder fields method typeArgs args
  | .matcher m, "clone", [] => return .matcher m
  | _, _, _ =>
    let receiver ← target.toLive
    let args ← args.mapM RunValue.toLive
    let h := (← get).heap
    match (h.typeOf? receiver).bind fun t => c.host.resolve? c.types t method with
    | some owner => return .live (← c.host.call c.types owner method (some receiver) args)
    | none =>
      match receiver, receiver.object?.bind h.get? with
      | .object id, some o => return .live (← Collection.call id o method args)
      | _, _ => throw (.unknownMethod (h.text receiver ++ "." ++ method))

/-- Asserts that a nested call was recorded with arguments that matchers accept. -/
def verifyCall (owner member : String) (matchers : List Matcher) : Eval RunValue := do
  let m ← get
  let isMatch (call : RecordedCall) : Bool :=
    call.owner == owner && call.member == member && call.args.length == matchers.length
      && (matchers.zip call.args).all fun (p, v) => p.accepts m.heap c.types v
  if m.calls.any isMatch then return .unit
  else
    throw (.assertion ⟨
      s!"a call to {owner}::{member} with {matchers.length} matching arguments",
      s!"{m.calls.length} recorded calls"⟩)

def argument (args : List RunValue) (i : Nat) : Eval RunValue :=
  match args[i]? with
  | some v => return v
  | none => mismatch "argument"

def literalOf : Value → Eval Literal
  | .scalar l => return l
  | _ => mismatch "literal"

def assertThat (args : List RunValue) : Eval RunValue := do
  let actual ← (← argument args 0).toLive
  let matcher ← (← argument args 1).toMatcher
  match matcher.check (← get).heap c.types actual with
  | .ok () => return .unit
  | .error e => throw (.assertion e)

def fakeInput (owner : Ty) (args : List RunValue) : Eval RunValue := do
  let member ← (← argument args 0).toText
  let stubArgs ← Collection.elements (← (← argument args 1).toLive)
  let result ← (← argument args 2).toLive
  let stub : Stub := ⟨⟨owner.erasure.text, member, stubArgs⟩, result⟩
  modify fun m => { m with stubs := m.stubs ++ [stub] }
  return .unit

def primitiveArray (typeArgs : List Ty) (args : List RunValue) : Eval RunValue := do
  match (typeArg typeArgs).unboxed? with
  | none => mismatch "primitive type"
  | some kind =>
    let items ← Collection.elements (← (← argument args 0).toLive)
    return .matcher (.primitives kind (← items.mapM literalOf))

/-- A call of one of the functions that generated code uses. -/
def callFunction (name : String) (typeArgs : List Ty) (args : List RunValue) : Eval RunValue := do
  let first := argument args 0
  match name with
  | "equal_to" => return .matcher (.equalTo (← (← first).toLive))
  | "null_value" => return .matcher .nullValue
  | "recursive" => return .matcher (.instanceOf (typeArg typeArgs))
  | "contains_in_order" => return .matcher (.inOrder (← (← first).toMatchers))
  | "contains_in_any_order" => return .matcher (.anyOrder (← (← first).toMatchers))
  | "array_containing" => return .matcher (.arrayOf (← (← first).toMatchers))
  | "entry" =>
    let key ← (← first).toMatcher
    return .entry key (← (← argument args 1).toMatcher)
  | "contains_entries" => return .matcher (.mapOf (← (← first).toEntries))
  | "primitive_array_containing" => primitiveArray typeArgs args
  | "generic_matcher" => return .builder []
  | "assert_that" => assertThat c args
  | "fake_input" => fakeInput (typeArg typeArgs) args
  | "verify_call" =>
    let member ← (← first).toText
    let matchers ← (← argument args 1).toMatchers
    verifyCall c (typeArg typeArgs).erasure.text member matchers
  | _ =>
    match Collection.factory? name with
    | some (kind, collection) => return .live (← Collection.wrap kind collection typeArgs args)
    | none => throw (.unknownMethod name)

/-- Runs a closure that is expected to throw; gives what it threw. -/
def catchThrown (body : Eval RunValue) : Eval RunValue := fun m =>
  match body m with
  | (.error (.thrown v), m) => (.ok (.live v), m)
  | (.error e, m) => (.error e, m)
  | (.ok _, m) => (.error .nothingThrown, m)

variable (enter : Expr → Eval RunValue)

mutual

/-- Evaluates an expression; `enter` evaluates the body of a closure. -/
def exprWith : Expr → Eval RunValue
  | .literal l => return .live (.scalar l)
  | .null => return .live .null
  | .loc name => localValue name
  | .constant type name => return .live (.constant type.erasure.text name)
  | .new type _ => do
    let id ← Collection.onHeap (Collection.instantiate c.types type)
    return .live (.object id)
  | .newArray component elements => do
    let values ← allWith elements
    arrayOf component values
  | .call target method typeArgs args => do
    let target ← exprWith target
    let args ← allWith args
    callMethod c target method typeArgs args
  | .function (some owner) name _ args => do
    let args ← allLiveWith args
    return .live (← c.host.call c.types owner.erasure.text name none args)
  | .function none name typeArgs args => do
    if name = "expect_throws" then
      if args.length = 1 then
        match ← allWith args with
        | [.closure body] => catchThrown (enter body)
        | _ => mismatch "closure"
      else mismatch "one closure"
    else
      let args ← allWith args
      callFunction c name typeArgs args
  | .field target name => do
    let target ← exprWith target
    readField target name
  | .staticField owner name => return .live ((← get).static c.types owner.erasure.text name)
  | .index target i => do
    let target ← exprWith target
    readElement target i
  | .cast e type => do
    let v ← exprWith e
    castValue v type
  | .closure body => return .closure body

def allWith : List Expr → Eval (List RunValue)
  | [] => return []
  | e :: es => do
    let v ← exprWith e
    let vs ← allWith es
    return v :: vs

def allLiveWith : List Expr → Eval (List Value)
  | [] => return []
  | e :: es => do
    let v ← exprWith e
    let v ← v.toLive
    let vs ← allLiveWith es
    return v :: vs

end

/-- Evaluates an expression in which closures nest at most `depth` deep. -/
def exprAt : (depth : Nat) → Expr → Eval RunValue
  | 0 => exprWith c fun _ => throw .tooDeep
  | depth + 1 => exprWith c (exprAt depth)

/-- How deep closures may nest. Generated code nests them once. -/
def closureLimit : Nat := 1000

def expr (e : Expr) : Eval RunValue := exprAt c closureLimit e

def assign (target : Expr) (v : Value) : Eval Unit := do
  match target with
  | .loc name => modify fun m => m.bindLocal name (.live v)
  | .field target name =>
    let id ← objectOf "object" (← expr c target)
    if !(← Collection.onHeap fun h => h.setField id name v) then mismatch "object with fields"
  | .index target i =>
    let id ← objectOf "array" (← expr c target)
    if !(← Collection.onHeap fun h => h.setElement id i v) then
      let size := ((← get).heap.body? id).elim 0 Body.size
      throw (.outOfBounds i size)
  | .staticField owner name => modify fun m => m.setStatic owner.erasure.text name v
  | _ => mismatch "assignable place"

def stmt : Stmt → Eval Unit
  | .bind name _ value => do
    let v ← expr c value
    modify fun m => m.bindLocal name v
  | .assign target value => do
    let v ← (← expr c value).toLive
    assign c target v
  | .expr e => do
    let _ ← expr c e
  | .comment _ => return

def run (statements : List Stmt) : Eval Unit := statements.forM (stmt c)

def unit (u : TestUnit) : Eval Unit := run c u.statements

end Reenact.Evaluate
