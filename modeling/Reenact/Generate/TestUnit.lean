import Reenact.Code.Dialect
import Reenact.Equality
import Reenact.Generate.Verification
import Reenact.Snapshot.Basic

/-!
Test units: the generated test of one snapshot, in three regions that arrange the state before the
call, make the call, and assert what it did. Only what the call changed is asserted.
-/

namespace Reenact

structure TestUnit where
  name : String
  signature : Signature
  arrange : List Stmt
  act : List Stmt
  check : List Stmt
  imports : Imports

namespace TestUnit

def statements (u : TestUnit) : List Stmt := u.arrange ++ u.act ++ u.check

def lines (u : TestUnit) : List String := ((u.statements.mapM Render.stmt).run u.imports).1

/-- The lines of a region under its title, which is left out with the region if it is empty. -/
def region (title : String) (statements : List Stmt) : Rendering (List String) := do
  match statements with
  | [] => return []
  | _ =>
    let lines ← statements.mapM Render.stmt
    return ("// " ++ title) :: lines

def text (u : TestUnit) : String :=
  let body : Rendering (List (List String)) := do
    let arrange ← region "arrange" u.arrange
    let act ← region "act" u.act
    let check ← region "assert" u.check
    return [arrange, act, check]
  let (regions, imports) := body.run u.imports
  let paths := Imports.sorted imports.classes ++ Imports.sorted imports.functions
  let head := paths.map Render.importLine
  let indented := (regions.filter (!·.isEmpty)).map fun r => r.map ("    " ++ ·)
  let lines :=
    head ++ (if head.isEmpty then [] else [""])
      ++ ["#[test]", "fn " ++ u.name ++ "() \x7b"] ++ [""].intercalate indented ++ ["\x7d"]
  String.join (lines.map (· ++ "\n"))

end TestUnit

/-- What tests are generated with: the classes and adaptors in force, how many tests each method has
got so far, and the tests kept for collection. -/
structure TestGenerator where
  types : ClassTable
  setup : SetupRegistry
  matchers : MatcherRegistry
  counts : List (String × Nat)
  units : List TestUnit

namespace TestGenerator

def new (types : ClassTable) (setup : SetupRegistry) (matchers : MatcherRegistry) :
    TestGenerator := ⟨types, setup, matchers, [], []⟩

/-- The names that tests give to the result of the call and to the error it throws. -/
def resultLocal : String := "result"

def errorLocal : String := "error"

section Arrange

open Reconstruction

def stubArg (c : Context) (r : CallRecord) (arg : NodeId) (i : Nat) : Build Expr :=
  match r.params[i]? with
  | none | some .void => value c arg
  | some declared => valueFor c arg declared

/-- Makes a collaborator answer a nested call as it did. -/
def stubInput (c : Context) (r : CallRecord) : Build Unit := do
  let args ← r.args.zipIdx.mapM fun (arg, i) => stubArg c r arg i
  let result ←
    match r.result with
    | some id => value c id
    | none => pure .null
  emit (.expr (.function none "fake_input" [r.owner.erasure]
    [.literal (.str r.member), .newArray .object args, result]))

def setGlobal (c : Context) (g : CapturedGlobal) : Build Unit := do
  let v ← valueFor c g.value g.global.type
  emit (.assign (.staticField (.ofClass g.global.owner) g.global.name) v)

/-- Rebuilds the state before the call; gives the code for the receiver and the arguments. -/
def arrange (c : Context) (s : Snapshot) : Build (Option Expr × List Expr) := do
  let receiver ←
    match s.setup.receiver with
    | some id => some <$> value c id
    | none => pure none
  let args ← s.setup.args.zipIdx.mapM fun (arg, i) => valueFor c arg (s.signature.param i)
  s.setup.globals.forM (setGlobal c)
  s.inputs.forM (stubInput c)
  return (receiver, args)

end Arrange

def callExpr (sig : Signature) (receiver : Option Expr) (args : List Expr) : Expr :=
  match receiver with
  | some target => .invoke target sig.method args
  | none => .function (some sig.declaring.erasure) sig.method [] args

/-- The call with its outcome bound to a local, if there is one to look at. -/
def act (types : ClassTable) (s : Snapshot) (call : Expr) : Except GenerateError (List Stmt) :=
  match s.outcome with
  | .pending => .error .invalidSnapshot
  | .returned (some _) =>
    .ok [if s.signature.isVoid then .expr call else .bind resultLocal s.signature.result call]
  | .returned none => .ok [.expr call]
  | .threw id =>
    match s.graph.node id with
    | .ok n =>
      .ok [.bind errorLocal (types.publicSupertype n.runtime)
        (.apply "expect_throws" [.closure call])]
    | .error e => .error (.graph e)

/-- Whether a value is another one after the call than before. -/
def changed (g : Graph) (before after : NodeId) : Bool :=
  before != after && !g.equal before g after

section Assert

open Verification

def assertOutcome (c : Context) (s : Snapshot) : Describe Unit :=
  match s.outcome with
  | .returned (some id) =>
    if s.signature.isVoid then return else assertValue c id (.loc resultLocal)
  | .threw id => assertValue c id (.loc errorLocal)
  | _ => return

def assertReceiver (c : Context) (s : Snapshot) (receiver : Option Expr) : Describe Unit :=
  match receiver, s.setup.receiver, s.expect.receiver with
  | some target, some before, some after =>
    if changed c.graph before after then assertValue c after target else return
  | _, _, _ => return

/-- Whether an argument needs no look after the call whatever it holds. -/
def isSettled (sig : Signature) (i : Nat) (arg : Expr) : Bool :=
  (sig.params[i]?).any Ty.isImmutable || arg.isInline

def assertArg (c : Context) (sig : Signature) (arg : Expr) (before after : NodeId) (i : Nat) :
    Describe Unit :=
  if isSettled sig i arg || !changed c.graph before after then return
  else assertValue c after arg

def assertGlobal (c : Context) (before after : CapturedGlobal) : Describe Unit :=
  if changed c.graph before.value after.value then
    assertValue c after.value (.staticField (.ofClass after.global.owner) after.global.name)
  else return

def verifyOutput (c : Context) (r : CallRecord) : Describe Unit := do
  let matchers ← r.args.mapM (matcher c)
  emit (.expr (.function none "verify_call" [r.owner.erasure]
    [.literal (.str r.member), .newArray matcherType matchers]))

/-- Asserts the outcome, what changed, and the nested calls out of the observed code. -/
def assertAll (c : Context) (s : Snapshot) (receiver : Option Expr) (args : List Expr) :
    Describe Unit := do
  assertOutcome c s
  assertReceiver c s receiver
  (args.zip (s.setup.args.zip s.expect.args)).zipIdx.forM fun ((arg, before, after), i) =>
    assertArg c s.signature arg before after i
  (s.setup.globals.zip s.expect.globals).forM fun (before, after) => assertGlobal c before after
  s.outputs.forM (verifyOutput c)

end Assert

/-- The imports of the call itself: a call that throws is guarded. -/
def actImports (s : Snapshot) (scope : Scope) : Scope :=
  match s.outcome with
  | .threw _ =>
    scope.addFunction (Verification.matchingPath "expect_throws")
  | _ => scope

def nextName (g : TestGenerator) (method : String) : TestGenerator × String :=
  let n := (findValue? method g.counts).getD 0 + 1
  ({ g with counts := putEntry method n g.counts }, "test_" ++ method ++ toString n)

def draft (g : TestGenerator) (s : Snapshot) : Except GenerateError (String → TestUnit) := do
  if !s.valid then throw .invalidSnapshot
  let context : Reconstruction.Context := ⟨s.graph, g.types, g.setup⟩
  let (arranged, built) := (arrange context s).run (.start .empty)
  let (receiver, args) ← arranged
  let act ← act g.types s (callExpr s.signature receiver args)
  let context : Verification.Context := ⟨s.graph, g.types, g.matchers⟩
  let scope := actImports s built.scope
  let (asserted, state) := (assertAll context s receiver args).run (.start scope)
  asserted
  return fun name =>
    { name
      signature := s.signature
      arrange := .comment ("captured " ++ s.signature.text) :: built.statements
      act
      check := state.statements
      imports := state.scope.imports }

/-- Generates the test of a snapshot. Only a test that comes about uses up a name. -/
def generate (g : TestGenerator) (s : Snapshot) :
    TestGenerator × Except GenerateError TestUnit :=
  match g.draft s with
  | .error e => (g, .error e)
  | .ok unit =>
    let (g, name) := g.nextName s.signature.method
    (g, .ok (unit name))

/-- Generates a test and keeps it; the text of the error names the call. -/
def accept (g : TestGenerator) (s : Snapshot) : TestGenerator × Except String Unit :=
  match g.generate s with
  | (g, .ok unit) => ({ g with units := g.units ++ [unit] }, .ok ())
  | (g, .error e) => (g, .error (s.signature.text ++ ": " ++ e.message))

def takeUnits (g : TestGenerator) : TestGenerator × List TestUnit :=
  ({ g with units := [] }, g.units)

end TestGenerator

end Reenact
