import Reenact.Generate.Reconstruction

/-!
Code that asserts captured values: for each value an expression that builds a matcher for it. A
value that is mentioned more than once gets its matcher bound to a local; one that is met again
below itself is only required to be an instance of its class.
-/

namespace Reenact

inductive MatcherRule where
  | literal | null | constant | array | primitiveArray | list | set | map
  /-- Only the class of the value is asserted. -/
  | classOnly
  deriving DecidableEq

def MatcherRule.ofName? : String → Option MatcherRule
  | "literal" => some .literal
  | "null" => some .null
  | "enum" => some .constant
  | "array" => some .array
  | "primitive-array" => some .primitiveArray
  | "list" => some .list
  | "set" => some .set
  | "map" => some .map
  | "recursive" => some .classOnly
  | _ => none

structure MatcherBehaviour where
  guard : NodeGuard
  rule : MatcherRule

/-- The behaviour written as a class name and the name of a rule. -/
def MatcherBehaviour.ofNames (className rule : String) : MatcherBehaviour :=
  ⟨.ofName className, (MatcherRule.ofName? rule).getD .classOnly⟩

abbrev MatcherRegistry := Registry MatcherBehaviour

def standardMatcherAdaptors : List (Adaptor MatcherBehaviour) :=
  [⟨"literal", none, ⟨.kind .literal, .literal⟩⟩,
    ⟨"null", none, ⟨.kind .null, .null⟩⟩,
    ⟨"enum", none, ⟨.kind .enum, .constant⟩⟩,
    ⟨"array", none, ⟨.kind .array, .array⟩⟩,
    ⟨"primitive-array", some "array", ⟨.primitiveArray, .primitiveArray⟩⟩,
    ⟨"list", none, ⟨.kind .list, .list⟩⟩,
    ⟨"set", none, ⟨.kind .set, .set⟩⟩,
    ⟨"map", none, ⟨.kind .map, .map⟩⟩]

namespace Verification

def matchingPath (name : String) : String := "snaptest_matching::" ++ name

def matchersPath (name : String) : String := matchingPath ("matchers::" ++ name)

def matcherType : Ty := .ofClass (matchingPath "BoxMatcher")

def entryType : Ty := .ofClass (matchersPath "EntryMatcher")

structure Context where
  graph : Graph
  types : ClassTable
  adaptors : MatcherRegistry

structure State where
  scope : Scope
  statements : List Stmt
  /-- The nodes being described, innermost first. -/
  active : List NodeId
  /-- The nodes whose matcher is to be bound to a local. -/
  shared : List NodeId
  hoisted : List (NodeId × String)

def State.start (scope : Scope) : State := ⟨scope, [], [], [], []⟩

abbrev Describe := ExceptT GenerateError (StateM State)

variable (c : Context)

def node (id : NodeId) : Describe Node :=
  match c.graph.node id with
  | .ok n => return n
  | .error e => throw (.graph e)

def emit (s : Stmt) : Describe Unit :=
  modify fun st => { st with statements := st.statements ++ [s] }

def addFunctionImport (path : String) : Describe Unit :=
  modify fun st => { st with scope := st.scope.addFunction path }

/-- A call of a matching function, which is imported. -/
def matcherCall (name : String) (typeArgs : List Ty) (args : List Expr) : Describe Expr := do
  addFunctionImport (matchersPath name)
  return .function none name typeArgs args

def hoistedUse (name : String) : Expr := .invoke (.loc name) "clone" []

variable (describe : NodeId → Describe Expr)

def describeElements (function : String) (elements : List NodeId) : Describe Expr := do
  let matchers ← elements.mapM describe
  matcherCall function [] [.newArray matcherType matchers]

def describeEntries (entries : List (NodeId × NodeId)) : Describe Expr := do
  let matchers ← entries.mapM fun (k, v) => do
    let k ← describe k
    let v ← describe v
    matcherCall "entry" [] [k, v]
  matcherCall "contains_entries" [] [.newArray entryType matchers]

def literalOf (id : NodeId) : Describe Expr := do
  match ← node c id with
  | .atom (.literal _ value) => return .literal value
  | n => throw (.unexpected id n "literal")

/-- The elements of an array of primitives are compared as they are. -/
def describePrimitives (component : Ty) (elements : List NodeId) : Describe Expr := do
  let values ← elements.mapM (literalOf c)
  matcherCall "primitive_array_containing" [component] [.newArray component values]

def describeBy (id : NodeId) (n : Node) (rule : MatcherRule) : Describe Expr :=
  match rule, n with
  | .literal, .atom (.literal _ value) => matcherCall "equal_to" [] [.literal value]
  | .literal, n => throw (.unexpected id n "literal")
  | .null, _ => matcherCall "null_value" [] []
  | .constant, .constant _ runtime name =>
    matcherCall "equal_to" [] [.constant runtime.erasure name]
  | .constant, n => throw (.unexpected id n "enum")
  | .array, .composite _ _ (.array elements) =>
    describeElements describe "array_containing" elements
  | .array, n => throw (.unexpected id n "array")
  | .primitiveArray, .composite _ _ (.array elements) =>
    describePrimitives c n.componentType elements
  | .primitiveArray, n => throw (.unexpected id n "array")
  | .list, .composite _ _ (.list elements) => describeElements describe "contains_in_order" elements
  | .list, n => throw (.unexpected id n "list")
  | .set, .composite _ _ (.set elements) =>
    describeElements describe "contains_in_any_order" elements
  | .set, n => throw (.unexpected id n "set")
  | .map, .composite _ _ (.map entries) => describeEntries describe entries
  | .map, n => throw (.unexpected id n "map")
  | .classOnly, n => matcherCall "recursive" [c.types.publicSupertype n.runtime] []

/-- A field's literal is compared as it is; any other value by its matcher. -/
def describeField (id : NodeId) : Describe Expr := do
  match ← node c id with
  | .atom (.literal _ value) => return .literal value
  | _ => describe id

def describeFieldList : Expr → List NodeField → Describe Expr
  | matcher, [] => return matcher
  | matcher, f :: rest => do
    let expected ← describeField c describe f.value
    describeFieldList (.invoke matcher "field" [.literal (.str f.name), expected]) rest

/-- Describes a plain object field by field. Only the public supertype of a hidden class can be
asserted. -/
def describeFields (n : Node) (fields : List NodeField) : Describe Expr := do
  addFunctionImport (matchingPath "generic_matcher")
  let matcher ← describeFieldList c describe (.apply "generic_matcher" []) fields
  match n.runtime.className?.map c.types.isHidden with
  | some true => return .call matcher "matching_as" [c.types.publicSupertype n.runtime] []
  | _ => return .call matcher "matching" [n.runtime.erasure] []

def dispatch (id : NodeId) (n : Node) : Describe Expr :=
  match c.adaptors.chain.select? fun a => a.behaviour.guard.accepts n with
  | some a => describeBy c describe id n a.behaviour.rule
  | none =>
    match n, c.adaptors.fallback with
    | .composite _ _ (.object fields), true => describeFields c describe n fields
    | _, _ => throw (.noAdaptor (c.graph.print id))

/-- Runs a description with a node marked as being described. -/
def within (id : NodeId) (d : Describe Expr) : Describe Expr := fun st =>
  let (result, st) := d { st with active := id :: st.active }
  (result, { st with active := st.active.erase id })

def hoist (id : NodeId) (n : Node) (matcher : Expr) : Describe Expr := do
  let st ← get
  if id ∈ st.shared then
    let (names, name) := st.scope.names.fresh (n.runtime.erasure.localStem ++ "_matcher")
    set { st with
      scope := { st.scope with names }
      hoisted := putEntry id name st.hoisted }
    emit (.bind name matcherType matcher)
    return hoistedUse name
  else return matcher

/-- The matcher for a node. Each level down adds a node of the graph to the active ones, so `depth`
need not exceed the number of nodes by more than one. -/
def describeAt : (depth : Nat) → NodeId → Describe Expr
  | 0, id => throw (.graph (.missingValue id))
  | depth + 1, id => do
    let st ← get
    match findValue? id st.hoisted with
    | some name => return hoistedUse name
    | none =>
      let n ← node c id
      if id ∈ st.active then describeBy c (describeAt depth) id n .classOnly
      else
        let matcher ← within id (dispatch c (describeAt depth) id n)
        hoist id n matcher

/-- The matcher for a node, of the nodes shared below the last root described. -/
def matcher (id : NodeId) : Describe Expr := describeAt c (c.graph.size + 1) id

/-- The matcher for a root. Objects mentioned more than once below it are described once. -/
def describeRoot (id : NodeId) : Describe Expr := do
  let counts := c.graph.referenceCounts id
  let isShared : NodeId × Nat → Bool := fun (n, count) =>
    decide (1 < count) && (c.graph.get? n).any Node.isReference
  modify fun st => { st with shared := (counts.filter isShared).map (·.1) }
  matcher c id

def assertValue (id : NodeId) (actual : Expr) : Describe Unit := do
  let expected ← describeRoot c id
  addFunctionImport (matchingPath "assert_that")
  emit (.expr (.apply "assert_that" [actual, expected]))

def takeStatements : Describe (List Stmt) := do
  let st ← get
  set { st with statements := [] }
  return st.statements

end Verification

end Reenact
