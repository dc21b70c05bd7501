import Reenact.Capture.Serializer
import Reenact.Generate.Verification
import Reenact.Snapshot.Basic
import Reenact.Toml.Reader
import Reenact.Ty.Parser

/-!
Configurations of captures, their TOML documents, and the adaptors that the names in them stand for.
-/

namespace Reenact

structure CaptureConfig where
  /-- How long a population may take, in milliseconds. -/
  timeout : Nat
  fallback : Bool
  serializers : List String
  setupAdaptors : List String
  matcherAdaptors : List String
  globals : List GlobalRef

namespace CaptureConfig

def default : CaptureConfig where
  timeout := 1000
  fallback := true
  serializers := []
  setupAdaptors := []
  matcherAdaptors := []
  globals := []

def validate (c : CaptureConfig) : Except ConfigError CaptureConfig :=
  if c.timeout = 0 then .error .zeroTimeout else .ok c

end CaptureConfig

namespace ConfigDocument

def string? : Toml → Option String
  | .str s => some s
  | _ => none

def natural? : Toml → Option Nat
  | .int n => if 0 ≤ n then some n.toNat else none
  | _ => none

def bool? : Toml → Option Bool
  | .bool b => some b
  | _ => none

def listOf? {α : Type} (read : Toml → Option α) : Toml → Option (List α)
  | .array items => items.mapM read
  | _ => none

def type? (v : Toml) : Option Ty := do
  match Ty.parse (← string? v) with
  | .ok t => some t
  | .error _ => none

/-- A watched field: a table, or its three parts at the front of a list. -/
def global? : Toml → Option GlobalRef
  | .table entries => do
    let owner ← string? (← entries.lookup "owner")
    let name ← string? (← entries.lookup "name")
    let type ← type? (← entries.lookup "type")
    return ⟨owner, name, type⟩
  | .array (owner :: name :: type :: _) => return ⟨← string? owner, ← string? name, ← type? type⟩
  | _ => none

def keyOr {α : Type} (entries : List (String × Toml)) (key : String) (default : α)
    (read : Toml → Option α) : Option α :=
  match entries.lookup key with
  | some v => read v
  | none => some default

/-- The configuration in a document. Unknown keys mean nothing. -/
def config? (entries : List (String × Toml)) : Option CaptureConfig := do
  let base := CaptureConfig.default
  let timeout ← keyOr entries "timeout_ms" base.timeout natural?
  let fallback ← keyOr entries "reflective_fallback" base.fallback bool?
  let serializers ← keyOr entries "serializers" base.serializers (listOf? string?)
  let setupAdaptors ← keyOr entries "setup_adaptors" base.setupAdaptors (listOf? string?)
  let matcherAdaptors ← keyOr entries "matcher_adaptors" base.matcherAdaptors (listOf? string?)
  let globals ← keyOr entries "globals" base.globals (listOf? global?)
  return { timeout, fallback, serializers, setupAdaptors, matcherAdaptors, globals }

end ConfigDocument

def CaptureConfig.parse (text : String) : Except ConfigError CaptureConfig :=
  match (Toml.parse? text).bind ConfigDocument.config? with
  | some c => c.validate
  | none => .error .malformed

/-- The adaptors that configurations may name. Of several with one name the last counts. -/
structure Catalog where
  serializers : List (Adaptor SerializerBehaviour)
  setup : List (Adaptor SetupBehaviour)
  matchers : List (Adaptor MatcherBehaviour)

/-- The adaptors that take part in a capture and in the generation of its test. -/
structure Registries where
  serializers : SerializerRegistry
  setup : SetupRegistry
  matchers : MatcherRegistry

namespace Catalog

variable {β : Type}

def lookup (kind : String) (available : List (Adaptor β)) (names : List String) :
    Except ConfigError (List (Adaptor β)) :=
  names.mapM fun name =>
    match available.reverse.find? (·.name == name) with
    | some a => .ok a
    | none => .error (.unknownAdaptor kind name)

def registry (kind : String) (available : List (Adaptor β)) (names : List String)
    (standard : List (Adaptor β)) (fallback : Bool) : Except ConfigError (Registry β) := do
  let additional ← lookup kind available names
  match Registry.build additional standard fallback with
  | .ok r => return r
  | .error e => throw (.registry e)

def resolve (c : Catalog) (config : CaptureConfig) : Except ConfigError Registries := do
  let fallback := config.fallback
  let serializers ←
    registry "serializer" c.serializers config.serializers standardSerializers fallback
  let setup ← registry "setup" c.setup config.setupAdaptors standardSetupAdaptors fallback
  let matchers ←
    registry "matcher" c.matchers config.matcherAdaptors standardMatcherAdaptors fallback
  return { serializers, setup, matchers }

end Catalog

end Reenact
