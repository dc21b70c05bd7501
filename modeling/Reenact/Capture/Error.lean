import Reenact.Adaptor.Chain
import Reenact.Ty.Printer

/-!
Why a capture comes to nothing: configurations that cannot be used, and populations that fail.
-/

namespace Reenact

inductive ConfigError where
  /-- A name that the catalog does not have among its serializers, setup or matcher adaptors. -/
  | unknownAdaptor (kind name : String)
  | registry (e : ChainError)
  | zeroTimeout
  | malformed
  | unreadable
  deriving DecidableEq, Repr

def ConfigError.message : ConfigError → String
  | .unknownAdaptor kind name => s!"unknown {kind} adaptor '{name}'"
  | .registry e => "adaptor registration failed: " ++ e.message
  | .zeroTimeout => "timeout_ms must be greater than zero"
  | .malformed => "invalid configuration"
  | .unreadable => "cannot read the configuration"

inductive CaptureError where
  /-- No serializer takes objects of the class. -/
  | gap (type : Ty)
  | timeout (budget : Nat)
  | failure (reason : String)
  | cancelled
  /-- What a snapshot was handed to refused it. -/
  | refused (reason : String)
  | config (e : ConfigError)
  deriving DecidableEq

namespace CaptureError

def message : CaptureError → String
  | gap type => "no serializer accepts values of type " ++ type.text
  | timeout budget => s!"population exceeded {budget}ms"
  | failure reason => "population failed: " ++ reason
  | cancelled => "capture cancelled"
  | refused reason => "snapshot consumer failed: " ++ reason
  | config e => "configuration error: " ++ e.message

def isInvalidating : CaptureError → Bool
  | gap _ | timeout _ | failure _ | cancelled => true
  | refused _ | config _ => false

def isTimeout : CaptureError → Bool
  | timeout _ => true
  | _ => false

end CaptureError

end Reenact
