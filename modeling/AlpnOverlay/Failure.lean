import AlpnOverlay.Config.Error
import AlpnOverlay.Wire.Error

/-!
Failures of a negotiation: a kind and, usually, a cause. A cause may be a failure of its own, when
one overlay stands on another, so causes form a chain.
-/
namespace AlpnOverlay

inductive FailureKind where
  | configuration
  | handshake
  | environment
  | engine
  | unsupported
  | notNegotiated
  deriving DecidableEq, Repr

namespace FailureKind

def name : FailureKind → String
  | configuration => "Configuration"
  | handshake => "Handshake"
  | environment => "Environment"
  | engine => "Engine"
  | unsupported => "Unsupported"
  | notNegotiated => "NotNegotiated"

def label : FailureKind → String
  | configuration => "invalid ALPN configuration"
  | handshake => "TLS handshake failed"
  | environment => "TLS engine incompatible with ALPN negotiation"
  | engine => "TLS engine error"
  | unsupported => "unsupported operation"
  | notNegotiated => "application protocol not yet negotiated"

end FailureKind

/-- What a failure goes back to. -/
inductive Cause where
  | stated (text : String)
  | wire (e : Wire.Error)
  | config (e : Config.Error)
  /-- The engine did not hash the hello it should have hashed. -/
  | transcriptMismatch (helloLength transcriptLength : Nat)
  | missingCapability (capability : String)
  | unavailable (operation : String)
  | undecided
  | alreadyStarted (text : String)
  | transport (text : String)
  /-- An error of someone else, in words of its own, that goes back to another one. -/
  | foreign (text description : String) (cause : Cause)
  /-- A failure that has no cause. -/
  | failure (kind : FailureKind)
  | failureOf (kind : FailureKind) (cause : Cause)
  deriving DecidableEq, Repr

structure Failure where
  kind : FailureKind
  cause : Option Cause := none
  deriving DecidableEq, Repr

namespace Cause

def message : Cause → String
  | stated text => text
  | wire e => e.message
  | config e => e.message
  | transcriptMismatch helloLength transcriptLength =>
    s!"{helloLength}-byte hello not found in {transcriptLength}-byte handshake transcript"
  | missingCapability capability => "engine does not provide " ++ capability
  | unavailable operation =>
    operation ++ " is not available when ALPN is negotiated by rewriting"
  | undecided => "handshake still in progress"
  | alreadyStarted text => "Handshake already started: " ++ text
  | transport text => "IO error: " ++ text
  | foreign text _ _ => text
  | failure kind => kind.label
  | failureOf kind cause => kind.label ++ ": " ++ cause.message

def describeFailure (kind : FailureKind) (cause : List String) : String :=
  Text.record "alpn_shim::Error" (Text.field "kind" kind.name :: cause.map (Text.field "source"))

def describe : Cause → String
  | stated text => Text.quoted text
  | wire e => e.describe
  | config e => e.describe
  | transcriptMismatch helloLength transcriptLength =>
    Text.record "TranscriptMismatch"
      [Text.field "hashed_len" (toString helloLength),
        Text.field "transcript_len" (toString transcriptLength)]
  | missingCapability capability => Text.applied "MissingCapability" (Text.quoted capability)
  | unavailable operation => Text.applied "UnsupportedOperation" (Text.quoted operation)
  | undecided => "NotYetNegotiated"
  | alreadyStarted text => Text.applied "AlreadyStarted" (Text.quoted text)
  | transport text =>
    Text.applied "Io"
      (Text.record "Custom" [Text.field "kind" "Other", Text.field "error" (Text.quoted text)])
  | foreign _ description _ => description
  | failure kind => describeFailure kind []
  | failureOf kind cause => describeFailure kind [cause.describe]

/-- What a cause goes back to next. -/
def source? : Cause → Option Cause
  | failureOf _ cause => some cause
  | foreign _ _ cause => some cause
  | transport text => some (stated text)
  | _ => none

/-- A cause and everything it goes back to, outermost first. -/
def chain : Cause → List Cause
  | failureOf kind cause => failureOf kind cause :: cause.chain
  | foreign text description cause => foreign text description cause :: cause.chain
  | transport text => [transport text, stated text]
  | cause => [cause]

def isMalformed : Cause → Bool
  | wire (.malformed _) => true
  | _ => false

def isTranscriptMismatch : Cause → Bool
  | transcriptMismatch _ _ => true
  | _ => false

end Cause

/-- The failure that a cause is, if it is one. -/
def Cause.toFailure? : Cause → Option Failure
  | .failure kind => some ⟨kind, none⟩
  | .failureOf kind cause => some ⟨kind, some cause⟩
  | _ => none

namespace Failure

def configuration (cause : Cause) : Failure := ⟨.configuration, some cause⟩
def handshake (cause : Cause) : Failure := ⟨.handshake, some cause⟩
def environment (capability : String) : Failure :=
  ⟨.environment, some (.missingCapability capability)⟩
def engine (cause : Cause) : Failure := ⟨.engine, some cause⟩
def unsupported (operation : String) : Failure := ⟨.unsupported, some (.unavailable operation)⟩
def notNegotiated : Failure := ⟨.notNegotiated, some .undecided⟩

def ofWire (e : Wire.Error) : Failure := handshake (.wire e)
def ofConfig (e : Config.Error) : Failure := configuration (.config e)

/-- The same kind of failure with another cause, in place of the one it had. -/
def dueTo (f : Failure) (cause : Cause) : Failure := { f with cause := some cause }

/-- The failure as what another one goes back to. -/
def toCause (f : Failure) : Cause :=
  match f.cause with
  | none => .failure f.kind
  | some cause => .failureOf f.kind cause

/-- The kind, and behind it the whole message of the cause. -/
def message (f : Failure) : String := f.toCause.message

def describe (f : Failure) : String := f.toCause.describe

/-- Everything the failure goes back to, nearest first. -/
def causes (f : Failure) : List Cause :=
  match f.cause with
  | none => []
  | some cause => cause.chain

/-- Whether the failure is of a kind, whatever it goes back to. -/
def hasKind (f : Failure) (kind : FailureKind) : Bool := f.kind == kind

/-- The protocol list was rejected. -/
def isConfiguration (f : Failure) : Bool := f.hasKind .configuration

/-- The handshake has failed. -/
def isHandshake (f : Failure) : Bool := f.hasKind .handshake

/-- The engine cannot do what the negotiation needs. -/
def isEnvironment (f : Failure) : Bool := f.hasKind .environment

/-- The engine has reported an error of its own. -/
def isEngine (f : Failure) : Bool := f.hasKind .engine

def isUnsupported (f : Failure) : Bool := f.hasKind .unsupported

def isNotNegotiated (f : Failure) : Bool := f.hasKind .notNegotiated

/-- Some length field contradicts the bytes it counts. -/
def isMalformed (f : Failure) : Bool := f.causes.any Cause.isMalformed

/-- Some edited hello is missing from the engine's transcript. -/
def isTranscriptMismatch (f : Failure) : Bool := f.causes.any Cause.isTranscriptMismatch

end Failure
end AlpnOverlay
