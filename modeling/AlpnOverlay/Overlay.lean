import AlpnOverlay.Config
import AlpnOverlay.Engine
import AlpnOverlay.Overlay.Session

/-!
An engine with protocol negotiation on top of it. The engine either negotiates itself, or its
hellos are edited as they pass; which of the two is decided once, when the overlay is made.
-/
namespace AlpnOverlay

inductive Strategy where
  /-- The engine negotiates; every call goes straight through. -/
  | native
  /-- Hellos are edited on their way through the engine. -/
  | overlay
  deriving DecidableEq, Repr

def Strategy.name : Strategy → String
  | native => "Native"
  | overlay => "Rewrite"

structure Overlay (σ : Type) where
  engine : σ
  strategy : Strategy
  session : Session

namespace Overlay

variable {σ : Type}

def protocols (o : Overlay σ) : List String := o.session.protocols

def isClosed (o : Overlay σ) : Bool := o.session.closed

def describe (o : Overlay σ) : String :=
  Text.openRecord "AlpnEngine"
    [Text.field "strategy" o.strategy.name, Text.field "state" o.session.describe]

variable [Engine σ]

/-- How protocols are negotiated over `engine`; a mode that the engine cannot serve is refused. -/
def strategyFor (engine : σ) (config : Config) : Except Failure Strategy :=
  let hashes := (Engine.transcript? engine).isSome
  match config.mode with
  | .native =>
    if Engine.isNative engine then .ok .native else .error (.environment "native ALPN")
  | .overlay =>
    if hashes then .ok .overlay else .error (.environment "a handshake transcript")
  | .detect =>
    if Engine.isNative engine then .ok .native
    else if hashes || !config.isEnabled then .ok .overlay
    else .error (.environment "native ALPN or a handshake transcript")

/-- Settles how protocols are negotiated over `engine`; one that negotiates itself is given the
list. The engine is handed back as it was left, after a refusal as well. A list that cannot be sent
is refused before the engine is asked anything. -/
def prepare (engine : σ) (config : Config) : σ × Except Failure Strategy :=
  match config.check with
  | .error e => (engine, .error (.ofConfig e))
  | .ok () =>
    match strategyFor engine config with
    | .error f => (engine, .error f)
    | .ok strategy =>
      if strategy = .native ∧ config.isEnabled then
        match Engine.setProtocols engine config.protocols with
        | (engine, .error cause) => (engine, .error (.engine cause))
        | (engine, .ok ()) => (engine, .ok strategy)
      else (engine, .ok strategy)

/-- Lays an overlay over `engine`. -/
def of (engine : σ) (config : Config) : Except Failure (Overlay σ) :=
  match prepare engine config with
  | (_, .error f) => .error f
  | (engine, .ok strategy) =>
    .ok { engine, strategy, session := { protocols := config.protocols } }

def role (o : Overlay σ) : Role := Engine.role o.engine

/-- Replaces the protocols, as long as no bytes have been moved. -/
def setProtocols (o : Overlay σ) (protocols : List String) : Overlay σ × Except Failure Unit :=
  if o.session.started then
    (o, .error (.configuration
      (.stated "application protocols cannot change after the handshake has started")))
  else
    match Config.checkList protocols with
    | .error e => (o, .error (.ofConfig e))
    | .ok () =>
      let session := { o.session with protocols }
      match o.strategy with
      | .native =>
        match Engine.setProtocols o.engine protocols with
        | (engine, .error cause) => ({ o with engine }, .error (.engine cause))
        | (engine, .ok ()) => ({ o with engine, session }, .ok ())
      | .overlay => ({ o with session }, .ok ())

/-- The negotiated protocol, or none when the peers agreed on none. -/
def protocol (o : Overlay σ) : Except Failure (Option String) :=
  match o.strategy with
  | .native =>
    if (Engine.phase o.engine).isHandshaking then .error .notNegotiated
    else .ok (Engine.protocol? o.engine)
  | .overlay => .ok o.session.selected

/-- What a handshake under way has selected so far. -/
def handshakeProtocol (o : Overlay σ) : Except Failure (Option String) :=
  match o.strategy with
  | .native => .ok (Engine.protocol? o.engine)
  | .overlay => .error (.unsupported "handshake application protocol")

/-- Lets the application choose from the client's offer. -/
def setSelector (o : Overlay σ) (selector : Selector) : Overlay σ × Except Failure Unit :=
  match o.strategy with
  | .native =>
    let (engine, result) := Engine.setSelector o.engine selector
    ({ o with engine }, result.mapError .engine)
  | .overlay => (o, .error (.unsupported "handshake protocol selector"))

def selector (o : Overlay σ) : Except Failure (Option Selector) :=
  match o.strategy with
  | .native => .ok (Engine.selector? o.engine)
  | .overlay => .error (.unsupported "handshake protocol selector")

def start (o : Overlay σ) : Overlay σ × Except Failure Unit :=
  let (engine, result) := Engine.start o.engine
  ({ o with engine }, result.mapError .engine)

def closeInbound (o : Overlay σ) : Overlay σ :=
  { o with engine := Engine.closeInbound o.engine }

def closeOutbound (o : Overlay σ) : Overlay σ :=
  { o with engine := Engine.closeOutbound o.engine }

/-- Parked bytes have to go out before the handshake waits for anything else. -/
def phase (o : Overlay σ) : Phase :=
  if o.session.parked.isEmpty then Engine.phase o.engine else .needWrap

end Overlay
end AlpnOverlay
