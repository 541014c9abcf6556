import AlpnOverlay.Engine

/-!
An engine that negotiates itself and makes its connection on first use, so that its protocols can
be set up to then. It goes as far as a connection without buffer room or input goes: the client
waits for room to write its hello, the server for the client's hello.
-/
namespace AlpnOverlay

structure Deferred where
  role : Role
  protocols : List String := []
  connected : Bool := false
  deriving DecidableEq, Repr

namespace Deferred

def connect (e : Deferred) : Deferred := { e with connected := true }

def phase (e : Deferred) : Phase :=
  match e.role with
  | .client => .needWrap
  | .server => .needUnwrap

def setProtocols (e : Deferred) (protocols : List String) : Deferred × Except Cause Unit :=
  if e.connected then
    (e, .error (.alreadyStarted "ALPN list is fixed once the connection exists"))
  else ({ e with protocols }, .ok ())

instance : Engine Deferred where
  role := role
  wrap e _ buffer :=
    let status :=
      match e.role with
      | .client => .overflow
      | .server => .ok
    ⟨e.connect, buffer, .ok ⟨status, e.phase, 0, 0⟩⟩
  unwrap e _ buffers := ⟨e, buffers, .ok .underflow⟩
  phase := phase
  start e := (e.connect, .ok ())
  isNative _ := true
  setProtocols := setProtocols

def describe (e : Deferred) : String :=
  Text.openRecord "RustlsEngine"
    [Text.field "role" e.role.name,
      Text.field "alpn_protocols" (toString e.protocols.length),
      Text.field "started" (Text.truth e.connected)]

end Deferred
end AlpnOverlay
