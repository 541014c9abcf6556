import AlpnOverlay.Overlay.Parked

/-! What an overlay remembers about its connection. The flags are only ever set. -/
namespace AlpnOverlay

structure Session where
  /-- The peer's hello has been looked at or edited. -/
  peerHelloSeen : Bool := false
  /-- The own hello has been produced, and edited if need be. -/
  ownHelloSent : Bool := false
  selected : Option String := none
  protocols : List String := []
  parked : Parked := {}
  /-- Bytes have been moved; the protocols stay as they are. -/
  started : Bool := false
  /-- The handshake has failed. -/
  closed : Bool := false
  deriving DecidableEq, Repr

namespace Session

/-- The configured protocol of a given wire name. -/
def configured? (s : Session) (name : Bytes) : Option String :=
  s.protocols.find? fun protocol => utf8 protocol == name

def describe (s : Session) : String :=
  Text.record "EngineState"
    [Text.field "unwrap_hello_seen" (Text.truth s.peerHelloSeen),
      Text.field "our_hello_sent" (Text.truth s.ownHelloSent),
      Text.field "selected_protocol" (Text.optional (s.selected.map Text.quoted)),
      Text.field "protocols" (Text.listed (s.protocols.map Text.quoted)),
      Text.field "carry_over" s.parked.describe,
      Text.field "started" (Text.truth s.started),
      Text.field "closed" (Text.truth s.closed)]

end Session
end AlpnOverlay
