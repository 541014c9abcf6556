import AlpnOverlay.Flight.Edit
import AlpnOverlay.Overlay

/-! The steps that outbound and inbound calls share. -/
namespace AlpnOverlay.Overlay

variable {σ : Type}

/-- A call that moves bytes: the overlay after it, the caller's buffer, and how it ended. -/
abbrev Outcome (σ β : Type) : Type := Reply (Overlay σ) β Failure

def markStarted (o : Overlay σ) : Overlay σ := { o with session.started := true }

def markSent (o : Overlay σ) : Overlay σ := { o with session.ownHelloSent := true }

def markSeen (o : Overlay σ) : Overlay σ := { o with session.peerHelloSeen := true }

/-- What the engine replied, as the overlay's own reply. -/
def forward {β : Type} (o : Overlay σ) (reply : Reply σ β Cause) : Outcome σ β :=
  ⟨{ o with engine := reply.engine }, reply.buffer, reply.result.mapError .engine⟩

variable [Engine σ]

/-- Ends the connection after a handshake failure. -/
def close (o : Overlay σ) : Overlay σ :=
  { o with engine := Engine.closeOutbound o.engine, session.closed := true }

/-- Puts the hello into the engine's transcript as it crosses the wire. -/
def correct (o : Overlay σ) (edit : Flight.Edit) : Except Failure (Overlay σ) :=
  match Engine.transcript? o.engine with
  | none => .error (.environment "a handshake transcript")
  | some transcript =>
    match transcript.resynchronize o.engine edit.substitution with
    | .error f => .error f
    | .ok engine => .ok { o with engine }

end AlpnOverlay.Overlay
