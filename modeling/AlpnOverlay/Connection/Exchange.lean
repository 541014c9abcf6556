import AlpnOverlay.Connection
import AlpnOverlay.Overlay.Call

/-! Two overlays joined by pipes, driven one call at a time. -/
namespace AlpnOverlay.Connection

variable {σ : Type}

def engineOf (c : Connection σ σ) : Role → σ
  | .client => c.client
  | .server => c.server

def put (c : Connection σ σ) (side : Role) (engine : σ) : Connection σ σ :=
  match side with
  | .client => { c with client := engine }
  | .server => { c with server := engine }

variable [Engine σ]

/-- Lets a side produce bytes and puts them into the pipe toward its peer. -/
def send (c : Connection (Overlay σ) (Overlay σ)) (side : Role) (source : List Bytes)
    (buffer : Bytes) : Connection (Overlay σ) (Overlay σ) × Answer Failure :=
  let reply := (c.engineOf side).wrap source buffer
  let c := c.put side reply.engine
  let c :=
    match reply.result with
    | .ok progress =>
      c.setWaiting side.peer (c.waiting side.peer ++ reply.buffer.take progress.produced)
    | .error _ => c
  (c, .moved [reply.buffer] reply.result)

/-- Shows a side the first `count` bytes that wait for it and takes away what it consumes. -/
def receive (c : Connection (Overlay σ) (Overlay σ)) (side : Role) (count : Nat)
    (buffers : List Bytes) : Connection (Overlay σ) (Overlay σ) × Answer Failure :=
  let pipe := c.waiting side
  let reply := (c.engineOf side).unwrap (pipe.take count) buffers
  let c := c.put side reply.engine
  let c :=
    match reply.result with
    | .ok progress => c.setWaiting side (pipe.drop progress.consumed)
    | .error _ => c
  (c, .moved reply.buffer reply.result)

end AlpnOverlay.Connection
