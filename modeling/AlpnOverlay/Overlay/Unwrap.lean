import AlpnOverlay.Flight.Offer
import AlpnOverlay.Flight.Selection
import AlpnOverlay.Overlay.Edit

/-!
Consuming records. The server looks for an offer in the client's hello; the client takes the
selection out of the server's hello before the engine sees it.
-/
namespace AlpnOverlay.Overlay

variable {σ : Type} [Engine σ]

/-- Refuses input that cannot be read: more of it may help, anything else ends the connection. -/
def refuse (o : Overlay σ) (e : Wire.Error) (buffers : List Bytes) : Outcome σ (List Bytes) :=
  if e.isUnderflow then ⟨o, buffers, .ok .underflow⟩
  else ⟨o.close, buffers, .error (.ofWire e)⟩

def unwrapServer (o : Overlay σ) (source : Bytes) (buffers : List Bytes) :
    Outcome σ (List Bytes) :=
  if o.session.peerHelloSeen then o.forward (Engine.unwrap o.engine source buffers)
  else if o.session.protocols.isEmpty then
    o.markSeen.forward (Engine.unwrap o.engine source buffers)
  else
    match Flight.offer? source with
    | .error e => o.refuse e buffers
    | .ok offered =>
      let selected := offered.bind fun names => Flight.choose names o.session.protocols
      let o := { o with session.selected := selected }
      o.markSeen.forward (Engine.unwrap o.engine source buffers)

/-- Gives the engine a flight without its selection. What the engine consumes is counted in the
bytes of the flight as it came. -/
def unwrapStripped (o : Overlay σ) (edit : Flight.Edit) (protocol : String)
    (buffers : List Bytes) : Outcome σ (List Bytes) :=
  let reply := Engine.unwrap o.engine edit.stream buffers
  let o := { o with engine := reply.engine }
  match reply.result with
  | .error cause => ⟨o, reply.buffer, .error (.engine cause)⟩
  | .ok progress =>
    if progress.consumed = 0 then ⟨o, reply.buffer, .ok progress⟩
    else if progress.consumed < edit.headLength then
      ⟨o.close, reply.buffer, .error (.handshake (.stated
        s!"engine consumed {progress.consumed} of the {edit.headLength}-byte rewritten ServerHello record"))⟩
    else
      match o.correct edit with
      | .error f => ⟨o.close, reply.buffer, .error f⟩
      | .ok o =>
        let o := { o with session.selected := some protocol }
        let consumed := progress.consumed + (edit.carrierLength - edit.headLength)
        ⟨o.markSeen, reply.buffer, .ok { progress with consumed }⟩

def unwrapClient (o : Overlay σ) (source : Bytes) (buffers : List Bytes) :
    Outcome σ (List Bytes) :=
  if o.session.peerHelloSeen || !o.session.ownHelloSent || o.session.protocols.isEmpty then
    o.forward (Engine.unwrap o.engine source buffers)
  else
    match source with
    | type :: major :: minor :: _ =>
      if type ≠ Wire.ContentType.handshake.code || !Wire.Version.isEditable ⟨major, minor⟩ then
        o.forward (Engine.unwrap o.engine source buffers)
      else
        match Flight.takeSelection source with
        | .error e => o.refuse e buffers
        | .ok none => o.markSeen.forward (Engine.unwrap o.engine source buffers)
        | .ok (some (edit, name)) =>
          match o.session.configured? name with
          | none => o.refuse (.malformed (.unofferedSelection name)) buffers
          | some protocol => o.unwrapStripped edit protocol buffers
    | _ => ⟨o, buffers, .ok .underflow⟩

def unwrap (o : Overlay σ) (source : Bytes) (buffers : List Bytes) : Outcome σ (List Bytes) :=
  if o.session.closed then ⟨o, buffers, .ok (.closed (Engine.phase o.engine))⟩
  else
    let o := o.markStarted
    match o.strategy, o.role with
    | .native, _ => o.forward (Engine.unwrap o.engine source buffers)
    | .overlay, .client => o.unwrapClient source buffers
    | .overlay, .server => o.unwrapServer source buffers

theorem lengths_refuse (o : Overlay σ) (e : Wire.Error) (buffers : List Bytes) :
    (o.refuse e buffers).buffer = buffers := by
  unfold refuse
  split <;> rfl

theorem lengths_unwrapStripped (o : Overlay σ) (edit : Flight.Edit) (protocol : String)
    (buffers : List Bytes) :
    (o.unwrapStripped edit protocol buffers).buffer.map List.length =
      buffers.map List.length := by
  have h := Engine.unwrap_lengths o.engine edit.stream buffers
  unfold unwrapStripped
  dsimp only
  repeat' split
  all_goals exact h

theorem lengths_unwrap (o : Overlay σ) (source : Bytes) (buffers : List Bytes) :
    (o.unwrap source buffers).buffer.map List.length = buffers.map List.length := by
  have h (o : Overlay σ) :
      (o.forward (Engine.unwrap o.engine source buffers)).buffer.map List.length =
        buffers.map List.length :=
    Engine.unwrap_lengths o.engine source buffers
  unfold unwrap
  dsimp only
  split
  · rfl
  · split
    · exact h _
    · unfold unwrapClient
      repeat' split
      all_goals first
        | exact h _
        | exact h (markSeen _)
        | exact lengths_unwrapStripped ..
        | exact congrArg _ (lengths_refuse ..)
        | rfl
    · unfold unwrapServer
      dsimp only
      repeat' split
      all_goals first
        | exact h _
        | exact h (markSeen _)
        | exact congrArg _ (lengths_refuse ..)

end AlpnOverlay.Overlay
