import AlpnOverlay.Flight.Offer
import AlpnOverlay.Flight.Selection
import AlpnOverlay.Overlay.Edit

/-!
Producing records. The client's first hello leaves with an offer, the server's with the selection
made from the peer's offer.
-/
namespace AlpnOverlay.Overlay

variable {σ : Type}

/-- Bytes are to be parked on top of others. -/
def slotTaken : Failure := .handshake (.stated Parked.occupied)

/-- Puts an edited stream into the buffer and parks what it does not take. -/
def deliver (o : Overlay σ) (stream buffer : Bytes) (progress : Progress) : Outcome σ Bytes :=
  let delivery := Flight.Delivery.of stream buffer.length
  let buffer := delivery.ready ++ buffer.drop delivery.ready.length
  let progress := { progress with produced := delivery.ready.length }
  match delivery.deferred with
  | none => ⟨o, buffer, .ok progress⟩
  | some rest =>
    match o.session.parked.park rest with
    -- An assertion: the engine is asked for output only when nothing is parked.
    | .error _ => ⟨o, buffer, .error slotTaken⟩
    | .ok parked =>
      ⟨{ o with session.parked := parked }, buffer, .ok { progress with phase := .needWrap }⟩

theorem length_deliver (o : Overlay σ) (stream buffer : Bytes) (progress : Progress) :
    (o.deliver stream buffer progress).buffer.length = buffer.length := by
  have h := Flight.Delivery.ready_le stream buffer.length
  have hl : ((Flight.Delivery.of stream buffer.length).ready ++
      buffer.drop (Flight.Delivery.of stream buffer.length).ready.length).length =
        buffer.length := by
    simp only [List.length_append, List.length_drop]
    omega
  unfold deliver
  dsimp only
  repeat' split
  all_goals exact hl

variable [Engine σ]

/-- Lets the engine produce a record and edits the hello that it starts with. `final` tells
whether a record without such a hello ends the search for it. -/
def wrapEditing (o : Overlay σ) (edit : Bytes → Except Wire.Error (Option Flight.Edit))
    (final : Bool) (source : List Bytes) (buffer : Bytes) : Outcome σ Bytes :=
  let reply := Engine.wrap o.engine source buffer
  let o := { o with engine := reply.engine }
  match reply.result with
  | .error cause => ⟨o, reply.buffer, .error (.engine cause)⟩
  | .ok progress =>
    if progress.produced = 0 then ⟨o, reply.buffer, .ok progress⟩
    else
      match edit (reply.buffer.take progress.produced) with
      | .error e => ⟨o.close, reply.buffer, .error (.ofWire e)⟩
      | .ok none => ⟨if final then o.markSent else o, reply.buffer, .ok progress⟩
      | .ok (some edit) =>
        match o.correct edit with
        | .error f => ⟨o.close, reply.buffer, .error f⟩
        | .ok o => o.markSent.deliver edit.stream reply.buffer progress

def wrapClient (o : Overlay σ) (source : List Bytes) (buffer : Bytes) : Outcome σ Bytes :=
  if o.session.ownHelloSent || o.session.protocols.isEmpty then
    o.forward (Engine.wrap o.engine source buffer)
  else
    o.wrapEditing (fun data => Flight.addOffer data (o.session.protocols.map utf8)) true source
      buffer

def wrapServer (o : Overlay σ) (source : List Bytes) (buffer : Bytes) : Outcome σ Bytes :=
  if o.session.peerHelloSeen && !o.session.ownHelloSent then
    match o.session.selected with
    | none => o.markSent.forward (Engine.wrap o.engine source buffer)
    | some protocol =>
      o.wrapEditing (fun data => Flight.addSelection data (utf8 protocol)) false source buffer
  else o.forward (Engine.wrap o.engine source buffer)

/-- Delivers parked bytes; the engine is not asked for more. -/
def drain (o : Overlay σ) (buffer : Bytes) : Outcome σ Bytes :=
  if buffer.isEmpty then ⟨o, buffer, .ok ⟨.overflow, .needWrap, 0, 0⟩⟩
  else
    let (parked, buffer, count) := o.session.parked.drain buffer
    let o := { o with session.parked := parked }
    ⟨o, buffer, .ok ⟨.ok, o.phase, 0, count⟩⟩

def wrap (o : Overlay σ) (source : List Bytes) (buffer : Bytes) : Outcome σ Bytes :=
  if o.session.closed then ⟨o, buffer, .ok (.closed (Engine.phase o.engine))⟩
  else
    let o := o.markStarted
    if o.session.parked.isEmpty then
      match o.strategy, o.role with
      | .native, _ => o.forward (Engine.wrap o.engine source buffer)
      | .overlay, .client => o.wrapClient source buffer
      | .overlay, .server => o.wrapServer source buffer
    else o.drain buffer

theorem length_wrapEditing (o : Overlay σ)
    (edit : Bytes → Except Wire.Error (Option Flight.Edit)) (final : Bool) (source : List Bytes)
    (buffer : Bytes) : (o.wrapEditing edit final source buffer).buffer.length = buffer.length := by
  have h := Engine.wrap_length o.engine source buffer
  unfold wrapEditing
  dsimp only
  repeat' split
  all_goals first | exact h | exact (length_deliver ..).trans h

theorem length_wrap (o : Overlay σ) (source : List Bytes) (buffer : Bytes) :
    (o.wrap source buffer).buffer.length = buffer.length := by
  have h (o : Overlay σ) :
      (o.forward (Engine.wrap o.engine source buffer)).buffer.length = buffer.length :=
    Engine.wrap_length o.engine source buffer
  unfold wrap
  dsimp only
  repeat' split
  · rfl
  · exact h _
  · unfold wrapClient
    split
    · exact h _
    · exact length_wrapEditing ..
  · unfold wrapServer
    split
    · split
      · exact h (markSent _)
      · exact length_wrapEditing ..
    · exact h _
  · unfold drain
    split
    · rfl
    · exact Parked.length_drain ..

end AlpnOverlay.Overlay
