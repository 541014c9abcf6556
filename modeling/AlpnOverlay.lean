import AlpnOverlay.Bytes
import AlpnOverlay.Config
import AlpnOverlay.Config.Error
import AlpnOverlay.Connection
import AlpnOverlay.Connection.Exchange
import AlpnOverlay.Digest.BlockHash
import AlpnOverlay.Digest.Sha
import AlpnOverlay.Draft
import AlpnOverlay.Engine
import AlpnOverlay.Engine.Bare
import AlpnOverlay.Engine.Call
import AlpnOverlay.Engine.Deferred
import AlpnOverlay.Engine.Recorded
import AlpnOverlay.Engine.Scripted
import AlpnOverlay.Failure
import AlpnOverlay.Flight.Edit
import AlpnOverlay.Flight.Offer
import AlpnOverlay.Flight.Selection
import AlpnOverlay.Overlay
import AlpnOverlay.Overlay.Call
import AlpnOverlay.Overlay.Edit
import AlpnOverlay.Overlay.Parked
import AlpnOverlay.Overlay.Session
import AlpnOverlay.Overlay.Tower
import AlpnOverlay.Overlay.Unwrap
import AlpnOverlay.Overlay.Wrap
import AlpnOverlay.Peer
import AlpnOverlay.ProtocolId
import AlpnOverlay.Role
import AlpnOverlay.Text.Braced
import AlpnOverlay.Text.Invisible
import AlpnOverlay.Text.Lossy
import AlpnOverlay.Text.Quoted
import AlpnOverlay.Transcript
import AlpnOverlay.Transcript.RunningHash
import AlpnOverlay.Transcript.Substitution
import AlpnOverlay.Wire.Cursor
import AlpnOverlay.Wire.Error
import AlpnOverlay.Wire.Extension
import AlpnOverlay.Wire.Hello
import AlpnOverlay.Wire.Message
import AlpnOverlay.Wire.ProtocolList
import AlpnOverlay.Wire.Record
import AlpnOverlay.Proofs.Wire.Numbers
import AlpnOverlay.Proofs.Wire.Reading
import AlpnOverlay.Proofs.Wire.Layout
import AlpnOverlay.Proofs.Wire.Refusals
import AlpnOverlay.Proofs.Wire.Stream
import AlpnOverlay.Proofs.Wire.Splitting
import AlpnOverlay.Proofs.Wire.Grammar
import AlpnOverlay.Proofs.Wire.ProtocolNames
import AlpnOverlay.Proofs.Wire.Extending
import AlpnOverlay.Proofs.Config.Sendable
import AlpnOverlay.Proofs.Flight.Editing
import AlpnOverlay.Proofs.Flight.Fitting
import AlpnOverlay.Proofs.Flight.Gating
import AlpnOverlay.Proofs.Flight.Locality
import AlpnOverlay.Proofs.Flight.Opening
import AlpnOverlay.Proofs.Flight.Rebuilding
import AlpnOverlay.Proofs.Flight.Reframing
import AlpnOverlay.Proofs.Flight.RoundTrip
import AlpnOverlay.Proofs.Transcript.FirstMatch
import AlpnOverlay.Proofs.Digest.Streaming
import AlpnOverlay.Proofs.Transcript.Resynchronizing
import AlpnOverlay.Proofs.Overlay.Steps
import AlpnOverlay.Proofs.Overlay.Runs
import AlpnOverlay.Proofs.Overlay.Sessions
import AlpnOverlay.Proofs.Overlay.Recording
import AlpnOverlay.Proofs.Overlay.Outbound
import AlpnOverlay.Proofs.Overlay.Capabilities
import AlpnOverlay.Proofs.Overlay.Episodes
import AlpnOverlay.Proofs.Overlay.Closing
import AlpnOverlay.Proofs.Overlay.Repairs
import AlpnOverlay.Proofs.Overlay.Transparent
import AlpnOverlay.Proofs.Overlay.Towers
import AlpnOverlay.Proofs.Overlay.Offered
import AlpnOverlay.Proofs.Overlay.WireTranscript
import AlpnOverlay.Proofs.Overlay.Told
import AlpnOverlay.Proofs.Overlay.Outcomes
import AlpnOverlay.Proofs.Overlay.Consumed
import AlpnOverlay.Proofs.Overlay.Unasked
import AlpnOverlay.Proofs.Overlay.Gate
import AlpnOverlay.Proofs.Overlay.Interrupted
import AlpnOverlay.Proofs.Overlay.Draining
import AlpnOverlay.Proofs.Overlay.Divided
import AlpnOverlay.Proofs.Overlay.Foreign
import AlpnOverlay.Proofs.Peer.Turns
import AlpnOverlay.Proofs.Peer.Hellos
import AlpnOverlay.Proofs.Connection.Pump
import AlpnOverlay.Proofs.Connection.Flights
import AlpnOverlay.Proofs.Connection.Hellos
import AlpnOverlay.Proofs.Connection.Negotiation
import AlpnOverlay.Proofs.Transcript.Keeping
import AlpnOverlay.Proofs.Config.Offences
import AlpnOverlay.Proofs.Wire.Advancing
import AlpnOverlay.Proofs.Failure.Chains
import AlpnOverlay.Proofs.Overlay.Reporting
