import AlpnOverlay.Proofs.Connection.Pump
import AlpnOverlay.Proofs.Peer.Turns

/-!
Flights that follow the hellos. They cross both overlays as they are, whatever the buffers, and
leave both sides with the same bytes hashed.
-/
namespace AlpnOverlay.Connection

open Overlay Peer Wire

variable {capacity : Nat} {role : Role} {turns : List Turn} {item : Item} {items : List Item}
  {data inbound outbound : Bytes} {session : Session}

/-- An overlay that edits the hellos of a peer partway through its script. -/
def seat (session : Session) (role : Role) (turns : List Turn) (data : Bytes) : Overlay Peer :=
  ⟨partway role turns data, .overlay, session⟩

theorem settled_seat {others : List Turn} {more : Bytes}
    (h : Settled (seat session role turns data)) :
    Settled (seat session role others more) :=
  ⟨⟨h.strategy, h.isOpen, h.slot⟩, h.started, h.passed⟩

/-- What the engine of an overlay does when it is its turn to send. -/
theorem engine_wrap (hc : 119 ≤ capacity) :
    ∃ buffer phase,
      Engine.wrap (seat session role (.send item :: turns) data).engine []
          (List.replicate capacity 0) =
        ⟨partway role turns (grownBy role data item), buffer,
          .ok ⟨.ok, phase, 0, (sentRecord role data item).size⟩⟩ ∧
      buffer.take (sentRecord role data item).size = (sentRecord role data item).encode := by
  have hsize : (sentRecord role data item).size ≤ capacity :=
    Nat.le_trans (size_sentRecord_le ..) hc
  refine ⟨_, _, wrap_send (by rwa [List.length_replicate]), ?_⟩
  rw [← Record.length_encode, List.take_left]

theorem size_ne (r : Record) : r.size ≠ 0 := by
  simp only [Record.size, headerLength]
  omega

/-- A record that needs no edit leaves as it is. -/
theorem moves_passed (hr : Ready (seat session role (.send item :: turns) data))
    (hc : 119 ≤ capacity)
    (he : (seat session role (.send item :: turns) data).outboundEdit
      (sentRecord role data item).encode = .ok none) :
    Moves capacity ⟨seat session role (.send item :: turns) data, inbound, outbound⟩
      ⟨seat { session with
          started := true
          ownHelloSent := (seat session role (.send item :: turns) data).sentAfter
            (sentRecord role data item).size } role turns (grownBy role data item),
        inbound, outbound ++ (sentRecord role data item).encode⟩ := by
  obtain ⟨buffer, phase, hpeer, htake⟩ :=
    @engine_wrap capacity role turns item data session hc
  have hedit : (seat session role (.send item :: turns) data).editOf
      (Engine.wrap (seat session role (.send item :: turns) data).engine []
        (List.replicate capacity 0)) = .ok none := by
    rw [hpeer]
    simp only [editOf, Reply.produced, Reply.output, htake, he, ite_self]
  have hw := wrap_passed hr hedit
  rw [hpeer] at hw
  have hm := moves_of_wrap inbound outbound (phase_of_ready hr) hw (size_ne _)
  simp only [htake] at hm
  exact hm

/-- A hello that needs an edit leaves with it. -/
theorem reaches_exchanged {edit : Flight.Edit} {more : Bytes} (inbound outbound : Bytes)
    (hr : Ready (seat session role (.send item :: turns) data)) (hc : 119 ≤ capacity)
    (he : (seat session role (.send item :: turns) data).outboundEdit
      (sentRecord role data item).encode = .ok (some edit))
    (hx : Corrects (partway role turns (grownBy role data item)) edit (partway role turns more))
    (hs : edit.stream ≠ []) :
    ∃ n, 0 < n ∧ n ≤ edit.stream.length ∧ Reaches capacity n
      ⟨seat session role (.send item :: turns) data, inbound, outbound⟩
      ⟨seat { session with started := true, ownHelloSent := true } role turns more, inbound,
        outbound ++ edit.stream⟩ := by
  obtain ⟨buffer, phase, hpeer, htake⟩ :=
    @engine_wrap capacity role turns item data session hc
  have hedit : (seat session role (.send item :: turns) data).editOf
      (Engine.wrap (seat session role (.send item :: turns) data).engine []
        (List.replicate capacity 0)) = .ok (some edit) := by
    rw [hpeer]
    simp only [editOf, Reply.produced, Reply.output, htake, he, size_ne, if_false]
  have hresult : (Engine.wrap (seat session role (.send item :: turns) data).engine []
      (List.replicate capacity 0)).result = .ok _ := congrArg Reply.result hpeer
  exact reaches_edited hr (by omega) rfl hresult hedit (by rw [hpeer]; exact hx) hs

theorem moves_sent (hs : Settled (seat session role (.send item :: turns) data))
    (hc : 119 ≤ capacity) :
    Moves capacity ⟨seat session role (.send item :: turns) data, inbound, outbound⟩
      ⟨seat session role turns (grownBy role data item), inbound,
        outbound ++ (sentRecord role data item).encode⟩ := by
  have hm := @moves_passed capacity role turns item data inbound outbound session hs.toReady hc
    (outboundEdit_of_settled hs _)
  rw [sentAfter_of_settled hs] at hm
  have hsession : { session with started := true, ownHelloSent := session.ownHelloSent } =
      session := by
    have hstarted : session.started = true := hs.started
    cases session
    cases hstarted
    rfl
  rwa [show (seat session role (.send item :: turns) data).session = session from rfl,
    hsession] at hm

theorem moves_received (hi : item.Follows)
    (hs : Settled (seat session role (.receive item :: turns) data)) :
    Moves capacity
      ⟨seat session role (.receive item :: turns) data,
        (sentRecord role.peer data item).encode ++ inbound, outbound⟩
      ⟨seat session role turns (grownBy role.peer data item), inbound, outbound⟩ := by
  have hpeer : Engine.unwrap (seat session role (.receive item :: turns) data).engine
      ((sentRecord role.peer data item).encode ++ inbound) [] = _ :=
    unwrap_receive (check_written hi)
  have hu : (seat session role (.receive item :: turns) data).unwrap
      ((sentRecord role.peer data item).encode ++ inbound) [] = _ := unwrap_of_settled hs
  rw [hpeer] at hu
  have hne : (sentRecord role.peer data item).encode ++ inbound ≠ [] :=
    List.append_ne_nil_of_left_ne_nil (Record.encode_ne_nil _) _
  have hpos : (sentRecord role.peer data item).size ≠ 0 := by
    simp only [Record.size, headerLength]
    omega
  have hm := moves_of_unwrap capacity outbound (phase_of_ready hs.toReady) hne hu hpos
  have hdrop : ((sentRecord role.peer data item).encode ++ inbound).drop
      (sentRecord role.peer data item).size = inbound := by
    rw [← Record.length_encode, List.drop_left]
  simp only [hdrop] at hm
  exact hm

/-- A side sends a flight, one record in a call. -/
theorem reaches_sent (hs : Settled (seat session role (items.map .send ++ turns) data))
    (hc : 119 ≤ capacity) :
    Reaches capacity items.length
      ⟨seat session role (items.map .send ++ turns) data, inbound, outbound⟩
      ⟨seat session role turns (grownOver role data items), inbound,
        outbound ++ Record.encodeAll (flight role data items)⟩ := by
  induction items generalizing data outbound with
  | nil =>
    rw [show outbound ++ Record.encodeAll (flight role data []) = outbound from
      List.append_nil outbound]
    exact .refl _
  | cons item items ih =>
    rw [show flight role data (item :: items) = _ :: _ from rfl, Record.encodeAll_cons,
      ← List.append_assoc]
    exact .step (moves_sent hs hc) (ih (settled_seat hs))

/-- A side reads the flight of a peer that has hashed the same. -/
theorem reaches_received (hi : ∀ item ∈ items, item.Follows)
    (hs : Settled (seat session role (items.map .receive ++ turns) data)) :
    Reaches capacity items.length
      ⟨seat session role (items.map .receive ++ turns) data,
        Record.encodeAll (flight role.peer data items) ++ inbound, outbound⟩
      ⟨seat session role turns (grownOver role.peer data items), inbound, outbound⟩ := by
  induction items generalizing data with
  | nil => exact .refl _
  | cons item items ih =>
    rw [show flight role.peer data (item :: items) = _ :: _ from rfl, Record.encodeAll_cons,
      List.append_assoc]
    refine .step (moves_received (hi item List.mem_cons_self) hs) (ih ?_ (settled_seat hs))
    intro x hx
    exact hi x (List.mem_cons_of_mem _ hx)

end AlpnOverlay.Connection
