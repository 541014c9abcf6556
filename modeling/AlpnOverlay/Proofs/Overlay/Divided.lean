import AlpnOverlay.Proofs.Flight.RoundTrip
import AlpnOverlay.Proofs.Overlay.Gate

/-!
Hellos that run over two records. One whose first record shows the whole header of the message is
recognised, and passes without an offer; one that is cut inside the header is taken for a broken one.
-/
namespace AlpnOverlay

open Wire

variable {hello : Hello} {sender : Role} {message behind : Bytes} {first second : Record}
  {tail : List Record} {protocols : List Bytes}

/-- What has one value under a condition and another one otherwise. -/
theorem eq_iff_of_cases {α : Type} {x y z : α} {p : Prop} (hp : p → x = y) (hn : ¬ p → x = z)
    (hne : z ≠ y) : x = y ↔ p := by
  by_cases h : p
  · exact iff_of_true (hp h) h
  · exact iff_of_false (hn h ▸ hne) h

namespace Flight

theorem clientHello?_short (h : first.payload.length < Message.headerLength) :
    clientHello? first.payload = .error (.malformed .truncatedMessageHeader) := by
  simp only [clientHello?, splitWhole, Message.split_short h]
  rfl

theorem addOffer_of_error {e : Wire.Error} (he : first.isEditable = true)
    (hc : clientHello? first.payload = .error e) :
    addOffer (Record.encodeAll (first :: tail)) protocols = .error e := by
  simp only [addOffer, Record.split_encodeAll, he, hc, bind, Except.bind, Bool.not_true,
    Bool.false_eq_true, if_false]

theorem offer?_of_error {e : Wire.Error} (he : first.isEditable = true)
    (hc : clientHello? first.payload = .error e) :
    offer? (Record.encodeAll (first :: tail)) = .error e := by
  rw [Record.encodeAll_cons, offer?_record (type_of_isEditable he), hc]
  rfl

theorem takeSelection_short (he : first.isEditable = true)
    (h : first.payload.length < Message.headerLength) :
    takeSelection (Record.encodeAll (first :: tail)) =
      .error (.malformed .truncatedMessageHeader) := by
  simp only [takeSelection, serverFlight?, Record.split_encodeAll, he, Message.parse_short h, bind,
    Except.bind, Bool.not_true, Bool.false_eq_true, if_false]

/-- Behind the header of a hello, every cut is recognised. -/
theorem addOffer_cut (hw : hello.WellFormed) (hb : hello.encode = first.payload ++ behind)
    (hne : behind ≠ []) (hh : Message.headerLength ≤ first.payload.length) :
    addOffer (Record.encodeAll (first :: tail)) protocols = .ok none := by
  apply addOffer_none (clientHello?_cut hw hb hh hne)
  intro _ _ _ hfound
  cases hfound

theorem offer?_cut (hw : hello.WellFormed) (he : first.isEditable = true)
    (hb : hello.encode = first.payload ++ behind) (hne : behind ≠ [])
    (hh : Message.headerLength ≤ first.payload.length) :
    offer? (Record.encodeAll (first :: tail)) = .ok none := by
  rw [Record.encodeAll_cons, offer?_record (type_of_isEditable he),
    clientHello?_cut hw hb hh hne]
  rfl

end Flight

namespace Overlay

variable {σ : Type} [Engine σ] {o : Overlay σ} {sources buffers : List Bytes} {buffer : Bytes}

/-- A client lets its own hello go as it is, unless that is cut inside its header. -/
theorem wrap_divided_iff (hw : hello.WellFormed) (he : first.isEditable = true)
    (hb : hello.encode = first.payload ++ behind) (hne : behind ≠ []) (ho : Unsent o)
    (hout : (Engine.wrap o.engine sources buffer).output = Record.encodeAll (first :: tail)) :
    o.wrap sources buffer = o.pass (Engine.wrap o.engine sources buffer) ↔
      Message.headerLength ≤ first.payload.length := by
  have hnil : Record.encodeAll (first :: tail) ≠ [] := by
    rw [Record.encodeAll_cons]
    exact List.append_ne_nil_of_left_ne_nil (Record.encode_ne_nil first) _
  have hfull : (Engine.wrap o.engine sources buffer).output ≠ [] := by rwa [hout]
  have hedit := ho.editOf hfull
  rw [hout] at hedit
  rcases Nat.lt_or_ge first.payload.length Message.headerLength with hlt | hge
  · refine iff_of_false ?_ (Nat.not_le.2 hlt)
    intro hpass
    have hrefused := hedit.trans (Flight.addOffer_of_error he (Flight.clientHello?_short hlt))
    have hresult := congrArg Reply.result ((wrap_refused ho.toReady hrefused).symm.trans hpass)
    obtain ⟨-, progress, hok⟩ := Reply.produced_of_output hfull
    simp only [pass, hok] at hresult
    cases hresult
  · have hpasses := hedit.trans (Flight.addOffer_cut hw hb hne hge)
    exact iff_of_true (wrap_passed ho.toReady hpasses) hge

/-- A server goes on without the offer of such a hello, unless it is cut inside its header. -/
theorem unwrap_divided_iff (hw : hello.WellFormed) (he : first.isEditable = true)
    (hb : hello.encode = first.payload ++ behind) (hne : behind ≠ []) (ho : Unread o) :
    o.unwrap (Record.encodeAll (first :: tail)) buffers =
        o.markStarted.markSeen.forward
          (Engine.unwrap o.engine (Record.encodeAll (first :: tail)) buffers) ↔
      Message.headerLength ≤ first.payload.length := by
  rcases Nat.lt_or_ge first.payload.length Message.headerLength with hlt | hge
  · refine iff_of_false ?_ (Nat.not_le.2 hlt)
    intro hforward
    have hoffer : Flight.offer? (Record.encodeAll (first :: tail)) = .error _ :=
      Flight.offer?_of_error he (Flight.clientHello?_short hlt)
    rw [ho.unwrap_error hoffer, refuse, if_neg (by decide)] at hforward
    have hclosed := congrArg (fun outcome => outcome.engine.session.closed) hforward
    have hopen : o.session.closed = true := hclosed.symm
    cases ho.isOpen.symm.trans hopen
  · refine iff_of_true ?_ hge
    have hoffer : Flight.offer? (Record.encodeAll (first :: tail)) = .ok none :=
      Flight.offer?_cut hw he hb hne hge
    rw [unwrap_offered ho.toReady ho.server ho.unseen ho.unselected hoffer]
    have hsession : ({ o.markStarted.markSeen.session with selected := none } : Session) =
        o.markStarted.markSeen.session := by
      rw [← ho.unselected]
      rfl
    simp only [Option.bind_none, hsession]
    rfl

/-- A hello in two records is recognised as such exactly when the first of them holds the header of
the message: then a client hello goes through without an offer, on either side, and a server hello is
reported for what it is. Cut inside the header, it is refused by everyone who looks at it. -/
theorem divided_hello_recognised_iff (hp : Hello.parse sender message = .ok hello)
    (he : first.isEditable = true) (hm : message = first.payload ++ second.payload)
    (hne : second.payload ≠ []) :
    let stream := Record.encodeAll [first, second]
    let headed := Message.headerLength ≤ first.payload.length
    (sender = .client →
      (∀ protocols, Flight.addOffer stream protocols = .ok none ↔ headed) ∧
      (Flight.offer? stream = .ok none ↔ headed) ∧
      (∀ (o : Overlay σ) sources buffer, Unsent o →
        (Engine.wrap o.engine sources buffer).output = stream →
          (o.wrap sources buffer = o.pass (Engine.wrap o.engine sources buffer) ↔ headed)) ∧
      ∀ (o : Overlay σ) buffers, Unread o →
        (o.unwrap stream buffers =
          o.markStarted.markSeen.forward (Engine.unwrap o.engine stream buffers) ↔ headed)) ∧
    (sender = .server → (Flight.takeSelection stream = .error .fragmented ↔ headed)) ∧
    (¬ headed →
      (∀ protocols, Flight.addOffer stream protocols =
        .error (.malformed .truncatedMessageHeader)) ∧
      Flight.offer? stream = .error (.malformed .truncatedMessageHeader) ∧
      Flight.takeSelection stream = .error (.malformed .truncatedMessageHeader)) := by
  intro stream headed
  obtain ⟨hw, hs, rfl⟩ := Hello.parse_eq_ok_iff.1 hp
  have hrefused : ¬ headed →
      (∀ protocols, Flight.addOffer stream protocols =
        .error (.malformed .truncatedMessageHeader)) ∧
      Flight.offer? stream = .error (.malformed .truncatedMessageHeader) ∧
      Flight.takeSelection stream = .error (.malformed .truncatedMessageHeader) := by
    intro hh
    have hshort := Nat.not_le.1 hh
    have hc := Flight.clientHello?_short hshort
    exact ⟨fun _ => Flight.addOffer_of_error he hc, Flight.offer?_of_error he hc,
      Flight.takeSelection_short he hshort⟩
  refine ⟨?_, ?_, hrefused⟩
  · intro hclient
    refine ⟨?_, ?_, ?_, ?_⟩
    · intro protocols
      exact eq_iff_of_cases (Flight.addOffer_cut hw hm hne) (fun hh => (hrefused hh).1 protocols)
        nofun
    · exact eq_iff_of_cases (Flight.offer?_cut hw he hm hne) (fun hh => (hrefused hh).2.1) nofun
    · intro o sources buffer ho hout
      exact wrap_divided_iff hw he hm hne ho hout
    · intro o buffers ho
      exact unwrap_divided_iff hw he hm hne ho
  · intro hserver
    exact eq_iff_of_cases
      (fun hh => Flight.takeSelection_cut hw (hs.trans hserver) he hm hh hne)
      (fun hh => (hrefused hh).2.2) nofun

theorem length_helloOf_le (role : Role) : (Peer.helloOf role).encode.length ≤ maxPayload := by
  cases role <;> decide +kernel

/-- The first `count` bytes of a hello, in a record. -/
def frontRecord (role : Role) (count : Nat) : Record :=
  ⟨.handshake, .tls12, (Peer.helloOf role).encode.take count,
    Nat.le_trans (List.length_take_le' ..) (length_helloOf_le role)⟩

/-- What follows them, in another one. -/
def behindRecord (role : Role) (count : Nat) : Record :=
  ⟨.handshake, .tls12, (Peer.helloOf role).encode.drop count,
    Nat.le_trans (List.drop_sublist ..).length_le (length_helloOf_le role)⟩

/-- Four bytes of a hello are enough. -/
theorem divided_hello_recognised_by_header :
    Flight.addOffer (Record.encodeAll [frontRecord .client 4, behindRecord .client 4]) [[0x68]] =
        .ok none ∧
      Flight.takeSelection (Record.encodeAll [frontRecord .server 4, behindRecord .server 4]) =
        .error .fragmented := by
  have hdivided : ∀ role : Role,
      Hello.parse role (Peer.helloOf role).encode = .ok (Peer.helloOf role) ∧
      (frontRecord role 4).isEditable = true ∧
      (Peer.helloOf role).encode = (frontRecord role 4).payload ++ (behindRecord role 4).payload ∧
      (behindRecord role 4).payload ≠ [] ∧
      Message.headerLength ≤ (frontRecord role 4).payload.length := by
    intro role
    cases role <;> decide +kernel
  obtain ⟨hp, he, hm, hne, hh⟩ := hdivided .client
  obtain ⟨hp', he', hm', hne', hh'⟩ := hdivided .server
  obtain ⟨hclient, -, -⟩ := divided_hello_recognised_iff (σ := Scripted) hp he hm hne
  obtain ⟨-, hserver, -⟩ := divided_hello_recognised_iff (σ := Scripted) hp' he' hm' hne'
  exact ⟨((hclient rfl).1 _).2 hh, (hserver rfl).2 hh'⟩

/-- Three bytes are not. -/
theorem divided_hello_not_recognised :
    (∀ role : Role,
      Hello.parse role (Peer.helloOf role).encode = .ok (Peer.helloOf role) ∧
      (frontRecord role 3).isEditable = true ∧
      (Peer.helloOf role).encode = (frontRecord role 3).payload ++ (behindRecord role 3).payload) ∧
    Flight.addOffer (Record.encodeAll [frontRecord .client 3, behindRecord .client 3]) [[0x68]] ≠
      .ok none ∧
    Flight.offer? (Record.encodeAll [frontRecord .client 3, behindRecord .client 3]) ≠ .ok none ∧
    Flight.takeSelection (Record.encodeAll [frontRecord .server 3, behindRecord .server 3]) ≠
      .error .fragmented := by
  refine ⟨?_, ?_⟩
  · intro role
    cases role <;> decide +kernel
  · decide +kernel

end Overlay
end AlpnOverlay
