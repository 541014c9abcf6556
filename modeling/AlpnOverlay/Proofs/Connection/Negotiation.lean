import AlpnOverlay.Proofs.Connection.Hellos

/-!
A whole handshake between two overlays. It ends with the first protocol of the client's list that
the server has, and with the same transcript on both sides.
-/
namespace AlpnOverlay.Connection

open Overlay Peer Wire Config

section Exchanges

variable {σ τ : Type} [Engine σ] [Engine τ] {c : Connection σ τ} {m n k : Nat} {s : End σ}
  {t : End τ}

theorem lt_rounds (h : n < 2 ^ 18) (waiting : Bytes) : n < rounds waiting :=
  Nat.lt_of_lt_of_le h (Nat.le_add_right ..)

/-- One exchange: the client goes on until it waits, and then the server. -/
theorem handshakeWithin_succ (h0 : 0 < m) (hm : m < 2 ^ 18) (hn : n < 2 ^ 18)
    (hs : Reaches c.capacity m ⟨c.client, c.toClient, c.toServer⟩ s) (hrs : Rests s)
    (ht : Reaches c.capacity n ⟨c.server, s.outbound, s.inbound⟩ t) (hrt : Rests t) :
    handshakeWithin (k + 1) c =
      if (Engine.phase s.engine).isHandshaking || (Engine.phase t.engine).isHandshaking then
        handshakeWithin k ⟨s.engine, t.engine, t.inbound, t.outbound, c.capacity⟩
      else (⟨s.engine, t.engine, t.inbound, t.outbound, c.capacity⟩, .ok ()) := by
  have hclient := pump_eq hs hrs (lt_rounds hm c.toClient)
  have hserver := pump_eq ht hrt (lt_rounds hn s.outbound)
  simp only [handshakeWithin, pumpClient, pumpServer, hclient, hserver, isHandshaking, h0,
    decide_true, Bool.not_true, Bool.false_and, Bool.false_eq_true, if_false]
  cases (Engine.phase s.engine).isHandshaking || (Engine.phase t.engine).isHandshaking <;> rfl

end Exchanges

variable {capacity k : Nat} {names configured : List String} {selected : Option String}
  {data : Bytes} {done : Bool} {first second third : List Item} {session : Session} {role : Role}
  {turns : List Turn} {item : Item} {outbound : Bytes}

theorem rests_receive (h : Ready (seat session role (.receive item :: turns) data)) :
    Rests ⟨seat session role (.receive item :: turns) data, [], outbound⟩ := by
  have hp : Engine.phase (seat session role (.receive item :: turns) data) = .needUnwrap :=
    phase_of_ready h
  refine ⟨?_, fun _ => rfl⟩
  rw [hp]
  decide

theorem rests_nil (h : Ready (seat session role [] data)) :
    Rests ⟨seat session role [] data, [], outbound⟩ := by
  have hp : Engine.phase (seat session role [] data) = .notHandshaking := phase_of_ready h
  refine ⟨?_, fun _ => rfl⟩
  rw [hp]
  decide

/-- What both sides have hashed after the hellos. -/
def greeted (names : List String) (selected : Option String) (done : Bool) : Bytes :=
  (wireHello .client names).encode ++ reply selected done

/-- The turns behind the hellos: a flight of the server, one of the client and a last one of the
server. -/
def ahead (first second third : List Item) : Role → List Turn
  | .client => first.map .receive ++ (second.map .send ++ third.map .receive)
  | .server => first.map .send ++ (second.map .receive ++ third.map .send)

/-- Both sides in front of their hellos. -/
def opening (names configured : List String) (done : Bool) (first second third : List Item)
    (capacity : Nat) : Connection (Overlay Peer) (Overlay Peer) where
  client := seat { protocols := names } .client
    (.send .clientHello :: .receive (.serverHello done) :: ahead first second third .client) []
  server := seat { protocols := configured } .server
    (.receive .clientHello :: .send (.serverHello done) :: ahead first second third .server) []
  capacity

/-- The first exchange: the client's hello, the server's answer and what it sends along. -/
theorem handshakeWithin_hellos (h : Named names) (hfit : 120 + listSize names ≤ maxPlaintext)
    (hc : 119 ≤ capacity) (hs : names.find? (· ∈ configured) = selected)
    (hsel : ∀ protocol ∈ selected, Sendable protocol) (h2 : second ≠ [])
    (hl : first.length ≤ 2 ^ 10) :
    handshakeWithin (k + 1) (opening names configured done first second third capacity) =
      handshakeWithin k
        ⟨seat (asked names) .client
            (.receive (.serverHello done) :: ahead first second third .client)
            (wireHello .client names).encode,
          seat (replied configured selected) .server (second.map .receive ++ third.map .send)
            (grownOver .server (greeted names selected done) first),
          [], Record.encodeAll (helloRecord _ (length_reply hsel done) ::
            flight .server (greeted names selected done) first), capacity⟩ := by
  obtain ⟨item, others, rfl⟩ := List.exists_cons_of_ne_nil h2
  obtain ⟨m, hm0, hm, hclient⟩ := @reaches_asked capacity
    (.receive (.serverHello done) :: ahead first (item :: others) third .client) names [] [] h hfit
    hc
  have hread := @moves_addressed capacity
    (.send (.serverHello done) :: ahead first (item :: others) third .server) names configured
    [] [] h hfit
  rw [hs, List.append_nil] at hread
  obtain ⟨n, -, hn, hanswer⟩ := @reaches_replied capacity
    (ahead first (item :: others) third .server) configured selected
    (wireHello .client names).encode [] [] done hsel hc (not_earlier_wireHello h)
  have hsend : Reaches capacity first.length
      ⟨seat (replied configured selected) .server (ahead first (item :: others) third .server)
        (greeted names selected done), [], [] ++ (helloRecord _ (length_reply hsel done)).encode⟩
      ⟨seat (replied configured selected) .server _ _, [], _⟩ :=
    reaches_sent (settled_replied configured selected) hc
  rw [List.nil_append, ← Record.encodeAll_cons] at hsend
  have hserver := ((Reaches.single hread).trans hanswer).trans hsend
  rw [handshakeWithin_succ hm0 (Nat.lt_of_le_of_lt hm (by decide)) (by omega) hclient
    (rests_receive ⟨rfl, rfl, rfl⟩) hserver (rests_receive ⟨rfl, rfl, rfl⟩)]
  exact if_pos rfl

/-- The client reads the answer with what comes along, and sends its flight. -/
theorem reaches_answered (hc : 119 ≤ capacity) (hsel : ∀ protocol ∈ selected, Sendable protocol)
    (hm : ∀ protocol ∈ selected, protocol ∈ names)
    (hearly : ¬ Earlier (helloOf .server).encode data) (h1 : ∀ item ∈ first, item.Follows) :
    Reaches capacity (1 + first.length + second.length)
      ⟨seat (asked names) .client
          (.receive (.serverHello done) :: ahead first second third .client) data,
        Record.encodeAll (helloRecord _ (length_reply hsel done) ::
          flight .server (data ++ reply selected done) first), []⟩
      ⟨seat (answered names selected) .client (third.map .receive)
          (grownOver .client (grownOver .server (data ++ reply selected done) first) second), [],
        Record.encodeAll
          (flight .client (grownOver .server (data ++ reply selected done) first) second)⟩ := by
  have hread : Moves capacity _ ⟨seat (answered names selected) .client _ _, _, []⟩ :=
    @moves_answered capacity (ahead first second third .client) names selected data [] done
      (flight .server (data ++ reply selected done) first) hsel hm hearly
  have hfirst : Reaches capacity first.length
      ⟨seat (answered names selected) .client (ahead first second third .client)
        (data ++ reply selected done),
        Record.encodeAll (flight .server (data ++ reply selected done) first) ++ [], []⟩
      ⟨seat (answered names selected) .client _ _, [], []⟩ :=
    reaches_received h1 (settled_answered names selected)
  have hsecond : Reaches capacity second.length
      ⟨seat (answered names selected) .client (second.map .send ++ third.map .receive)
        (grownOver .server (data ++ reply selected done) first), [], []⟩
      ⟨seat (answered names selected) .client _ _, [], _⟩ :=
    reaches_sent (settled_answered names selected) hc
  rw [List.append_nil] at hfirst
  rw [List.nil_append] at hsecond
  exact ((Reaches.single hread).trans hfirst).trans hsecond

/-- The server reads the client's flight and sends its last one. -/
theorem reaches_closing (hc : 119 ≤ capacity) (h2 : ∀ item ∈ second, item.Follows) :
    Reaches capacity (second.length + third.length)
      ⟨seat (replied configured selected) .server (second.map .receive ++ third.map .send) data,
        Record.encodeAll (flight .client data second), []⟩
      ⟨seat (replied configured selected) .server []
          (grownOver .server (grownOver .client data second) third), [],
        Record.encodeAll (flight .server (grownOver .client data second) third)⟩ := by
  have hread : Reaches capacity second.length
      ⟨seat (replied configured selected) .server (second.map .receive ++ third.map .send) data,
        Record.encodeAll (flight .client data second) ++ [], []⟩
      ⟨seat (replied configured selected) .server _ _, [], []⟩ :=
    reaches_received h2 (settled_replied configured selected)
  have hsent : Reaches capacity third.length
      ⟨seat (replied configured selected) .server (third.map .send ++ [])
        (grownOver .client data second), [], []⟩
      ⟨seat (replied configured selected) .server _ _, [], _⟩ :=
    reaches_sent (settled_replied configured selected) hc
  rw [List.append_nil] at hread hsent
  rw [List.nil_append] at hsent
  exact hread.trans hsent

/-- A client with nothing left to send rests. -/
theorem rests_answered : Rests ⟨seat (answered names selected) .client (third.map .receive) data,
    [], outbound⟩ := by
  cases third with
  | nil => exact rests_nil (settled_answered names selected).toReady
  | cons item third => exact rests_receive (settled_answered names selected).toReady

/-- The second exchange: the client reads the answer and sends its flight, and the server reads
that and sends its last one. -/
theorem handshakeWithin_flights (hc : 119 ≤ capacity)
    (hsel : ∀ protocol ∈ selected, Sendable protocol)
    (hm : ∀ protocol ∈ selected, protocol ∈ names)
    (hearly : ¬ Earlier (helloOf .server).encode data)
    (h1 : ∀ item ∈ first, item.Follows) (h2 : ∀ item ∈ second, item.Follows)
    (hl : first.length + second.length + third.length ≤ 2 ^ 10) :
    handshakeWithin (k + 1)
        ⟨seat (asked names) .client
            (.receive (.serverHello done) :: ahead first second third .client) data,
          seat (replied configured selected) .server (second.map .receive ++ third.map .send)
            (grownOver .server (data ++ reply selected done) first),
          [], Record.encodeAll (helloRecord _ (length_reply hsel done) ::
            flight .server (data ++ reply selected done) first), capacity⟩ =
      (let sent := grownOver .client (grownOver .server (data ++ reply selected done) first) second
      let next : Connection (Overlay Peer) (Overlay Peer) :=
        ⟨seat (answered names selected) .client (third.map .receive) sent,
          seat (replied configured selected) .server [] (grownOver .server sent third),
          [], Record.encodeAll (flight .server sent third), capacity⟩
      if third = [] then (next, .ok ()) else handshakeWithin k next) := by
  rw [handshakeWithin_succ (by omega) (by omega) (by omega)
    (reaches_answered hc hsel hm hearly h1) rests_answered (reaches_closing hc h2)
    (rests_nil (settled_replied configured selected).toReady)]
  cases third with
  | nil => exact if_neg Bool.false_ne_true
  | cons item third => exact if_pos rfl

/-- The third exchange: the client reads the server's last flight. -/
theorem handshakeWithin_last (hi : ∀ item ∈ third, item.Follows) (h3 : third ≠ [])
    (hl : third.length ≤ 2 ^ 10) :
    handshakeWithin (k + 1)
        ⟨seat (answered names selected) .client (third.map .receive) data,
          seat (replied configured selected) .server [] (grownOver .server data third),
          [], Record.encodeAll (flight .server data third), capacity⟩ =
      (⟨seat (answered names selected) .client [] (grownOver .server data third),
        seat (replied configured selected) .server [] (grownOver .server data third),
        [], [], capacity⟩, .ok ()) := by
  have hread : Reaches capacity third.length
      ⟨seat (answered names selected) .client (third.map .receive ++ []) data,
        Record.encodeAll (flight .server data third) ++ [], []⟩
      ⟨seat (answered names selected) .client [] (grownOver .server data third), [], []⟩ :=
    reaches_received hi (settled_answered names selected)
  rw [List.append_nil, List.append_nil] at hread
  rw [handshakeWithin_succ (List.length_pos_iff.2 h3) (by omega) (by decide) hread
    (rests_nil (settled_answered names selected).toReady) (.refl _)
    (rests_nil (settled_replied configured selected).toReady)]
  exact if_neg Bool.false_ne_true

/-- Both sides end with the same choice and the same bytes hashed. -/
theorem handshake_opening (h : Named names) (hfit : 120 + listSize names ≤ maxPlaintext)
    (hc : 119 ≤ capacity) (hs : names.find? (· ∈ configured) = selected)
    (h1 : ∀ item ∈ first, item.Follows) (h2 : ∀ item ∈ second, item.Follows)
    (h3 : ∀ item ∈ third, item.Follows) (hne : second ≠ [])
    (hl : first.length + second.length + third.length ≤ 2 ^ 10) :
    ∃ data, handshake (opening names configured done first second third capacity) =
      (⟨seat (answered names selected) .client [] data,
        seat (replied configured selected) .server [] data, [], [], capacity⟩, .ok ()) := by
  have hm : ∀ protocol ∈ selected, protocol ∈ names := by
    intro protocol hp
    exact List.mem_of_find?_eq_some (hs.trans hp)
  have hsel : ∀ protocol ∈ selected, Sendable protocol :=
    fun protocol hp => h.sendable protocol (hm protocol hp)
  rw [handshake, handshakeWithin_hellos h hfit hc hs hsel hne (by omega), greeted,
    handshakeWithin_flights hc hsel hm (not_earlier_wireHello h) h1 h2 hl]
  by_cases hlast : third = []
  · subst hlast
    exact ⟨_, if_pos rfl⟩
  · refine ⟨_, (if_neg hlast).trans (handshakeWithin_last h3 hlast (by omega))⟩

/-- An overlay that edits hellos can be laid over a peer. -/
theorem of_start {config : Config} (resumed : Bool) (hc : config.check = .ok ())
    (hm : config.mode ≠ .native) :
    Overlay.of (Peer.start role resumed) config =
      .ok (seat { protocols := config.protocols } role (turnsOf role resumed) []) := by
  have hs : strategyFor (Peer.start role resumed) config = .ok .overlay := by
    simp only [strategyFor]
    cases hmode : config.mode with
    | native => exact absurd hmode hm
    | overlay => rfl
    | detect => rfl
  simp only [Overlay.of, prepare, hc, hs, reduceCtorEq, false_and, if_false]
  rw [start_eq]
  rfl

/-- Every handshake ends with the first protocol of the client's list that the server has, or with
none, and with the same transcript on both sides. It ends by itself: neither side runs out of calls,
and the exchanges are enough. -/
theorem handshake_negotiates (cc sc : Config) (resumed : Bool) (capacity : Nat)
    (hcc : cc.check = .ok ()) (hsc : sc.check = .ok ()) (hcm : cc.mode ≠ .native)
    (hsm : sc.mode ≠ .native) (hfit : 120 + Config.listSize cc.protocols ≤ 2 ^ 14)
    (hcap : 119 ≤ capacity) :
    ∃ client server after,
      Overlay.of (Peer.start .client resumed) cc = .ok client ∧
      Overlay.of (Peer.start .server resumed) sc = .ok server ∧
      handshake { client, server, capacity } = (after, .ok ()) ∧
      after.client.protocol = .ok (cc.protocols.find? (· ∈ sc.protocols)) ∧
      after.server.protocol = .ok (cc.protocols.find? (· ∈ sc.protocols)) ∧
      after.client.engine.hash.data = after.server.engine.hash.data := by
  have hnamed : Named cc.protocols := ⟨(checkList_eq_ok_iff.1 hcc).1, by omega⟩
  have hrun : ∃ data, handshake
      { client := seat { protocols := cc.protocols } .client (turnsOf .client resumed) []
        server := seat { protocols := sc.protocols } .server (turnsOf .server resumed) []
        capacity } =
      (⟨seat (answered cc.protocols (cc.protocols.find? (· ∈ sc.protocols))) .client [] data,
        seat (replied sc.protocols (cc.protocols.find? (· ∈ sc.protocols))) .server [] data, [], [],
        capacity⟩, .ok ()) := by
    cases resumed with
    | false =>
      exact @handshake_opening capacity cc.protocols sc.protocols _ true []
        [.clientKeyExchange, .changeCipherSpec, .finished] [.changeCipherSpec, .finished] hnamed
        hfit hcap rfl (by decide) (by decide) (by decide) (by decide) (by decide)
    | true =>
      exact @handshake_opening capacity cc.protocols sc.protocols _ false
        [.changeCipherSpec, .finished] [.changeCipherSpec, .finished] [] hnamed hfit hcap rfl
        (by decide) (by decide) (by decide) (by decide) (by decide)
  obtain ⟨data, hrun⟩ := hrun
  exact ⟨_, _, _, of_start resumed hcc hcm, of_start resumed hsc hsm, hrun, rfl, rfl, rfl⟩

/-- A server that speaks only HTTP/1.1 gets it from a client that would rather have HTTP/2. -/
theorem handshake_negotiates_second :
    ∃ client server after,
      Overlay.of (Peer.start .client false) Config.web = .ok client ∧
      Overlay.of (Peer.start .server false) { protocols := [ProtocolId.http11] } = .ok server ∧
      handshake { client, server, capacity := 119 } = (after, .ok ()) ∧
      after.client.protocol = .ok (some ProtocolId.http11) ∧
      after.server.protocol = .ok (some ProtocolId.http11) ∧
      after.client.engine.hash.data = after.server.engine.hash.data :=
  handshake_negotiates Config.web { protocols := [ProtocolId.http11] } false 119 rfl rfl
    (by decide) (by decide) (by decide) (Nat.le_refl _)

end AlpnOverlay.Connection
