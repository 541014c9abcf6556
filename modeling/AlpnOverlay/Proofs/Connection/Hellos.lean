import AlpnOverlay.Proofs.Connection.Flights
import AlpnOverlay.Proofs.Peer.Hellos

/-!
The exchange of the two hellos through both overlays: what each side sends, what the other one
makes of it, and that both have hashed the hellos as they crossed the wire.
-/
namespace AlpnOverlay.Connection

open Overlay Peer Wire Config

variable {capacity : Nat} {role : Role} {turns : List Turn} {names configured : List String}
  {selected : Option String} {data inbound outbound front rest : Bytes} {done : Bool}
  {tail : List Record}

/-- A client that has said hello. -/
def asked (names : List String) : Session :=
  { protocols := names, started := true, ownHelloSent := !names.isEmpty }

/-- A client that has been answered. -/
def answered (names : List String) (selected : Option String) : Session :=
  { asked names with peerHelloSeen := !names.isEmpty, selected }

/-- A server that has read the client's hello. -/
def addressed (configured : List String) (selected : Option String) : Session :=
  { protocols := configured, started := true, peerHelloSeen := true, selected }

/-- A server that has answered. -/
def replied (configured : List String) (selected : Option String) : Session :=
  { protocols := configured, started := true, peerHelloSeen := true, ownHelloSent := true, selected }

theorem settled_answered (names : List String) (selected : Option String) :
    Settled (seat (answered names selected) .client turns data) := by
  refine ⟨⟨rfl, rfl, rfl⟩, rfl, ?_⟩
  cases names with
  | nil => exact .inr ⟨rfl, rfl⟩
  | cons name names => exact .inl ⟨rfl, rfl⟩

theorem settled_replied (configured : List String) (selected : Option String) :
    Settled (seat (replied configured selected) .server turns data) :=
  ⟨⟨rfl, rfl, rfl⟩, rfl, .inl ⟨rfl, rfl⟩⟩

theorem le_maxPayload {payload : Bytes} (h : payload.length ≤ maxPlaintext) :
    payload.length ≤ maxPayload :=
  Nat.le_trans h (by decide)

/-- A handshake record of at most the plaintext length. -/
def helloRecord (payload : Bytes) (h : payload.length ≤ maxPlaintext) : Record :=
  ⟨.handshake, .tls12, payload, le_maxPayload h⟩

theorem length_helloRecord_le {payload : Bytes} (h : payload.length ≤ maxPlaintext) :
    (helloRecord payload h).encode.length ≤ 2 ^ 15 := by
  rw [Record.length_encode, Record.size]
  simp only [helloRecord, headerLength, maxPlaintext] at h ⊢
  omega

/-- One hello for another in the same record. -/
def exchange (old new : Record) (tail : List Record) (inner outer : Bytes) : Flight.Edit :=
  ⟨old, [new], tail, inner, outer⟩

theorem replaces_exchange {old new inner outer xs ys : Bytes} (hx : xs.length ≤ maxPlaintext)
    (hy : ys.length ≤ maxPlaintext) (ho : xs = old ++ rest) (hn : ys = new ++ rest) :
    (exchange (helloRecord xs hx) (helloRecord ys hy) tail inner outer).Replaces
      (Record.encodeAll (helloRecord xs hx :: tail)) old new rest := by
  subst hn
  exact ⟨rfl, rfl, ho, (Record.carrying_of_le hy).symm⟩

/-- The transcript of a peer is put right for a hello that does not occur in it earlier. -/
theorem corrects_partway {edit : Flight.Edit} (hl : edit.Lengthens)
    (hne : ¬ Earlier edit.inner front) :
    Corrects (partway role turns (front ++ edit.inner ++ rest)) edit
      (partway role turns (front ++ edit.outer ++ rest)) := by
  have hreplace : edit.substitution.replace? (front ++ edit.inner ++ rest) =
      some (front ++ edit.outer ++ rest) := hl.replace?_eq_some_iff.2 hne
  refine ⟨_, rfl, ?_⟩
  simp only [Transcript.resynchronize, hl.isNoop, Bool.false_eq_true, if_false]
  rw [show (RunningHash.transcript.within hash fun p hash => { p with hash }).captured
    (partway role turns (front ++ edit.inner ++ rest)) = front ++ edit.inner ++ rest from rfl,
    hreplace]
  rfl

theorem length_asked (h : 120 + listSize names ≤ maxPlaintext) :
    (wireHello .client names).encode.length ≤ maxPlaintext := by
  have hle := length_wireHello_le .client names
  have h114 : (helloOf .client).encode.length = 114 := by decide
  omega

/-- The client says hello with its offer, if it makes one. -/
theorem reaches_asked (h : Named names) (hfit : 120 + listSize names ≤ maxPlaintext)
    (hc : 119 ≤ capacity) :
    ∃ n, 0 < n ∧ n ≤ 2 ^ 15 ∧ Reaches capacity n
      ⟨seat { protocols := names } .client (.send .clientHello :: turns) [], inbound, outbound⟩
      ⟨seat (asked names) .client turns (wireHello .client names).encode, inbound,
        outbound ++ (helloRecord _ (length_asked hfit)).encode⟩ := by
  by_cases hne : names = []
  · subst hne
    exact ⟨1, Nat.one_pos, by decide, .single (moves_passed ⟨rfl, rfl, rfl⟩ hc rfl)⟩
  · have hempty : names.isEmpty = false := List.isEmpty_eq_false_iff.2 hne
    have hplain : (helloOf .client).encode.length ≤ maxPlaintext := by decide
    have hx := extends_wireHello .client h hne
    let edit := exchange (helloRecord (helloOf .client).encode hplain)
      (helloRecord (wireHello .client names).encode (length_asked hfit)) []
      (helloOf .client).encode (wireHello .client names).encode
    have hoffer : Flight.addOffer (Record.encodeAll [helloRecord (helloOf .client).encode hplain])
        (names.map utf8) = .ok (some edit) :=
      Flight.addOffer_eq_some_iff.2 ⟨_, _, _, [], hx, rfl, rfl, rfl,
        replaces_exchange _ _ (List.append_nil _).symm (List.append_nil _).symm⟩
    have hedit : (seat { protocols := names } .client (.send .clientHello :: turns) []).outboundEdit
        (sentRecord .client [] .clientHello).encode = .ok (some edit) := by
      rw [Record.encodeAll_singleton] at hoffer
      rw [← hoffer]
      exact if_neg (by simp [seat, hempty])
    have hearly : ¬ Earlier edit.inner [] := fun ⟨_, _, _, hl⟩ => absurd hl (Nat.not_lt_zero _)
    have hcorrect := @corrects_partway .client turns [] [] edit (hx.lengthens rfl rfl) hearly
    rw [List.append_nil, List.append_nil, List.nil_append, List.nil_append] at hcorrect
    have hstream : edit.stream = (helloRecord _ (length_asked hfit)).encode :=
      Record.encodeAll_singleton _
    obtain ⟨n, h0, hn, hr⟩ := reaches_exchanged inbound outbound
      ⟨rfl, rfl, rfl⟩ hc hedit hcorrect (by rw [hstream]; exact Record.encode_ne_nil _)
    rw [hstream] at hn hr
    have hasked : asked names = { protocols := names, started := true, ownHelloSent := true } := by
      simp only [asked, hempty, Bool.not_false]
    rw [hasked]
    exact ⟨n, h0, Nat.le_trans hn (length_helloRecord_le _), hr⟩

theorem offer?_wireHello {payload : Bytes} (h : Named names) (hl : payload.length ≤ maxPlaintext)
    (hp : payload = (wireHello .client names).encode) :
    Flight.offer? ((helloRecord payload hl).encode ++ inbound) =
      .ok (if names = [] then none else some (names.map utf8)) := by
  subst hp
  rw [Flight.offer?_encode (wellFormed_wireHello .client h) (sender_wireHello ..) rfl
    (List.append_nil _).symm, find?_wireHello]
  by_cases hne : names = []
  · rw [if_pos hne, if_pos hne]
  · rw [if_neg hne, if_neg hne]
    have hd := ProtocolList.decode_eq_ok_iff.2 (encode_listing h hne)
    simp only [hd, Except.map]

/-- The server reads the offer and chooses from it. -/
theorem moves_addressed (h : Named names) (hfit : 120 + listSize names ≤ maxPlaintext) :
    Moves capacity
      ⟨seat { protocols := configured } .server (.receive .clientHello :: turns) [],
        (helloRecord _ (length_asked hfit)).encode ++ inbound, outbound⟩
      ⟨seat (addressed configured (names.find? (· ∈ configured))) .server turns
        (wireHello .client names).encode, inbound, outbound⟩ := by
  have hready : Ready
      (seat { protocols := configured } .server (.receive .clientHello :: turns) []) :=
    ⟨rfl, rfl, rfl⟩
  have hpeer : Engine.unwrap
      (seat { protocols := configured } .server (.receive .clientHello :: turns) []).engine
      ((helloRecord _ (length_asked hfit)).encode ++ inbound) [] = _ :=
    unwrap_receive (check_clientHello h rfl rfl)
  have hu : (seat { protocols := configured } .server
      (.receive .clientHello :: turns) []).unwrap
      ((helloRecord _ (length_asked hfit)).encode ++ inbound) [] = _ :=
    unwrap_offered hready rfl rfl rfl (offer?_wireHello h _ rfl)
  have hchoice : ((if names = [] then none else some (names.map utf8)).bind fun offered =>
      Flight.choose offered configured) = names.find? (· ∈ configured) := by
    by_cases hne : names = []
    · subst hne
      rfl
    · rw [if_neg hne, Option.bind_some, Flight.choose_utf8]
  rw [hpeer] at hu
  have hne : (helloRecord _ (length_asked hfit)).encode ++ inbound ≠ [] :=
    List.append_ne_nil_of_left_ne_nil (Record.encode_ne_nil _) _
  have hm := moves_of_unwrap capacity outbound (phase_of_ready hready) hne hu (size_ne _)
  have hdrop : ((helloRecord _ (length_asked hfit)).encode ++ inbound).drop
      (helloRecord _ (length_asked hfit)).size = inbound := by
    rw [← Record.length_encode, List.drop_left]
  simp only [hdrop] at hm
  rw [← hchoice]
  exact hm

theorem size_selected (h : ∀ protocol ∈ selected, Sendable protocol) :
    listSize selected.toList ≤ 256 := by
  cases selected with
  | none => exact Nat.zero_le _
  | some protocol =>
    have hp := (h protocol rfl).fits.2
    rw [length_utf8] at hp
    simp only [listSize, Option.toList_some]
    omega

theorem named_selected (h : ∀ protocol ∈ selected, Sendable protocol) : Named selected.toList := by
  refine ⟨?_, Nat.le_trans (size_selected h) (by decide)⟩
  intro protocol hp
  exact h protocol (Option.mem_toList.1 hp)

/-- What the server's first record carries. -/
def reply (selected : Option String) (done : Bool) : Bytes :=
  (wireHello .server selected.toList).encode ++ trailer done

theorem length_reply (h : ∀ protocol ∈ selected, Sendable protocol) (done : Bool) :
    (reply selected done).length ≤ maxPlaintext := by
  have hle := length_wireHello_le .server selected.toList
  have h81 : (helloOf .server).encode.length = 81 := by decide
  have hs := size_selected h
  have ht : (trailer done).length ≤ 4 := by cases done <;> decide
  simp only [reply, List.length_append, maxPlaintext]
  omega

/-- The server answers with its choice, if it made one. -/
theorem reaches_replied (h : ∀ protocol ∈ selected, Sendable protocol) (hc : 119 ≤ capacity)
    (hearly : ¬ Earlier (helloOf .server).encode data) :
    ∃ n, 0 < n ∧ n ≤ 2 ^ 15 ∧ Reaches capacity n
      ⟨seat (addressed configured selected) .server (.send (.serverHello done) :: turns) data,
        inbound, outbound⟩
      ⟨seat (replied configured selected) .server turns (data ++ reply selected done), inbound,
        outbound ++ (helloRecord _ (length_reply h done)).encode⟩ := by
  cases selected with
  | none =>
    exact ⟨1, Nat.one_pos, by decide, .single (moves_passed ⟨rfl, rfl, rfl⟩ hc rfl)⟩
  | some protocol =>
    have hplain : (reply none done).length ≤ maxPlaintext := length_reply (by simp) done
    have hx := extends_wireHello .server (named_selected h) (List.cons_ne_nil protocol [])
    let edit := exchange (helloRecord (reply none done) hplain)
      (helloRecord (reply (some protocol) done) (length_reply h done)) []
      (helloOf .server).encode (wireHello .server [protocol]).encode
    have hselect : Flight.addSelection (Record.encodeAll [helloRecord (reply none done) hplain])
        (utf8 protocol) = .ok (some edit) :=
      Flight.addSelection_eq_some_iff.2 ⟨_, _, _, trailer done, hx, rfl, rfl, rfl,
        replaces_exchange _ _ rfl rfl⟩
    have hedit : (seat (addressed configured (some protocol)) .server
        (.send (.serverHello done) :: turns) data).outboundEdit
        (sentRecord .server data (.serverHello done)).encode = .ok (some edit) := by
      rw [Record.encodeAll_singleton] at hselect
      exact hselect
    have hcorrect := @corrects_partway .server turns data (trailer done) edit
      (hx.lengthens rfl rfl) hearly
    have hstream : edit.stream = (helloRecord _ (length_reply h done)).encode :=
      Record.encodeAll_singleton _
    rw [List.append_assoc, List.append_assoc] at hcorrect
    obtain ⟨n, h0, hn, hr⟩ := reaches_exchanged inbound outbound
      ⟨rfl, rfl, rfl⟩ hc hedit hcorrect (by rw [hstream]; exact Record.encode_ne_nil _)
    rw [hstream] at hn hr
    exact ⟨n, h0, Nat.le_trans hn (length_helloRecord_le _), hr⟩

section Answer

variable {session : Session}

theorem length_plain (done : Bool) : (reply none done).length ≤ maxPlaintext :=
  length_reply (by simp) done

/-- What the client's engine does with a hello that selects nothing. -/
theorem engine_unwrap :
    Engine.unwrap (seat session .client (.receive (.serverHello done) :: turns) data).engine
        ((helloRecord _ (length_plain done)).encode ++ rest) [] =
      ⟨partway .client turns (data ++ reply none done), [],
        .ok ⟨.ok, (partway .client turns []).nextPhase, (helloRecord _ (length_plain done)).size,
          0⟩⟩ :=
  unwrap_receive (check_serverHello rfl rfl)

theorem takeSelection_reply (h : ∀ protocol ∈ selected, Sendable protocol) (tail : List Record) :
    Flight.takeSelection (Record.encodeAll (helloRecord _ (length_reply h done) :: tail)) =
      .ok (selected.map fun protocol =>
        (exchange (helloRecord _ (length_reply h done)) (helloRecord _ (length_plain done)) tail
          (helloOf .server).encode (wireHello .server [protocol]).encode, utf8 protocol)) := by
  cases selected with
  | none =>
    exact Flight.takeSelection_of_without (wellFormed_helloOf .server) rfl (find?_helloOf .server)
      rfl rfl rfl
  | some protocol =>
    have hname := named_selected h
    have hne : [protocol] ≠ [] := List.cons_ne_nil protocol []
    have hw := wellFormed_wireHello .server hname
    have hfind := find?_wireHello .server [protocol]
    rw [if_neg hne] at hfind
    have hdecode : ProtocolList.decode (listing [protocol]) = .ok [utf8 protocol] :=
      ProtocolList.decode_eq_ok_iff.2 (encode_listing hname hne)
    have hremove := remove_wireHello .server [protocol] hne
    refine Flight.takeSelection_eq_some_iff.2 ⟨wireHello .server [protocol], _, trailer done, hw,
      sender_wireHello .., hfind, hdecode, ?_, rfl, ?_⟩
    · rw [hremove]
      rfl
    · rw [hremove]
      exact replaces_exchange _ _ rfl rfl

theorem configured?_asked {protocol : String} (hm : protocol ∈ names) :
    (asked names).configured? (utf8 protocol) = some protocol := by
  have hf := Flight.find?_utf8 names protocol
  rw [if_pos hm] at hf
  exact hf

theorem ready_asked (turns : List Turn) (data : Bytes) :
    Ready (seat (asked names) .client turns data) := ⟨rfl, rfl, rfl⟩

/-- The client's engine gets the answer without the choice, and the transcript gets it whole. -/
theorem unwrap_chosen {protocol : String} (h : ∀ p ∈ some protocol, Sendable p)
    (hm : protocol ∈ names) (hearly : ¬ Earlier (helloOf .server).encode data) :
    (seat (asked names) .client (.receive (.serverHello done) :: turns) data).unwrap
        (Record.encodeAll (helloRecord _ (length_reply h done) :: tail)) [] =
      ⟨seat (answered names (some protocol)) .client turns (data ++ reply (some protocol) done), [],
        .ok ⟨.ok, (partway .client turns []).nextPhase,
          (helloRecord _ (length_reply h done)).size, 0⟩⟩ := by
  have hempty : names.isEmpty = false := List.isEmpty_eq_false_iff.2 (List.ne_nil_of_mem hm)
  let edit := exchange (helloRecord _ (length_reply h done)) (helloRecord _ (length_plain done))
    tail (helloOf .server).encode (wireHello .server [protocol]).encode
  have hs : Strips (seat (asked names) .client (.receive (.serverHello done) :: turns) data)
      (Record.encodeAll (helloRecord _ (length_reply h done) :: tail)) edit (utf8 protocol)
      protocol :=
    ⟨rfl, rfl, by simp [seat, asked, hempty], takeSelection_reply h tail, configured?_asked hm⟩
  have hl : edit.Lengthens := (Flight.inbound_of_takeSelection hs.taken).1
  have hpeer : Engine.unwrap
      (seat (asked names) .client (.receive (.serverHello done) :: turns) data).engine
      edit.stream [] = _ := engine_unwrap
  have hhead : edit.headLength = (helloRecord _ (length_plain done)).size := by
    rw [← Record.length_encode, ← Record.encodeAll_singleton]
    rfl
  have hcorrect := @corrects_partway .client turns data (trailer done) edit hl hearly
  rw [List.append_assoc, List.append_assoc] at hcorrect
  have hu := unwrap_stripped rfl rfl hs (congrArg Reply.result hpeer) (size_ne _)
    (Nat.le_of_eq hhead) (by rw [hpeer]; exact hcorrect)
  have hsize : (helloRecord _ (length_plain done)).size +
      (edit.carrierLength - edit.headLength) = (helloRecord _ (length_reply h done)).size := by
    have hle : (helloRecord _ (length_plain done)).size ≤
        (helloRecord _ (length_reply h done)).size := by
      have hlt : (helloOf .server).encode.length < (wireHello .server [protocol]).encode.length :=
        hl.shorter
      simp only [Record.size, helloRecord, reply, List.length_append, Option.toList_none,
        Option.toList_some, wireHello_nil]
      omega
    have hcarrier : edit.carrierLength = (helloRecord _ (length_reply h done)).size := rfl
    omega
  rw [hpeer] at hu
  simp only [hsize] at hu
  rw [hu]
  simp only [answered, hempty]
  rfl

theorem unwrap_unchosen :
    (seat (asked names) .client (.receive (.serverHello done) :: turns) data).unwrap
        (Record.encodeAll (helloRecord _ (length_plain done) :: tail)) [] =
      ⟨seat (answered names none) .client turns (data ++ reply none done), [],
        .ok ⟨.ok, (partway .client turns []).nextPhase, (helloRecord _ (length_plain done)).size,
          0⟩⟩ := by
  have hpeer : Engine.unwrap
      (seat (asked names) .client (.receive (.serverHello done) :: turns) data).engine
      (Record.encodeAll (helloRecord _ (length_plain done) :: tail)) [] = _ := engine_unwrap
  by_cases hne : names = []
  · subst hne
    rw [show asked [] = answered [] none from rfl, unwrap_of_settled (settled_answered [] none)]
    rw [show asked [] = answered [] none from rfl] at hpeer
    rw [hpeer]
    rfl
  · have hempty : names.isEmpty = false := List.isEmpty_eq_false_iff.2 hne
    rw [unwrap_noticed (ready_asked _ _) rfl rfl (by simp [seat, asked, hempty]) hne rfl
      (Record.encodeAll_cons ..) (takeSelection_reply (by simp) tail), hpeer]
    simp only [answered, hempty]
    rfl

/-- The client reads the answer; both its engine and the wire agree on it afterwards. -/
theorem moves_answered (h : ∀ protocol ∈ selected, Sendable protocol)
    (hm : ∀ protocol ∈ selected, protocol ∈ names)
    (hearly : ¬ Earlier (helloOf .server).encode data) :
    Moves capacity
      ⟨seat (asked names) .client (.receive (.serverHello done) :: turns) data,
        Record.encodeAll (helloRecord _ (length_reply h done) :: tail), outbound⟩
      ⟨seat (answered names selected) .client turns (data ++ reply selected done),
        Record.encodeAll tail, outbound⟩ := by
  have hu : (seat (asked names) .client (.receive (.serverHello done) :: turns) data).unwrap
      (Record.encodeAll (helloRecord _ (length_reply h done) :: tail)) [] =
      ⟨seat (answered names selected) .client turns (data ++ reply selected done), [],
        .ok ⟨.ok, (partway .client turns []).nextPhase,
          (helloRecord _ (length_reply h done)).size, 0⟩⟩ := by
    cases selected with
    | none => exact unwrap_unchosen
    | some protocol => exact unwrap_chosen h (hm protocol rfl) hearly
  have hne : Record.encodeAll (helloRecord _ (length_reply h done) :: tail) ≠ [] :=
    List.append_ne_nil_of_left_ne_nil (Record.encode_ne_nil _) _
  have hmoves := moves_of_unwrap capacity outbound (phase_of_ready (ready_asked _ _)) hne hu
    (size_ne _)
  have hdrop : (Record.encodeAll (helloRecord _ (length_reply h done) :: tail)).drop
      (helloRecord _ (length_reply h done)).size = Record.encodeAll tail := by
    rw [Record.encodeAll_cons, ← Record.length_encode, List.drop_left]
  simp only [hdrop] at hmoves
  exact hmoves

end Answer

end AlpnOverlay.Connection
