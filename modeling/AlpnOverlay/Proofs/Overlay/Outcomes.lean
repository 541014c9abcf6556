import AlpnOverlay.Proofs.Overlay.Outbound

/-!
What a call amounts to when its step is known. Once both hellos have passed, every call goes
straight to the engine.
-/
namespace AlpnOverlay.Overlay

variable {σ : Type} {o : Overlay σ} {source buffer : Bytes} {sources buffers : List Bytes}

/-- An open overlay that edits hellos and has delivered all it was given. -/
structure Ready (o : Overlay σ) : Prop where
  strategy : o.strategy = .overlay
  isOpen : o.session.closed = false
  slot : o.session.parked.bytes = []

theorem Ready.parked (h : Ready o) : o.session.parked.isEmpty = true :=
  List.isEmpty_iff.2 h.slot

/-- The overlay with `bytes` still to be delivered. -/
def holding (o : Overlay σ) (bytes : Bytes) : Overlay σ := { o with session.parked := ⟨bytes⟩ }

theorem holding_nil (h : o.session.parked.bytes = []) : o.holding [] = o := by
  obtain ⟨_, _, _, _, _, _, ⟨_⟩, _, _⟩ := o
  cases h
  rfl

theorem markStarted_of_started (h : o.session.started = true) : o.markStarted = o := by
  obtain ⟨_, _, _, _, _, _, _, _, _⟩ := o
  cases h
  rfl

variable [Engine σ]

/-- No hello is edited any more. -/
structure Settled (o : Overlay σ) : Prop extends Ready o where
  started : o.session.started = true
  passed : (o.session.peerHelloSeen = true ∧ o.session.ownHelloSent = true) ∨
    (o.role = .client ∧ o.session.protocols = [])

/-- A client with a list that has its hello still to send. -/
structure Unsent (o : Overlay σ) : Prop extends Ready o where
  client : o.role = .client
  unsent : o.session.ownHelloSent = false
  listed : o.session.protocols ≠ []

/-- A server with a list that has the client's hello still to read. -/
structure Unread (o : Overlay σ) : Prop extends Ready o where
  server : o.role = .server
  unseen : o.session.peerHelloSeen = false
  unselected : o.session.selected = none
  listed : o.session.protocols ≠ []

theorem corrects_unique {edit : Flight.Edit} {engine next other : σ}
    (h : Corrects engine edit next) (h' : Corrects engine edit other) : next = other := by
  obtain ⟨t, ht, hs⟩ := h
  obtain ⟨_, ht', hs'⟩ := h'
  cases ht.symm.trans ht'
  cases hs.symm.trans hs'
  rfl

theorem wrap_passed (hr : Ready o)
    (he : o.editOf (Engine.wrap o.engine sources buffer) = .ok none) :
    o.wrap sources buffer = o.pass (Engine.wrap o.engine sources buffer) := by
  have h := wraps_wrap hr.strategy sources buffer
  generalize o.wrap sources buffer = outcome at h ⊢
  cases h with
  | closed hc => exact absurd (hr.isOpen.symm.trans hc) Bool.false_ne_true
  | drained _ hp => exact absurd (hp.symm.trans hr.parked) Bool.false_ne_true
  | passed => rfl
  | refused _ _ hs => cases he.symm.trans hs
  | abandoned _ _ hs => cases he.symm.trans hs
  | edited _ _ _ hs => cases he.symm.trans hs

theorem wrap_refused {e : Wire.Error} (hr : Ready o)
    (he : o.editOf (Engine.wrap o.engine sources buffer) = .error e) :
    o.wrap sources buffer =
      ⟨(o.markStarted.withEngine (Engine.wrap o.engine sources buffer).engine).close,
        (Engine.wrap o.engine sources buffer).buffer, .error (.ofWire e)⟩ := by
  have h := wraps_wrap hr.strategy sources buffer
  generalize o.wrap sources buffer = outcome at h ⊢
  cases h with
  | closed hc => exact absurd (hr.isOpen.symm.trans hc) Bool.false_ne_true
  | drained _ hp => exact absurd (hp.symm.trans hr.parked) Bool.false_ne_true
  | passed _ _ hs => cases he.symm.trans hs
  | refused _ _ hs =>
    cases he.symm.trans hs
    rfl
  | abandoned _ _ hs => cases he.symm.trans hs
  | edited _ _ _ hs => cases he.symm.trans hs

/-- The first output that is not empty is looked through for the hello. -/
theorem Unsent.editOf {reply : Reply σ Bytes Cause} (h : Unsent o) (h0 : reply.output ≠ []) :
    o.editOf reply = Flight.addOffer reply.output (o.session.protocols.map utf8) := by
  obtain ⟨hn, -⟩ := Reply.produced_of_output h0
  have hg : (o.session.ownHelloSent || o.session.protocols.isEmpty) = false := by
    simp [h.unsent, h.listed]
  simp only [Overlay.editOf, if_neg hn, outboundEdit, h.client, hg, Bool.false_eq_true, if_false]

theorem wrap_edited {edit : Flight.Edit} {progress : Progress} {engine : σ} (hr : Ready o)
    (hp : (Engine.wrap o.engine sources buffer).result = .ok progress)
    (he : o.editOf (Engine.wrap o.engine sources buffer) = .ok (some edit))
    (hx : Corrects (Engine.wrap o.engine sources buffer).engine edit engine) :
    o.wrap sources buffer =
      (o.markStarted.markSent.withEngine engine).deliver edit.stream
        (Engine.wrap o.engine sources buffer).buffer progress := by
  have h := wraps_wrap hr.strategy sources buffer
  generalize o.wrap sources buffer = outcome at h ⊢
  cases h with
  | closed hc => exact absurd (hr.isOpen.symm.trans hc) Bool.false_ne_true
  | drained _ hs => exact absurd (hs.symm.trans hr.parked) Bool.false_ne_true
  | passed _ _ hn => cases he.symm.trans hn
  | refused _ _ hn => cases he.symm.trans hn
  | abandoned _ _ hs hf =>
    cases he.symm.trans hs
    exact absurd hx hf.not_corrects
  | edited _ _ hp' he' hx' =>
    cases hp.symm.trans hp'
    cases he.symm.trans he'
    rw [corrects_unique hx hx']

theorem wrap_holding {bytes : Bytes} (sources : List Bytes) (buffer : Bytes)
    (hc : o.session.closed = false) (hs : o.session.started = true) (hb : bytes ≠ [])
    (h0 : 0 < buffer.length) :
    (o.holding bytes).wrap sources buffer =
      ⟨o.holding (bytes.drop (min bytes.length buffer.length)),
        bytes.take (min bytes.length buffer.length) ++
          buffer.drop (min bytes.length buffer.length),
        .ok ⟨.ok, (o.holding (bytes.drop (min bytes.length buffer.length))).phase, 0,
          min bytes.length buffer.length⟩⟩ := by
  have hm : (o.holding bytes).markStarted = o.holding bytes := markStarted_of_started hs
  have hc' : (o.holding bytes).session.closed = false := hc
  have hp : (o.holding bytes).session.parked.isEmpty = false := List.isEmpty_eq_false_iff.2 hb
  have he : buffer.isEmpty = false := List.isEmpty_eq_false_iff.2 (List.length_pos_iff.1 h0)
  rw [wrap, if_neg (by simp [hc']), hm]
  simp only [hp, drain, he, Bool.false_eq_true, if_false]
  rfl

theorem outboundEdit_of_settled (h : Settled o) (data : Bytes) :
    o.outboundEdit data = .ok none := by
  rcases h.passed with ⟨-, hs⟩ | ⟨hr, hp⟩
  · simp only [outboundEdit, hs]
    cases o.role <;> simp
  · simp [outboundEdit, hr, hp]

theorem sentAfter_of_settled (h : Settled o) (n : Nat) :
    o.sentAfter n = o.session.ownHelloSent := by
  rcases h.passed with ⟨-, hs⟩ | ⟨hr, hp⟩
  · simp [sentAfter, hs]
  · simp [sentAfter, hr, hp]

theorem unwrap_of_settled (h : Settled o) :
    o.unwrap source buffers = o.forward (Engine.unwrap o.engine source buffers) := by
  have ho := markStarted_of_started h.started
  simp only [unwrap, h.isOpen, ho, h.strategy, Bool.false_eq_true, if_false]
  rcases h.passed with ⟨hn, -⟩ | ⟨hr, hp⟩
  · cases hr : o.role with
    | client => simp [unwrapClient, hn]
    | server => simp [unwrapServer, hn]
  · simp [unwrapClient, hr, hp]

/-- A server chooses from the first offer that it reads. -/
theorem unwrap_offered {names : Option (List Bytes)} (h : Ready o) (hr : o.role = .server)
    (hn : o.session.peerHelloSeen = false) (hs : o.session.selected = none)
    (ho : Flight.offer? source = .ok names) :
    o.unwrap source buffers =
      forward { o with session := { o.markStarted.markSeen.session with
        selected := names.bind fun names => Flight.choose names o.session.protocols } }
        (Engine.unwrap o.engine source buffers) := by
  have hr' : o.markStarted.role = .server := hr
  have hn' : o.markStarted.session.peerHelloSeen = false := hn
  have hst : o.markStarted.strategy = .overlay := h.strategy
  simp only [unwrap, h.isOpen, hst, hr', unwrapServer, hn', Bool.false_eq_true, if_false]
  split
  · rename_i he
    have he : o.session.protocols = [] := List.isEmpty_iff.1 he
    have hnone : names.bind (fun names => Flight.choose names []) = none := by
      cases names with
      | none => rfl
      | some names => exact Flight.choose_nil names
    simp only [he, hnone, markSeen, markStarted, hs]
  · simp only [ho]
    rw [h.strategy]
    rfl

theorem Unread.unwrap_error {e : Wire.Error} (h : Unread o)
    (ho : Flight.offer? source = .error e) :
    o.unwrap source buffers = o.markStarted.refuse e buffers := by
  have hc : o.session.closed ≠ true := Bool.eq_false_iff.1 h.isOpen
  have hs : o.markStarted.strategy = .overlay := h.strategy
  have hr : o.markStarted.role = .server := h.server
  have hn : o.markStarted.session.peerHelloSeen = false := h.unseen
  have hl : o.markStarted.session.protocols.isEmpty = false := List.isEmpty_eq_false_iff.2 h.listed
  simp only [unwrap, if_neg hc, hs, hr, unwrapServer, hn, hl, ho, Bool.false_eq_true, if_false]

/-- A client that has asked looks at the first flight that it can edit. -/
theorem unwrap_looking {r : Wire.Record} {rest : Bytes} (hst : o.strategy = .overlay)
    (hc : o.session.closed = false) (hr : o.role = .client) (ha : o.Asked)
    (hn : o.session.peerHelloSeen = false) (he : r.isEditable = true)
    (hd : source = r.encode ++ rest) :
    o.unwrap source buffers =
      match Flight.takeSelection source with
      | .error e => o.markStarted.refuse e buffers
      | .ok none => o.markStarted.markSeen.forward (Engine.unwrap o.engine source buffers)
      | .ok (some (edit, name)) =>
        match o.session.configured? name with
        | none => o.markStarted.refuse (.malformed (.unofferedSelection name)) buffers
        | some protocol => o.markStarted.unwrapStripped edit protocol buffers := by
  have hr' : o.markStarted.role = .client := hr
  have hst' : o.markStarted.strategy = .overlay := hst
  have hg : (o.markStarted.session.peerHelloSeen || !o.markStarted.session.ownHelloSent ||
      o.markStarted.session.protocols.isEmpty) = false := by
    simp [markStarted, hn, ha.sent, ha.listed]
  simp only [Wire.Record.isEditable, Bool.and_eq_true, decide_eq_true_eq] at he
  have hhead : source = Wire.ContentType.handshake.code :: r.version.major :: r.version.minor ::
      (BigEndian.encode 2 r.payload.length ++ r.payload ++ rest) := by
    rw [hd, ← he.1]
    rfl
  simp only [unwrap, hc, hst', hr', unwrapClient, hg, Bool.false_eq_true, if_false]
  rw [hhead]
  simp only [he.2]
  rfl

/-- A client takes note of a hello that selects nothing. -/
theorem unwrap_noticed {r : Wire.Record} {rest : Bytes} (h : Ready o) (hr : o.role = .client)
    (hn : o.session.peerHelloSeen = false) (hs : o.session.ownHelloSent = true)
    (hp : o.session.protocols ≠ []) (he : r.isEditable = true) (hd : source = r.encode ++ rest)
    (ht : Flight.takeSelection source = .ok none) :
    o.unwrap source buffers =
      o.markStarted.markSeen.forward (Engine.unwrap o.engine source buffers) := by
  rw [unwrap_looking h.strategy h.isOpen hr ⟨hs, hp⟩ hn he hd, ht]

/-- A client looks at nothing before its own hello and behind the peer's. -/
theorem unwrap_unlooked (hst : o.strategy = .overlay) (hc : o.session.closed = false)
    (hr : o.role = .client)
    (hn : o.session.ownHelloSent = false ∨ o.session.peerHelloSeen = true) :
    o.unwrap source buffers = o.markStarted.forward (Engine.unwrap o.engine source buffers) := by
  have hr' : o.markStarted.role = .client := hr
  have hst' : o.markStarted.strategy = .overlay := hst
  have hg : (o.markStarted.session.peerHelloSeen || !o.markStarted.session.ownHelloSent ||
      o.markStarted.session.protocols.isEmpty) = true := by
    rcases hn with hn | hn
    · simp [markStarted, hn]
    · simp [markStarted, hn]
  simp only [unwrap, hc, hst', hr', unwrapClient, hg, Bool.false_eq_true, if_false, if_true]
  rfl

/-- A client that has seen the peer's hello looks no further. -/
theorem unwrap_seen (hst : o.strategy = .overlay) (hc : o.session.closed = false)
    (hr : o.role = .client) (hn : o.session.peerHelloSeen = true) :
    o.unwrap source buffers = o.markStarted.forward (Engine.unwrap o.engine source buffers) :=
  unwrap_unlooked hst hc hr (.inr hn)

/-- A client takes the selection out of the hello in front of the engine. -/
theorem unwrap_stripped {edit : Flight.Edit} {name : Bytes} {protocol : String}
    {progress : Progress} {engine : σ} (ho : o.strategy = .overlay)
    (hc : o.session.closed = false) (hs : Strips o source edit name protocol)
    (hu : (Engine.unwrap o.engine edit.stream buffers).result = .ok progress)
    (h0 : progress.consumed ≠ 0) (hl : edit.headLength ≤ progress.consumed)
    (hx : Corrects (Engine.unwrap o.engine edit.stream buffers).engine edit engine) :
    o.unwrap source buffers =
      ⟨{ o with
          engine
          session := { o.markStarted.markSeen.session with selected := some protocol } },
        (Engine.unwrap o.engine edit.stream buffers).buffer,
        .ok { progress with
          consumed := progress.consumed + (edit.carrierLength - edit.headLength) }⟩ := by
  have h' := unwraps_unwrap ho source buffers
  generalize o.unwrap source buffers = outcome at h' ⊢
  cases h' with
  | closed hc' => exact absurd (hc.symm.trans hc') Bool.false_ne_true
  | waited _ hk => exact absurd hs (hk _ _ _)
  | refused _ hk => exact absurd hs (hk _ _ _)
  | passed _ hk => exact absurd hs (hk _ _ _)
  | idle _ hs' h0' =>
    obtain ⟨rfl, -, -⟩ := hs.unique hs'
    rw [Reply.consumed, hu] at h0'
    exact absurd h0' h0
  | cut _ hs' hu' _ hl' =>
    obtain ⟨rfl, -, -⟩ := hs.unique hs'
    cases hu.symm.trans hu'
    omega
  | abandoned _ hs' _ _ _ hf =>
    obtain ⟨rfl, -, -⟩ := hs.unique hs'
    exact absurd hx hf.not_corrects
  | stripped _ hs' hu' _ _ hx' =>
    obtain ⟨rfl, -, rfl⟩ := hs.unique hs'
    cases hu.symm.trans hu'
    rw [corrects_unique hx hx']

end AlpnOverlay.Overlay
