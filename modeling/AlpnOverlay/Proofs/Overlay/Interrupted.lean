import AlpnOverlay.Proofs.Overlay.Gate
import AlpnOverlay.Proofs.Wire.Splitting

/-!
Input that does not get through. An overlay that waits for the peer's hello keeps no trace of a
flight that is not all there, nor of one that its engine does not take.
-/
namespace AlpnOverlay

open Wire

variable {source : Bytes} {first : Record} {tail : List Record} {e : Wire.Error}

namespace Wire.Record

/-- A stream that stops inside a record asks for more. -/
theorem split_interrupted {rs : List Record} (hp : source <+: encodeAll rs)
    (hi : ∀ whole, whole <+: rs → source ≠ encodeAll whole) :
    ∃ needed available, split source = .error (.underflow needed available) := by
  obtain ⟨more, hmore⟩ := hp
  obtain ⟨-, hrejects, hunfragmented⟩ := incremental_split source
  have hall : split (source ++ more) = .ok rs := by
    rw [hmore]
    exact split_encodeAll rs
  cases h : split source with
  | ok whole =>
    rw [split_append h] at hall
    split at hall
    · cases hall
    · cases hall
      exact absurd (eq_encodeAll_of_split h) (hi whole (List.prefix_append _ _))
  | error e =>
    cases e with
    | underflow needed available => exact ⟨needed, available, rfl⟩
    | malformed fault => cases (hrejects fault h more).symm.trans hall
    | fragmented => exact absurd h hunfragmented

/-- So does one that stops inside its first record, even if only that one is read. -/
theorem first_interrupted (hp : source <+: encodeAll (first :: tail))
    (hl : source.length < first.size) :
    ∃ needed available, Record.first source = .error (.underflow needed available) := by
  obtain ⟨more, hmore⟩ := hp
  obtain ⟨-, hrejects, hunfragmented⟩ := incremental_first source
  have hall : Record.first (source ++ more) = .ok (first, encodeAll tail) :=
    first_eq_ok_iff.2 (hmore.trans (encodeAll_cons first tail))
  cases h : Record.first source with
  | ok parts =>
    obtain ⟨r, rest⟩ := parts
    obtain ⟨rfl, -⟩ := Prod.mk.inj (Except.ok.inj ((first_append h more).symm.trans hall))
    have hlength := first_length h
    omega
  | error e =>
    cases e with
    | underflow needed available => exact ⟨needed, available, rfl⟩
    | malformed fault => cases (hrejects fault h more).symm.trans hall
    | fragmented => exact absurd h hunfragmented

theorem type_of_prefix {type : UInt8} {more : Bytes}
    (hp : type :: more <+: encodeAll (first :: tail)) : type = first.type.code := by
  rw [encodeAll_cons] at hp
  exact (List.cons_prefix_cons.1 hp).1

theorem version_of_prefix {type major minor : UInt8} {more : Bytes}
    (hp : type :: major :: minor :: more <+: encodeAll (first :: tail)) :
    (⟨major, minor⟩ : Version) = first.version := by
  rw [encodeAll_cons] at hp
  obtain ⟨-, hp⟩ := List.cons_prefix_cons.1 hp
  obtain ⟨hmajor, hp⟩ := List.cons_prefix_cons.1 hp
  obtain ⟨hminor, -⟩ := List.cons_prefix_cons.1 hp
  rw [hmajor, hminor]
  rfl

/-- The beginning of a flight that stops inside a record: for a server, inside the first one, which
is all that it reads. -/
inductive Interrupted (first : Record) (tail : List Record) (source : Bytes) : Role → Prop where
  | client (hp : source <+: encodeAll (first :: tail))
      (hi : ∀ whole, whole <+: first :: tail → whole ≠ [] → source ≠ encodeAll whole) :
      Interrupted first tail source .client
  | server (hp : source <+: encodeAll (first :: tail)) (hi : source.length < first.size) :
      Interrupted first tail source .server

end Wire.Record

namespace Flight

theorem takeSelection_of_split_error (h : Record.split source = .error e) :
    takeSelection source = .error e := by
  simp only [takeSelection, serverFlight?, h, bind, Except.bind]

theorem offer?_interrupted (he : first.isEditable = true)
    (hp : source <+: Record.encodeAll (first :: tail)) (hl : source.length < first.size) :
    ∃ needed available, offer? source = .error (.underflow needed available) := by
  rcases Nat.lt_or_ge source.length headerLength with hshort | hlong
  · exact ⟨_, _, offer?_short hshort⟩
  · obtain ⟨needed, available, hfirst⟩ := Record.first_interrupted hp hl
    refine ⟨needed, available, offer?_of_first_error hlong ?_ hfirst⟩
    cases source with
    | nil => cases hlong
    | cons b rest => rw [List.head?_cons, Record.type_of_prefix hp, type_of_isEditable he]

end Flight

namespace Overlay

section Waiting

variable {σ : Type} [Engine σ] {o : Overlay σ} {buffers : List Bytes}

/-- An overlay that edits hellos and waits for the peer's. -/
structure Awaits (o : Overlay σ) : Prop where
  strategy : o.strategy = .overlay
  isOpen : o.isClosed = false
  listed : o.session.protocols ≠ []
  unseen : o.session.peerHelloSeen = false
  sent : o.role = .client → o.session.ownHelloSent = true

theorem Awaits.markStarted (h : Awaits o) : Awaits o.markStarted :=
  ⟨h.strategy, h.isOpen, h.listed, h.unseen, h.sent⟩

theorem Awaits.looks (h : Awaits o) (hr : o.role = .client) : Looks o :=
  ⟨h.strategy, hr, h.isOpen, ⟨h.sent hr, h.listed⟩, h.unseen⟩

theorem refuse_underflow {needed available : Nat} :
    o.refuse (.underflow needed available) buffers = ⟨o, buffers, .ok .underflow⟩ := rfl

theorem unwrapClient_interrupted (h : Looks o) (he : first.isEditable = true)
    (hp : source <+: Record.encodeAll (first :: tail))
    (hi : ∀ whole, whole <+: first :: tail → whole ≠ [] → source ≠ Record.encodeAll whole)
    (buffers : List Bytes) :
    o.unwrapClient source buffers = ⟨o, buffers, .ok .underflow⟩ := by
  have hg : (o.session.peerHelloSeen || !o.session.ownHelloSent ||
      o.session.protocols.isEmpty) = false := by
    simp [h.unseen, h.asked.sent, h.asked.listed]
  simp only [unwrapClient, hg, Bool.false_eq_true, if_false]
  split
  · rename_i type major minor more
    -- Three bytes are enough to see that the flight is one to be edited.
    have htype : type = ContentType.handshake.code := by
      rw [Record.type_of_prefix hp, Flight.type_of_isEditable he]
    have hversion : Version.isEditable ⟨major, minor⟩ = true := by
      rw [Record.version_of_prefix hp]
      exact (Bool.and_eq_true_iff.1 he).2
    have hsplit : ∃ needed available, Record.split (type :: major :: minor :: more) =
        .error (.underflow needed available) := by
      apply Record.split_interrupted hp
      intro whole hw
      by_cases hnil : whole = []
      · rw [hnil]
        exact List.cons_ne_nil _ _
      · exact hi whole hw hnil
    obtain ⟨needed, available, hs⟩ := hsplit
    rw [Flight.takeSelection_of_split_error hs, htype, hversion]
    rfl
  · rfl

theorem unwrapServer_interrupted (h : Awaits o) (he : first.isEditable = true)
    (hp : source <+: Record.encodeAll (first :: tail)) (hi : source.length < first.size)
    (buffers : List Bytes) :
    o.unwrapServer source buffers = ⟨o, buffers, .ok .underflow⟩ := by
  obtain ⟨needed, available, ho⟩ := Flight.offer?_interrupted he hp hi
  have hl : o.session.protocols.isEmpty = false := List.isEmpty_eq_false_iff.2 h.listed
  simp only [unwrapServer, h.unseen, hl, ho, refuse_underflow, Bool.false_eq_true, if_false]

/-- Interrupted input is asked for again, and nothing is kept of it. -/
theorem unwrap_interrupted (h : Awaits o) (he : first.isEditable = true)
    (hi : Record.Interrupted first tail source o.role) (buffers : List Bytes) :
    o.unwrap source buffers = ⟨o.markStarted, buffers, .ok .underflow⟩ := by
  have hm := h.markStarted
  have hc : ¬ o.session.closed = true := Bool.eq_false_iff.1 h.isOpen
  have hs : o.markStarted.strategy = .overlay := h.strategy
  have hrole : o.markStarted.role = o.role := rfl
  simp only [unwrap, if_neg hc, hs, hrole]
  generalize hr : o.role = role at hi
  cases hi with
  | client hp hi => exact unwrapClient_interrupted (hm.looks hr) he hp hi buffers
  | server hp hi => exact unwrapServer_interrupted hm he hp hi buffers

theorem unwrap_markStarted (h : Awaits o) (source : Bytes) (buffers : List Bytes) :
    o.markStarted.unwrap source buffers = o.unwrap source buffers := by
  have hc : ¬ o.session.closed = true := Bool.eq_false_iff.1 h.isOpen
  have hc' : ¬ o.markStarted.session.closed = true := hc
  rw [unwrap, unwrap, if_neg hc, if_neg hc']
  rfl

/-- The calls that give an overlay its input in pieces, each with buffers of its own. -/
def feeding (pieces : List (Bytes × List Bytes)) : List Call :=
  pieces.map fun piece => .unwrap piece.1 piece.2

/-- However often input is interrupted, at most the start is on record. -/
theorem after_interrupted (h : Awaits o) (he : first.isEditable = true)
    {pieces : List (Bytes × List Bytes)}
    (hi : ∀ piece ∈ pieces, Record.Interrupted first tail piece.1 o.role) :
    o.after (feeding pieces) = o ∨ o.after (feeding pieces) = o.markStarted := by
  induction pieces using List.reverseRecOn with
  | nil => exact .inl rfl
  | append_singleton pieces piece ih =>
    have hlast := hi piece (by simp)
    have hbefore := ih fun other ho => hi other (List.mem_append_left _ ho)
    right
    rw [feeding, List.map_append, List.map_singleton, after_unwrap, ← feeding]
    rcases hbefore with hsame | hstarted
    · rw [hsame, unwrap_interrupted h he hlast]
    · rw [hstarted, unwrap_interrupted h.markStarted he hlast]
      rfl

theorem unwrap_after_interrupted (h : Awaits o) (he : first.isEditable = true)
    {pieces : List (Bytes × List Bytes)}
    (hi : ∀ piece ∈ pieces, Record.Interrupted first tail piece.1 o.role) (source : Bytes)
    (buffers : List Bytes) :
    (o.after (feeding pieces)).unwrap source buffers = o.unwrap source buffers := by
  rcases after_interrupted h he hi with hsame | hstarted
  · rw [hsame]
  · rw [hstarted, unwrap_markStarted h]

/-- A flight whose selection was taken out is the engine's to refuse. -/
theorem unwrapStripped_declined {edit : Flight.Edit} {p : String}
    (h0 : (Engine.unwrap o.engine edit.stream buffers).consumed = 0) :
    o.unwrapStripped edit p buffers = o.forward (Engine.unwrap o.engine edit.stream buffers) := by
  simp only [unwrapStripped, forward]
  cases hr : (Engine.unwrap o.engine edit.stream buffers).result with
  | error cause => rfl
  | ok progress =>
    have hnone : progress.consumed = 0 := by simpa only [Reply.consumed, hr] using h0
    simp only [hnone, if_true]
    rfl

end Waiting

variable {σ : Type} [Engine σ] {o : Overlay (Recorded σ)} {edit : Flight.Edit} {p : String}

theorem unwrap_of_taken (h : Looks o) (he : first.isEditable = true)
    (ht : Flight.takeSelection (Record.encodeAll (first :: tail)) = .ok (some (edit, utf8 p)))
    (hp : p ∈ o.session.protocols) (buffers : List Bytes) :
    o.unwrap (Record.encodeAll (first :: tail)) buffers =
      o.markStarted.unwrapStripped edit p buffers := by
  have hconfigured := configured?_of_mem hp
  rw [unwrap_of_looks h he, ht]
  simp only [hconfigured]

theorem received_unwrap_of_taken (h : Looks o) (he : first.isEditable = true)
    (ht : Flight.takeSelection (Record.encodeAll (first :: tail)) = .ok (some (edit, utf8 p)))
    (hp : p ∈ o.session.protocols) (buffers : List Bytes) :
    (o.unwrap (Record.encodeAll (first :: tail)) buffers).engine.engine.received =
      o.engine.received ++ [edit.stream] := by
  rw [unwrap_of_taken h he ht hp]
  exact received_unwrapStripped ..

/-- A client still waits for its answer after a reply of the engine that it passes on. -/
theorem Awaits.looks_forward {reply : Reply (Recorded σ) (List Bytes) Cause} (h : Awaits o)
    (hr : o.role = .client) (hc : (o.markStarted.forward reply).engine.role = .client) :
    Looks (o.markStarted.forward reply).engine :=
  ⟨h.strategy, hc, h.isOpen, ⟨h.sent hr, h.listed⟩, h.unseen⟩

/-- Input that is incomplete or refused leaves no trace. A flight that stops inside a record is asked
for again and costs nothing, however often it is tried: the whole flight then does what it would have
done at once. A flight that the engine of a client does not take, once its selection is out, is the
engine's own affair: the overlay remembers no more than the start, leaves the transcript alone, and
gives the engine the same flight when it is tried again. -/
theorem input_leaves_no_trace (h : Awaits o) (he : first.isEditable = true) (tail : List Record) :
    let flight := Record.encodeAll (first :: tail)
    (∀ source buffers, Record.Interrupted first tail source o.role →
      o.unwrap source buffers = ⟨o.markStarted, buffers, .ok .underflow⟩) ∧
    (∀ pieces, (∀ piece ∈ pieces, Record.Interrupted first tail piece.1 o.role) →
      ∀ buffers, (o.after (feeding pieces)).unwrap flight buffers = o.unwrap flight buffers) ∧
    (o.role = .client → ∀ hello rest p, Flight.Opens first hello rest →
      Flight.Names hello (utf8 p) → p ∈ o.session.protocols →
      ∃ edit : Flight.Edit, edit.Withholds first tail hello rest ∧ ∀ buffers,
        let reply := Engine.unwrap o.engine edit.stream buffers
        let outcome := o.unwrap flight buffers
        outcome.engine.engine.received = o.engine.received ++ [edit.stream] ∧
        (reply.consumed = 0 → outcome = o.markStarted.forward reply ∧
          Recorded.Follows o.engine outcome.engine.engine
            [.called (.unwrap edit.stream buffers) (.moved reply.buffer reply.result)] ∧
          (outcome.engine.role = .client → ∀ again,
            (outcome.engine.unwrap flight again).engine.engine.received =
              outcome.engine.engine.received ++ [edit.stream]))) := by
  intro flight
  refine ⟨?_, ?_, ?_⟩
  · intro source buffers hi
    exact unwrap_interrupted h he hi buffers
  · intro pieces hi buffers
    exact unwrap_after_interrupted h he hi flight buffers
  · intro hr hello rest p ho hn hp
    obtain ⟨edit, hwithholds, ht⟩ := Flight.takeSelection_of_names he ho hn tail
    refine ⟨edit, hwithholds, fun buffers => ?_⟩
    intro reply outcome
    refine ⟨received_unwrap_of_taken (h.looks hr) he ht hp buffers, ?_⟩
    intro h0
    have hforward : outcome = o.markStarted.forward reply :=
      (unwrap_of_taken (h.looks hr) he ht hp buffers).trans (unwrapStripped_declined h0)
    rw [hforward]
    refine ⟨rfl, Recorded.follows_perform o.engine (.unwrap edit.stream buffers), ?_⟩
    intro hclient again
    exact received_unwrap_of_taken (h.looks_forward hr hclient) he ht hp again

/-- A client that has sent its hello, over an engine that fails at its next input. -/
def balking : Overlay (Recorded Scripted) :=
  { asking with engine := ⟨{ asking.engine.engine with inputs := [.fail "busy"] }, []⟩ }

/-- The selection is kept from the engine that failed, when it is asked again. -/
theorem balking_leaves_no_trace :
    let flight := Record.encodeAll [selectingRecord]
    (balking.unwrap (flight.take 7) [] = ⟨balking.markStarted, [], .ok .underflow⟩) ∧
    ∃ edit : Flight.Edit, edit.Withholds selectingRecord [] selectingHello [] ∧
      ((balking.unwrap flight []).engine.unwrap flight []).engine.engine.received =
        [edit.stream, edit.stream] := by
  intro flight
  have hrole : balking.role = .client := by decide +kernel
  have hawaits : Awaits balking :=
    ⟨by decide +kernel, by decide +kernel, by decide +kernel, by decide +kernel,
      fun _ => by decide +kernel⟩
  have hparse : Hello.parse .server selectingHello.encode = .ok selectingHello := by decide +kernel
  have hopens : Flight.Opens selectingRecord selectingHello [] :=
    ⟨(Hello.parse_eq_ok_iff.1 hparse).1, rfl, (List.append_nil _).symm⟩
  have hnames : Flight.Names selectingHello (utf8 "h2") :=
    ⟨⟨Extension.alpn, [0, 3, 2, 0x68, 0x32]⟩, by decide +kernel, by decide +kernel⟩
  have hlisted : "h2" ∈ balking.session.protocols := by decide +kernel
  have hinterrupted : Record.Interrupted selectingRecord [] (flight.take 7) balking.role := by
    rw [hrole]
    refine .client (List.take_prefix _ _) ?_
    rintro whole ⟨more, hw⟩ hne hsource
    have hwhole : whole = [selectingRecord] := by
      cases whole with
      | nil => exact absurd rfl hne
      | cons r rs =>
        obtain ⟨rfl, hrest⟩ := List.cons.inj hw
        rw [(List.append_eq_nil_iff.1 hrest).1]
    have hlength := congrArg List.length hsource
    rw [hwhole] at hlength
    exact absurd hlength (by decide +kernel)
  have heditable : selectingRecord.isEditable = true := rfl
  obtain ⟨hwaits, -, htaken⟩ := input_leaves_no_trace hawaits heditable []
  obtain ⟨edit, hwithholds, hedit⟩ := htaken hrole _ _ _ hopens hnames hlisted
  obtain ⟨hreceived, hdeclined⟩ := hedit []
  obtain ⟨-, -, hagain⟩ := hdeclined rfl
  refine ⟨hwaits _ _ hinterrupted, edit, hwithholds, ?_⟩
  rw [hagain (by decide +kernel), hreceived]
  rfl

end Overlay
end AlpnOverlay
