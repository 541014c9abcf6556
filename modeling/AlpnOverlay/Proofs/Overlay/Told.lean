import AlpnOverlay.Engine.Scripted
import AlpnOverlay.Proofs.Flight.Opening
import AlpnOverlay.Proofs.Overlay.Sessions
import AlpnOverlay.Proofs.Overlay.WireTranscript

/-!
What a server tells. A selection is made from any hello of a client that can be read; the answer is
edited only in a record of a version whose hellos can be edited.
-/
namespace AlpnOverlay.Overlay

open Wire

variable {σ : Type} [Engine σ] {o : Overlay σ} {calls first : List Call} {call : Call}
  {sources buffers : List Bytes} {source buffer message : Bytes} {opening : Record}

/-- A call for output that succeeds after the peer's hello was looked at, and in which the engine
opens a flight with a whole server hello. -/
structure Answers (o : Overlay σ) (sources : List Bytes) (buffer : Bytes) (opening : Record)
    (message : Bytes) : Prop where
  isOpen : o.session.closed = false
  slot : o.session.parked.isEmpty = true
  seen : o.session.peerHelloSeen = true
  ok : ∃ progress, (o.wrap sources buffer).result = .ok progress
  opens : Flight.openingHello? (Engine.wrap o.engine sources buffer).output =
    some (opening, message)

/-- A call that answers the client's hello. -/
def IsAnswer (o : Overlay σ) (call : Call) : Prop :=
  ∃ sources buffer opening message, call = .wrap sources buffer ∧
    o.Answers sources buffer opening message

/-- A server chooses once. -/
theorem Unwraps.chosen_once {outcome : Outcome σ (List Bytes)}
    (h : Unwraps o source buffers outcome)
    (hr : o.role = .server) (hn : o.session.peerHelloSeen = true) :
    outcome.engine.session.selected = o.session.selected := by
  cases h with
  | passed _ _ hs =>
    cases hs with
    | ignored => rfl
    | noticed hn' => cases hn.symm.trans hn'
    | offered hn' => cases hn.symm.trans hn'
  | stripped _ hs => cases hr.symm.trans hs.client
  | _ => rfl

theorem chosen_run (hs : o.strategy = .overlay) (hr : o.KeepsRole calls .server)
    (hn : o.session.peerHelloSeen = true) :
    (o.after calls).session.selected = o.session.selected := by
  refine calls_induction (P := fun calls => (o.after calls).session.selected = o.session.selected)
    rfl ?_ ?_ ?_
  · intro first sources buffer _ hsel
    obtain ⟨-, -, hselected, -⟩ := (wraps_wrap (strategy_run hs first) sources buffer).frame
    rw [after_wrap]
    exact hselected.trans hsel
  · intro first source buffers hp hsel
    have hrole := hr.at_call hp
    have hu := unwraps_unwrap (strategy_run hs first) source buffers
    rw [after_unwrap]
    exact (hu.chosen_once hrole ((precedes_run o first).seen hn)).trans hsel
  · intro first call hm _ hsel
    obtain ⟨names, hsession⟩ := session_manage o first hm
    rw [hsession]
    exact hsel

/-- Why a server's hello counts as sent: there is nothing to tell, or it was edited in an answer. -/
def Settles (o : Overlay σ) (calls : List Call) : Prop :=
  (o.after calls).session.ownHelloSent = true →
    ((o.after calls).session.peerHelloSeen = true ∧ (o.after calls).session.selected = none) ∨
      o.Ever calls IsAnswer

theorem seen_of_editOf {reply : Reply σ Bytes Cause} (hr : o.role = .server)
    (h : o.editOf reply ≠ .ok none) : o.session.peerHelloSeen = true := by
  cases hn : o.session.peerHelloSeen with
  | true => rfl
  | false => exact absurd (by simp [editOf, outboundEdit, hr, hn]) h

/-- Whatever a server edits is an answer. -/
theorem answers_of_edit {edit : Flight.Edit} (hr : o.role = .server)
    (hc : o.session.closed = false) (hp : o.session.parked.isEmpty = true)
    (hok : ∃ progress, (o.wrap sources buffer).result = .ok progress)
    (he : o.editOf (Engine.wrap o.engine sources buffer) = .ok (some edit)) :
    o.Answers sources buffer edit.carrier edit.inner := by
  obtain ⟨-, -, hkind⟩ := editOf_eq_some he
  simp only [hr] at hkind
  obtain ⟨protocol, -, hadd⟩ := hkind
  obtain ⟨hopening, -, -⟩ := Flight.selects_of_addSelection hadd
  have hseen : o.session.peerHelloSeen = true :=
    seen_of_editOf hr fun hn => by cases he.symm.trans hn
  exact ⟨hc, hp, hseen, hok, hopening⟩

theorem settles_wrap (hs : o.strategy = .overlay) (hr : (o.after calls).role = .server)
    (h : o.Settles calls) : o.Settles (calls ++ [.wrap sources buffer]) := by
  have hw := wraps_wrap (strategy_run hs calls) sources buffer
  have hbefore : (o.after calls).session.ownHelloSent = true →
      ((o.after calls).session.peerHelloSeen = true ∧ (o.after calls).session.selected = none) ∨
        o.Ever (calls ++ [.wrap sources buffer]) IsAnswer := by
    intro hsent
    rcases h hsent with hnone | hanswered
    · exact .inl hnone
    · exact .inr (hanswered.extend _)
  obtain ⟨-, -, hselected, hseen⟩ := hw.frame
  intro hsent
  rw [after_wrap] at hsent ⊢
  rw [hselected, hseen]
  generalize hout : (o.after calls).wrap sources buffer = outcome at hw hsent
  cases hw with
  | closed => exact hbefore hsent
  | drained =>
    obtain ⟨-, -, parked, hsession⟩ := drain_fields (o.after calls).markStarted buffer
    rw [hsession] at hsent
    exact hbefore hsent
  | passed =>
    simp only [pass, sentAfter, hr, Bool.or_eq_true, Bool.and_eq_true, Option.isNone_iff_eq_none]
      at hsent
    rcases hsent with hsent | hnone
    · exact hbefore hsent
    · exact .inl hnone
  | refused => exact hbefore hsent
  | abandoned => exact hbefore hsent
  | @edited progress edit engine hc hp _ he =>
    have hok : ∃ progress, ((o.after calls).wrap sources buffer).result = .ok progress := by
      rw [hout]
      exact result_deliver ((o.after calls).markStarted.markSent.withEngine engine) hp ..
    exact .inr (ever_last ⟨sources, buffer, _, _, rfl, answers_of_edit hr hc hp hok he⟩)

theorem settles_run (hs : o.strategy = .overlay) (hr : o.KeepsRole calls .server)
    (h0 : o.session.ownHelloSent = false) : o.Settles calls := by
  refine calls_induction (P := fun calls => o.Settles calls) ?_ ?_ ?_ ?_
  · intro hsent
    cases h0.symm.trans hsent
  · intro first sources buffer hp h
    exact settles_wrap hs (hr.at_call hp) h
  · intro first source buffers hp h hsent
    have hu := unwraps_unwrap (strategy_run hs first) source buffers
    have hrole := hr.at_call hp
    obtain ⟨-, -, -, hown⟩ := hu.frame
    rw [after_unwrap] at hsent ⊢
    rw [hown] at hsent
    rcases h hsent with ⟨hn, hsel⟩ | hanswered
    · refine .inl ⟨?_, (hu.chosen_once hrole hn).trans hsel⟩
      rw [← after_unwrap, after_append]
      exact (precedes_run _ _).seen hn
    · exact .inr (hanswered.extend _)
  · intro first call hm _ h hsent
    obtain ⟨names, hsession⟩ := session_manage o first hm
    rw [hsession] at hsent ⊢
    rcases h hsent with hnone | hanswered
    · exact .inl hnone
    · exact .inr (hanswered.extend call)

/-- As long as the own hello is not sent, an answer is edited for the selection. -/
theorem Answers.editOf_eq {p : String} (ha : o.Answers sources buffer opening message)
    (hr : o.role = .server) (hn : o.session.ownHelloSent = false)
    (hsel : o.session.selected = some p) :
    o.editOf (Engine.wrap o.engine sources buffer) =
      Flight.addSelection (Engine.wrap o.engine sources buffer).output (utf8 p) := by
  have h0 : (Engine.wrap o.engine sources buffer).produced ≠ 0 := by
    intro h0
    have hopens := ha.opens
    rw [Reply.output, h0, List.take_zero] at hopens
    cases hopens
  simp [editOf, if_neg h0, outboundEdit, hr, ha.seen, hn, hsel]

/-- What leaves in an answer: the edited flight, or the engine's own when its version is none of
those that are edited. -/
theorem crossing_of_answer {p : String} (hs : o.strategy = .overlay) (hr : o.role = .server)
    (ha : o.Answers sources buffer opening message) (hn : o.session.ownHelloSent = false)
    (hsel : o.session.selected = some p) :
    (opening.version.isEditable = false ∧
      o.crossing (.wrap sources buffer) = (Engine.wrap o.engine sources buffer).output) ∨
    (opening.version.isEditable = true ∧ ∃ edit,
      Flight.addSelection (Engine.wrap o.engine sources buffer).output (utf8 p) = .ok (some edit) ∧
        o.crossing (.wrap sources buffer) = edit.stream) := by
  have hedit := ha.editOf_eq hr hn hsel
  obtain ⟨hc, hp, -, ⟨progress, hok⟩, hopens⟩ := ha
  have hw := wraps_wrap hs sources buffer
  have hslot : o.session.parked.bytes = [] := Parked.isEmpty_iff.1 hp
  simp only [crossing, if_pos hp]
  generalize o.wrap sources buffer = outcome at hw hok ⊢
  cases hw with
  | closed h => cases hc.symm.trans h
  | drained _ h => cases hp.symm.trans h
  | refused => cases hok
  | abandoned => cases hok
  | passed _ _ he =>
    left
    have hnone := Flight.serverFlight?_of_addSelection (hedit.symm.trans he)
    refine ⟨?_, ?_⟩
    · cases hv : opening.version.isEditable with
      | false => rfl
      | true => exact absurd hnone (Flight.serverFlight?_of_opening hopens hv)
    · rw [pass_moved hp, hslot, List.nil_append]
  | @edited p' edit engine _ _ _ he =>
    right
    rw [hedit] at he
    obtain ⟨hopening, heditable, -⟩ := Flight.selects_of_addSelection he
    rw [hopens] at hopening
    cases hopening
    simp only [Record.isEditable, Bool.and_eq_true] at heditable
    exact ⟨heditable.2, edit, he, deliver_output hslot⟩

/-- A server that reports a protocol has told the client so in its first hello exactly when that
hello came in a record whose version is edited, or the engine had named the protocol itself. -/
theorem selection_told_iff {engine : σ} {config : Config} {p : String}
    (ho : Overlay.of engine config = .ok o) (hs : o.strategy = .overlay)
    (hr : o.KeepsRole calls .server) (hp : first ++ [.wrap sources buffer] <+: calls)
    (ha : (o.after first).Answers sources buffer opening message) (hfirst : ¬ o.Ever first IsAnswer)
    (hsel : (o.after calls).protocol = .ok (some p)) :
    (∃ hello, firstMessage? ((o.after first).crossing (.wrap sources buffer)) = some hello ∧
      Hello.selects hello (utf8 p) = true) ↔
    opening.version.isEditable = true ∨ Hello.selects message (utf8 p) = true := by
  have hbefore : first <+: calls := (List.prefix_append _ _).trans hp
  have hselected : (o.after first).session.selected = some p := by
    obtain ⟨later, rfl⟩ := hbefore
    have hlast := chosen_run (strategy_run hs first) hr.rest ha.seen
    simp only [protocol, strategy_run hs, Except.ok.injEq] at hsel
    rw [← hlast, ← after_append, hsel]
  have hinitial : o.session.ownHelloSent = false := by
    obtain rfl := of_eq_ok ho hs
    rfl
  have hunsent : (o.after first).session.ownHelloSent = false := by
    cases hsent : (o.after first).session.ownHelloSent with
    | false => rfl
    | true =>
      rcases settles_run hs (hr.before hbefore) hinitial hsent with ⟨-, hnone⟩ | hanswered
      · cases hselected.symm.trans hnone
      · exact absurd hanswered hfirst
  rcases crossing_of_answer (strategy_run hs first) (hr first hbefore) ha hunsent hselected with
    ⟨hv, hcrossing⟩ | ⟨hv, edit, hadd, hcrossing⟩
  · rw [hcrossing, hv, Flight.firstMessage?_of_opening ha.opens]
    simp
  · obtain ⟨-, -, hello, hmessage, htold⟩ := Flight.selects_of_addSelection hadd
    rw [hcrossing, hv]
    exact iff_of_true ⟨hello, hmessage, htold⟩ (.inl rfl)

/-- The server's hello in a record of a given version. -/
def answerIn (version : Version) : Record :=
  ⟨.handshake, version, (Peer.helloOf .server).encode, by decide +kernel⟩

/-- A server with one protocol in its list whose engine answers in records of a given version. -/
def answering (version : Version) : Overlay Scripted :=
  ⟨{ role := .server, outputs := [.record (answerIn version).encode] }, .overlay,
    { protocols := ["h2"] }⟩

/-- A client's hello with an offer of that protocol. -/
def offered : Bytes :=
  Peer.recordOf .handshake
    ((Peer.helloOf .client).add ⟨Extension.alpn, [0, 3, 2, 0x68, 0x32]⟩).encode

/-- In a record of TLS 1.2 the answer names the protocol. -/
theorem selection_told_edited :
    let o := answering .tls12
    let first := [Call.unwrap offered []]
    let answer := Call.wrap [] (List.replicate 256 0)
    (o.after (first ++ [answer])).protocol = .ok (some "h2") ∧
      ∃ hello, firstMessage? ((o.after first).crossing answer) = some hello ∧
        Hello.selects hello (utf8 "h2") = true := by
  intro o first answer
  have ho : Overlay.of o.engine { protocols := ["h2"], mode := .overlay } = .ok o := rfl
  have hsel : (o.after (first ++ [answer])).protocol = .ok (some "h2") := by decide +kernel
  have ha : (o.after first).Answers [] (List.replicate 256 0) (answerIn .tls12)
      (Peer.helloOf .server).encode :=
    ⟨by decide +kernel, by decide +kernel, by decide +kernel,
      ⟨⟨.ok, .needUnwrap, 0, 95⟩, by decide +kernel⟩, by decide +kernel⟩
  have hfirst : ¬ o.Ever first IsAnswer := by
    rintro ⟨earlier, call, hp, sources, buffer, _, _, rfl, -⟩
    have hmem : Call.wrap sources buffer ∈ [Call.unwrap offered []] := hp.subset (by simp)
    simp at hmem
  exact ⟨hsel, (selection_told_iff ho rfl (forall_initial (by decide +kernel)) (List.prefix_refl _)
    ha hfirst hsel).2 (.inl rfl)⟩

/-- In a record of an earlier version it names none, and the server reports the protocol all the
same. -/
theorem selection_untold :
    let o := answering ⟨3, 0⟩
    let first := [Call.unwrap offered []]
    let answer := Call.wrap [] (List.replicate 256 0)
    (o.after first).Answers [] (List.replicate 256 0) (answerIn ⟨3, 0⟩)
        (Peer.helloOf .server).encode ∧
      (o.after (first ++ [answer])).protocol = .ok (some "h2") ∧
      firstMessage? ((o.after first).crossing answer) = some (Peer.helloOf .server).encode ∧
      Hello.selection? (Peer.helloOf .server).encode = none := by
  intro o first answer
  have ha : (o.after first).Answers [] (List.replicate 256 0) (answerIn ⟨3, 0⟩)
      (Peer.helloOf .server).encode :=
    ⟨by decide +kernel, by decide +kernel, by decide +kernel,
      ⟨⟨.ok, .needUnwrap, 0, 86⟩, by decide +kernel⟩, by decide +kernel⟩
  exact ⟨ha, by decide +kernel, by decide +kernel, by decide +kernel⟩

end AlpnOverlay.Overlay
