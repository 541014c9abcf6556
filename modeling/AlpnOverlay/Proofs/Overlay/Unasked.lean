import AlpnOverlay.Proofs.Overlay.Offered
import AlpnOverlay.Proofs.Overlay.Outcomes
import AlpnOverlay.Proofs.Overlay.Sessions

/-!
What the engine of a client meets. A selection is taken out of the server's hello as long as the
client looks for it, and the first handshake message that comes in ends the search, whether or not
it is the hello.
-/
namespace AlpnOverlay

namespace Recorded

variable {σ : Type} [Engine σ] {r : Recorded σ} {source : Bytes} {buffers : List Bytes}

theorem received_unwrap :
    (Engine.unwrap r source buffers).engine.received = r.received ++ [source] := by
  simp [received, calls, Engine.unwrap, after]

theorem received_closeOutbound : (Engine.closeOutbound r).received = r.received := by
  simp [received, calls, Engine.closeOutbound, after]

end Recorded

namespace Overlay

open Wire

variable {σ : Type} [Engine σ] {o : Overlay σ} {calls first : List Call} {call : Call}
  {sources buffers : List Bytes} {source buffer : Bytes}

/-- A client that has asked is given another handshake message than a server hello. -/
def Distracts (o : Overlay σ) (call : Call) : Prop :=
  o.session.closed = false ∧ o.Asked ∧ ∃ source buffers head tail header,
    call = .unwrap source buffers ∧ source = Record.encodeAll (head :: tail) ∧
      head.isEditable = true ∧ Message.Header.parse head.payload = .ok header ∧
      header.type? ≠ some .serverHello

/-- A server hello goes by: it selects nothing, or its bytes are taken. -/
def Passes (o : Overlay σ) (call : Call) : Prop :=
  ∃ source buffers head message, call = .unwrap source buffers ∧
    Flight.openingHello? source = some (head, message) ∧
    (Hello.selection? message = none ∨ (o.unwrap source buffers).consumed ≠ 0)

/-- What ends the search of a client. -/
theorem Unwraps.ends_search {outcome : Outcome σ (List Bytes)}
    (h : Unwraps o source buffers outcome)
    (hr : o.role = .client) (hn : o.session.peerHelloSeen = false)
    (hseen : outcome.engine.session.peerHelloSeen = true) :
    o.session.closed = false ∧
      ((o.Asked ∧ Flight.Unselected source) ∨
        (∃ head message, Flight.openingHello? source = some (head, message)) ∧
          outcome.consumed ≠ 0) := by
  cases h with
  | passed hc _ hs =>
    refine ⟨hc, ?_⟩
    cases hs with
    | ignored => cases hn.symm.trans hseen
    | noticed _ _ h => exact .inl (h hr)
    | offered _ hserver => cases hr.symm.trans hserver
  | @stripped edit name protocol progress engine hc hs _ h0 =>
    refine ⟨hc, .inr ⟨⟨_, _, (Flight.selection?_of_taken hs.taken).1⟩, ?_⟩⟩
    simp only [Reply.consumed]
    omega
  | _ => cases hn.symm.trans hseen

/-- A client that has looked at something met another message, or the server's hello. -/
theorem search_run (hs : o.strategy = .overlay) (hr : o.KeepsRole calls .client)
    (h0 : o.session.peerHelloSeen = false)
    (hseen : (o.after calls).session.peerHelloSeen = true) :
    o.Ever calls Distracts ∨ o.Ever calls Passes := by
  have hextend : ∀ {first : List Call} (call : Call),
      o.Ever first Distracts ∨ o.Ever first Passes →
        o.Ever (first ++ [call]) Distracts ∨ o.Ever (first ++ [call]) Passes := by
    rintro first call (hother | hhello)
    · exact .inl (hother.extend call)
    · exact .inr (hhello.extend call)
  refine calls_induction (P := fun calls => (o.after calls).session.peerHelloSeen = true →
    o.Ever calls Distracts ∨ o.Ever calls Passes) ?_ ?_ ?_ ?_ hseen
  · intro hseen
    cases h0.symm.trans hseen
  · intro first sources buffer _ h hseen
    obtain ⟨-, -, -, hsame⟩ := (wraps_wrap (strategy_run hs first) sources buffer).frame
    rw [after_wrap, hsame] at hseen
    exact hextend _ (h hseen)
  · intro first source buffers hp h hseen
    by_cases hbefore : (o.after first).session.peerHelloSeen = true
    · exact hextend _ (h hbefore)
    · have hu := unwraps_unwrap (strategy_run hs first) source buffers
      have hrole := hr.at_call hp
      rw [after_unwrap] at hseen
      obtain ⟨hc, hends⟩ := hu.ends_search hrole (Bool.eq_false_iff.2 hbefore) hseen
      rcases hends with ⟨ha, head, tail, hd, he, ht⟩ | ⟨⟨head, message, hopens⟩, hconsumed⟩
      · rcases Flight.opening_of_takeSelection hd he ht with
          ⟨header, hh, hother⟩ | ⟨message, hm, hnone⟩
        · exact .inl (ever_last ⟨hc, ha, source, buffers, head, tail, header, rfl, hd, he, hh, hother⟩)
        · exact .inr (ever_last ⟨source, buffers, head, message, rfl, hm, .inl hnone⟩)
      · exact .inr (ever_last ⟨source, buffers, head, message, rfl, hopens, .inr hconsumed⟩)
  · intro first call hm _ h hseen
    obtain ⟨names, hsession⟩ := session_manage o first hm
    rw [hsession] at hseen
    exact hextend call (h hseen)

/-- Another message ends the search for good. -/
theorem seen_of_distracts (h : o.Ever calls Distracts) (hs : o.strategy = .overlay)
    (hr : o.KeepsRole calls .client) : (o.after calls).session.peerHelloSeen = true := by
  obtain ⟨earlier, call, ⟨later, rfl⟩, hc, ha, source, buffers, head, tail, header, rfl, hd, he, hh,
    ht⟩ := h
  rw [after_append]
  refine (precedes_run _ later).seen ?_
  rw [after_unwrap]
  by_cases hn : (o.after earlier).session.peerHelloSeen = true
  · rw [← after_unwrap, after_append]
    exact (precedes_run _ _).seen hn
  · have hrole := hr.at_call (List.prefix_append _ _)
    rw [unwrap_looking (strategy_run hs earlier) hc hrole ha (Bool.eq_false_iff.2 hn) he
      (hd.trans (Record.encodeAll_cons ..)), Flight.takeSelection_of_other hd hh ht]
    rfl

section Given

variable {o : Overlay (Recorded σ)} {given message : Bytes} {head : Record}

theorem received_refuse (o : Overlay (Recorded σ)) (e : Wire.Error) (buffers : List Bytes) :
    (o.refuse e buffers).engine.engine.received = o.engine.received := by
  simp only [refuse]
  split
  · rfl
  · exact Recorded.received_closeOutbound

theorem received_unwrapStripped (o : Overlay (Recorded σ)) (edit : Flight.Edit) (protocol : String)
    (buffers : List Bytes) :
    (o.unwrapStripped edit protocol buffers).engine.engine.received =
      o.engine.received ++ [edit.stream] := by
  simp only [unwrapStripped]
  split
  · exact Recorded.received_unwrap
  · split
    · exact Recorded.received_unwrap
    · split
      · exact Recorded.received_closeOutbound.trans Recorded.received_unwrap
      · split
        · exact Recorded.received_closeOutbound.trans Recorded.received_unwrap
        · rename_i after hafter
          obtain ⟨engine, hx, rfl⟩ := correct_eq_ok_iff.1 hafter
          exact (Recorded.received_corrects hx).trans Recorded.received_unwrap

theorem open_of_given
    (hgiven : (o.unwrap source buffers).engine.engine.received = o.engine.received ++ [given]) :
    o.session.closed = false := by
  cases hc : o.session.closed with
  | false => rfl
  | true =>
    have hsame : (o.unwrap source buffers).engine = o := by
      simp only [unwrap, hc, if_true]
    rw [hsame] at hgiven
    simp at hgiven

/-- A client that looks no further hands its input on. -/
theorem given_of_seen (hs : o.strategy = .overlay) (hr : o.role = .client)
    (hn : o.session.peerHelloSeen = true)
    (hgiven : (o.unwrap source buffers).engine.engine.received = o.engine.received ++ [given]) :
    given = source := by
  have hc := open_of_given hgiven
  rw [unwrap_seen hs hc hr hn] at hgiven
  have hreceived :
      (o.markStarted.forward (Engine.unwrap o.engine source buffers)).engine.engine.received =
      o.engine.received ++ [source] := Recorded.received_unwrap
  rw [hreceived] at hgiven
  simpa using hgiven.symm

/-- A client that looks hands on a hello without a selection. -/
theorem selection?_of_given (hs : o.strategy = .overlay) (hr : o.role = .client) (ha : o.Asked)
    (hn : o.session.peerHelloSeen = false)
    (hopens : Flight.openingHello? source = some (head, message))
    (he : head.isEditable = true)
    (hgiven : (o.unwrap source buffers).engine.engine.received = o.engine.received ++ [given])
    {head' : Record} {message' : Bytes}
    (hopens' : Flight.openingHello? given = some (head', message')) :
    Hello.selection? message' = none := by
  have hc := open_of_given hgiven
  obtain ⟨⟨more, hd⟩, -, -, -⟩ := Flight.openingHello?_eq_some_iff.1 hopens
  rw [unwrap_looking hs hc hr ha hn he hd] at hgiven
  have hrefused : ∀ e : Wire.Error, (o.markStarted.refuse e buffers).engine.engine.received ≠
      o.engine.received ++ [given] := by
    intro e h
    rw [received_refuse] at h
    simp [markStarted] at h
  cases ht : Flight.takeSelection source with
  | error e =>
    rw [ht] at hgiven
    exact absurd hgiven (hrefused e)
  | ok taken =>
    cases taken with
    | none =>
      have hreceived : (o.markStarted.markSeen.forward
          (Engine.unwrap o.engine source buffers)).engine.engine.received =
          o.engine.received ++ [source] := Recorded.received_unwrap
      simp only [ht, hreceived, List.append_cancel_left_eq, List.cons.injEq, and_true] at hgiven
      rw [← hgiven, hopens] at hopens'
      cases hopens'
      exact Flight.selection?_of_takeSelection hopens he ht
    | some taken =>
      obtain ⟨edit, name⟩ := taken
      simp only [ht] at hgiven
      split at hgiven
      · exact absurd hgiven (hrefused _)
      · rw [received_unwrapStripped] at hgiven
        have hstream : edit.stream = given := by simpa [markStarted] using hgiven
        exact (Flight.selection?_of_taken ht).2 _ _ (by rw [hstream]; exact hopens')

/-- The engine of a client meets a selection in the first hello of a server exactly when the hello
carries one and another message came in front of it. -/
theorem selection_met_iff {engine : Recorded σ} {config : Config}
    (ho : Overlay.of engine config = .ok o) (hs : o.strategy = .overlay)
    (hr : o.KeepsRole calls .client) (hp : first ++ [.unwrap source buffers] <+: calls)
    (ha : (o.after first).Asked) (hopens : Flight.openingHello? source = some (head, message))
    (he : head.isEditable = true)
    (hfirst : ∀ earlier source buffers head other, earlier ++ [.unwrap source buffers] <+: first →
      Flight.openingHello? source = some (head, other) →
        other = message ∧ ((o.after earlier).unwrap source buffers).consumed = 0)
    (hgiven : (o.after (first ++ [.unwrap source buffers])).engine.received =
      (o.after first).engine.received ++ [given]) :
    (∃ head other, Flight.openingHello? given = some (head, other) ∧
      Hello.selection? other ≠ none) ↔
    Hello.selection? message ≠ none ∧ o.Ever first Distracts := by
  have hbefore : first <+: calls := (List.prefix_append _ _).trans hp
  have hrole := hr first hbefore
  have hst := strategy_run hs first
  have hinitial : o.session.peerHelloSeen = false := by
    obtain rfl := of_eq_ok ho hs
    rfl
  rw [after_unwrap] at hgiven
  by_cases hn : (o.after first).session.peerHelloSeen = true
  · rw [given_of_seen hst hrole hn hgiven, hopens]
    have hmet : (∃ head' other, some (head, message) = some (head', other) ∧
        Hello.selection? other ≠ none) ↔ Hello.selection? message ≠ none := by
      constructor
      · rintro ⟨head', other, heq, hsel⟩
        cases heq
        exact hsel
      · intro hsel
        exact ⟨head, message, rfl, hsel⟩
    rw [hmet]
    rcases search_run hs (hr.before hbefore) hinitial hn with hother | hhello
    · exact ⟨fun hsel => ⟨hsel, hother⟩, And.left⟩
    · obtain ⟨earlier, call, hearlier, source', buffers', head', other, rfl, ho', hpassed⟩ := hhello
      obtain ⟨rfl, hidle⟩ := hfirst _ _ _ _ _ hearlier ho'
      rcases hpassed with hnone | hconsumed
      · exact iff_of_false (not_not.2 hnone) fun h => h.1 hnone
      · exact absurd hidle hconsumed
  · have hn : (o.after first).session.peerHelloSeen = false := Bool.eq_false_iff.2 hn
    refine iff_of_false ?_ ?_
    · rintro ⟨head', other, hopens', hsel⟩
      exact hsel (selection?_of_given hst hrole ha hn hopens he hgiven hopens')
    · rintro ⟨-, hother⟩
      cases hn.symm.trans (seen_of_distracts hother hs (hr.before hbefore))

/-- The server's hello with a selection. -/
def selectingHello : Hello := (Peer.helloOf .server).add ⟨Extension.alpn, [0, 3, 2, 0x68, 0x32]⟩

def selectingRecord : Record := ⟨.handshake, .tls12, selectingHello.encode, by decide +kernel⟩

theorem opens_selecting :
    Flight.openingHello? selecting = some (selectingRecord, selectingHello.encode) := by
  decide +kernel

/-- An alert in front of the server's hello does not keep the client from looking. -/
theorem selection_unmet_behind_alert :
    let o := writing [(Peer.helloOf .client).encode]
    let first := [.wrap [] (List.replicate 256 0), .unwrap (Peer.recordOf .alert [1, 90]) []]
    ∃ given, (o.after (first ++ [.unwrap selecting []])).engine.received =
        (o.after first).engine.received ++ [given] ∧
      ¬ ∃ head other, Flight.openingHello? given = some (head, other) ∧
        Hello.selection? other ≠ none := by
  intro o first
  have ho : Overlay.of o.engine { protocols := ["h2"], mode := .overlay } = .ok o := rfl
  have hr : o.KeepsRole (first ++ [.unwrap selecting []]) .client :=
    forall_initial (by decide +kernel)
  have hgiven : (o.after (first ++ [.unwrap selecting []])).engine.received =
      (o.after first).engine.received ++
        [Peer.recordOf .handshake (Peer.helloOf .server).encode] := by
    decide +kernel
  refine ⟨_, hgiven, ?_⟩
  intro hmet
  have hfirst : ∀ earlier source buffers head other,
      earlier ++ [.unwrap source buffers] <+: first →
      Flight.openingHello? source = some (head, other) →
        other = selectingHello.encode ∧ ((o.after earlier).unwrap source buffers).consumed = 0 := by
    intro earlier source buffers head other hp hopens
    have hmem : Call.unwrap source buffers ∈
        [.wrap [] (List.replicate 256 0), .unwrap (Peer.recordOf .alert [1, 90]) []] :=
      hp.subset (by simp)
    have halert : source = Peer.recordOf .alert [1, 90] := by
      rcases List.mem_cons.1 hmem with h | h
      · cases h
      · exact (Call.unwrap.inj (List.mem_singleton.1 h)).1
    have hnone : Flight.openingHello? (Peer.recordOf .alert [1, 90]) = none := by decide +kernel
    rw [halert, hnone] at hopens
    cases hopens
  have hother := ((selection_met_iff ho rfl hr (List.prefix_refl _)
    ⟨by decide +kernel, by decide +kernel⟩ opens_selecting rfl hfirst hgiven).1 hmet).2
  have hseen := seen_of_distracts hother rfl (hr.before (List.prefix_append _ _))
  exact absurd hseen (by decide +kernel)

/-- Any other handshake message in front of it does. -/
theorem selection_met_behind_request :
    let o := writing [(Peer.helloOf .client).encode]
    let first := [.wrap [] (List.replicate 256 0),
      .unwrap (Peer.recordOf .handshake (Message.frame .helloRequest [])) []]
    streamOffers (o.emitted first) (utf8 "h2") = true ∧ (o.after first).Asked ∧
      (o.after (first ++ [.unwrap selecting []])).engine.received =
        (o.after first).engine.received ++ [selecting] ∧
      ∃ head other, Flight.openingHello? selecting = some (head, other) ∧
        Hello.selection? other ≠ none := by
  intro o first
  have hasked : (o.after first).Asked := ⟨by decide +kernel, by decide +kernel⟩
  exact ⟨by decide +kernel, hasked, by decide +kernel, _, _, opens_selecting, by decide +kernel⟩

end Given

end Overlay
end AlpnOverlay
