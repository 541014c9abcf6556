import AlpnOverlay.Proofs.Overlay.Capabilities

/-!
What a call that moves bytes leaves in the record of its engine. It is handed on at most once, and
behind that it ends in one of three ways: nothing more happens, the transcript is replayed, or the
connection is closed for a failure.
-/
namespace AlpnOverlay

namespace Overlay

open Recorded

variable {σ : Type} [Engine σ] {o : Overlay (Recorded σ)} {sources buffers : List Bytes}
  {source buffer : Bytes} {β : Type} {latch : Session → Bool}
  {outcome : Outcome (Recorded σ) β}

/-- How a call ends, by what it does behind the engine's part. A replay sets a flag that had not
been set. -/
inductive Ends (latch : Session → Bool) (o : Overlay (Recorded σ))
    (outcome : Outcome (Recorded σ) β) : List Event → Prop where
  | goesOn (hr : ∀ f, outcome.result = .error f → f.kind = .engine)
      (hc : outcome.engine.session.closed = o.session.closed) : Ends latch o outcome []
  | replays {progress : Progress} (bytes : Bytes) (hr : outcome.result = .ok progress)
      (hc : outcome.engine.session.closed = o.session.closed)
      (hbefore : latch o.session = false) (hafter : latch outcome.engine.session = true) :
      Ends latch o outcome [.transcriptReset, .transcriptAppended bytes]
  | closes {f : Failure} (hr : outcome.result = .error f) (hk : f.kind ≠ .engine)
      (hbefore : o.session.closed = false) (hafter : outcome.engine.session.closed = true) :
      Ends latch o outcome [.called .closeOutbound (.done (.ok ()))]

/-- What a call that moves bytes leaves in the record of its engine. -/
structure Leaves (latch : Session → Bool) (o : Overlay (Recorded σ))
    (outcome : Outcome (Recorded σ) β) (moves ending : List Event) : Prop where
  follows : Follows o.engine outcome.engine.engine (moves ++ ending)
  moves : ∀ event ∈ moves, event.IsMove
  ends : Ends latch o outcome ending

omit [Engine σ] in
theorem leaves_nothing {progress : Progress} (he : outcome.engine.engine = o.engine)
    (hc : outcome.engine.session.closed = o.session.closed) (hr : outcome.result = .ok progress) :
    Leaves latch o outcome [] [] := by
  refine ⟨?_, by simp, .goesOn ?_ hc⟩
  · rw [he]
    exact .refl _
  · intro f hf
    cases hr.symm.trans hf

omit [Engine σ] in
/-- A reply that is handed back leaves the call alone. -/
theorem leaves_forward {p : Overlay (Recorded σ)} {reply : Reply (Recorded σ) β Cause}
    {event : Event} (hf : Follows o.engine reply.engine [event]) (hm : event.IsMove)
    (hc : p.session.closed = o.session.closed) : Leaves latch o (p.forward reply) [event] [] := by
  refine ⟨hf, by simpa using hm, .goesOn ?_ hc⟩
  intro f hr
  obtain ⟨cause, rfl⟩ := error_of_mapError hr
  rfl

theorem Resists.kind_ne_engine {engine : Recorded σ} {edit : Flight.Edit} {f : Failure}
    (h : Resists engine edit f) : f.kind ≠ .engine := by
  cases h with
  | withheld => decide
  | unhashed ht hs =>
    rw [Transcript.mismatch_of_resynchronize hs]
    exact FailureKind.noConfusion

theorem leaves_closed {p : Overlay (Recorded σ)} {moves : List Event} {f : Failure} {given : β}
    (hf : Follows o.engine p.engine moves) (hm : ∀ event ∈ moves, event.IsMove)
    (hk : f.kind ≠ .engine) (hc : o.session.closed = false) :
    Leaves latch o ⟨p.close, given, .error f⟩ moves [.called .closeOutbound (.done (.ok ()))] :=
  ⟨hf.trans (follows_perform p.engine .closeOutbound), hm, .closes rfl hk hc rfl⟩

/-- A transcript that is put right is replayed or left as it is. -/
theorem leaves_corrected {engine : Recorded σ} {edit : Flight.Edit} {moves : List Event}
    {progress : Progress} (hf : Follows o.engine engine moves)
    (hm : ∀ event ∈ moves, event.IsMove) (hx : Corrects engine edit outcome.engine.engine)
    (hr : outcome.result = .ok progress)
    (hc : outcome.engine.session.closed = o.session.closed)
    (hbefore : latch o.session = false) (hafter : latch outcome.engine.session = true) :
    ∃ ending, Leaves latch o outcome moves ending := by
  rcases follows_corrects hx with hsame | ⟨bytes, hreplay⟩
  · refine ⟨[], hf.trans hsame, hm, .goesOn ?_ hc⟩
    intro f he
    cases hr.symm.trans he
  · exact ⟨_, hf.trans hreplay, hm, .replays bytes hr hc hbefore hafter⟩

theorem Wraps.leaves {outcome : Outcome (Recorded σ) Bytes} (h : Wraps o sources buffer outcome) :
    ∃ moves ending, Leaves Session.ownHelloSent o outcome moves ending := by
  have hf : Follows o.engine (Engine.wrap o.engine sources buffer).engine _ :=
    follows_perform o.engine (.wrap sources buffer)
  have hm : ∀ answer, (Event.called (.wrap sources buffer) answer).IsMove :=
    fun answer => ⟨_, answer, rfl, rfl⟩
  cases h with
  | closed => exact ⟨_, _, leaves_nothing rfl rfl rfl⟩
  | drained =>
    obtain ⟨he, -, parked, hp⟩ := drain_fields o.markStarted buffer
    obtain ⟨progress, hr⟩ := result_drain o.markStarted buffer
    exact ⟨_, _, leaves_nothing he (by rw [hp]; rfl) hr⟩
  | passed =>
    exact ⟨_, _, leaves_forward (p := (o.pass (Engine.wrap o.engine sources buffer)).engine) hf
      (hm _) rfl⟩
  | refused hc =>
    exact ⟨_, _, leaves_closed hf (by simpa using hm _) FailureKind.noConfusion hc⟩
  | abandoned hc _ _ hresists =>
    exact ⟨_, _, leaves_closed hf (by simpa using hm _) hresists.kind_ne_engine hc⟩
  | @edited progress edit engine _ hslot _ he hx =>
    obtain ⟨hengine, -, parked, hp⟩ := deliver_fields (o.markStarted.markSent.withEngine engine)
      edit.stream (Engine.wrap o.engine sources buffer).buffer progress
    obtain ⟨delivered, hr⟩ := result_deliver (o.markStarted.markSent.withEngine engine) hslot
      edit.stream (Engine.wrap o.engine sources buffer).buffer progress
    rw [← withEngine_engine (o := o.markStarted.markSent) engine, ← hengine] at hx
    refine ⟨_, leaves_corrected hf (by simpa using hm _) hx hr ?_ ?_ ?_⟩
    · rw [hp]
      rfl
    · exact unsent_of_editOf fun hn => by cases he.symm.trans hn
    · rw [hp]
      rfl

theorem Unwraps.leaves {outcome : Outcome (Recorded σ) (List Bytes)}
    (h : Unwraps o source buffers outcome) :
    ∃ moves ending, Leaves Session.peerHelloSeen o outcome moves ending := by
  have hf : ∀ given, Follows o.engine (Engine.unwrap o.engine given buffers).engine _ :=
    fun given => follows_perform o.engine (.unwrap given buffers)
  have hm : ∀ given answer, (Event.called (.unwrap given buffers) answer).IsMove :=
    fun given answer => ⟨_, answer, rfl, rfl⟩
  cases h with
  | closed => exact ⟨_, _, leaves_nothing rfl rfl rfl⟩
  | waited => exact ⟨_, _, leaves_nothing rfl rfl rfl⟩
  | refused hc =>
    exact ⟨_, _, leaves_closed (.refl _) (by simp) FailureKind.noConfusion hc⟩
  | passed hc _ hs => exact ⟨_, _, leaves_forward (hf _) (hm _ _) hs.fields.2.2.2⟩
  | idle => exact ⟨_, _, leaves_forward (hf _) (hm _ _) rfl⟩
  | cut hc => exact ⟨_, _, leaves_closed (hf _) (by simpa using hm _ _) FailureKind.noConfusion hc⟩
  | abandoned hc _ _ _ _ hresists =>
    exact ⟨_, _, leaves_closed (hf _) (by simpa using hm _ _) hresists.kind_ne_engine hc⟩
  | stripped _ hs _ _ _ hx =>
    exact ⟨_, leaves_corrected (hf _) (by simpa using hm _ _) hx rfl rfl hs.unseen rfl⟩

theorem leaves_wrap (o : Overlay (Recorded σ)) (sources : List Bytes) (buffer : Bytes) :
    ∃ moves ending, Leaves Session.ownHelloSent o (o.wrap sources buffer) moves ending := by
  cases hs : o.strategy with
  | overlay => exact (wraps_wrap hs sources buffer).leaves
  | native =>
    rw [wrap_native hs]
    split
    · exact ⟨_, _, leaves_nothing rfl rfl rfl⟩
    · split
      · exact ⟨_, _, leaves_forward (p := o.markStarted)
          (follows_perform o.engine (.wrap sources buffer)) ⟨_, _, rfl, rfl⟩ rfl⟩
      · obtain ⟨he, -, parked, hp⟩ := drain_fields o.markStarted buffer
        obtain ⟨progress, hr⟩ := result_drain o.markStarted buffer
        exact ⟨_, _, leaves_nothing he (by rw [hp]; rfl) hr⟩

theorem leaves_unwrap (o : Overlay (Recorded σ)) (source : Bytes) (buffers : List Bytes) :
    ∃ moves ending, Leaves Session.peerHelloSeen o (o.unwrap source buffers) moves ending := by
  cases hs : o.strategy with
  | overlay => exact (unwraps_unwrap hs source buffers).leaves
  | native =>
    rw [unwrap_native hs]
    split
    · exact ⟨_, _, leaves_nothing rfl rfl rfl⟩
    · exact ⟨_, _, leaves_forward (p := o.markStarted)
        (follows_perform o.engine (.unwrap source buffers)) ⟨_, _, rfl, rfl⟩ rfl⟩

end Overlay
end AlpnOverlay
