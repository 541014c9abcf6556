import AlpnOverlay.Engine.Recorded
import AlpnOverlay.Proofs.Overlay.Runs

/-!
The record of an engine. Every call adds itself to it, and a transcript that is put right adds its
replay.
-/
namespace AlpnOverlay

namespace Event

/-- Something is done to the transcript. -/
def isRepair : Event → Bool
  | .transcriptReset | .transcriptAppended _ => true
  | .called _ _ => false

/-- The engine is told to close its side. -/
def isClosing : Event → Bool
  | .called .closeOutbound _ => true
  | _ => false

/-- A call that moves bytes has reached the engine. -/
def IsMove (event : Event) : Prop :=
  ∃ call answer, event = .called call answer ∧ call.movesBytes = true

theorem IsMove.not_repair {event : Event} (h : event.IsMove) : event.isRepair = false := by
  obtain ⟨call, answer, rfl, -⟩ := h
  rfl

theorem IsMove.not_closing {event : Event} (h : event.IsMove) : event.isClosing = false := by
  obtain ⟨call, answer, rfl, hm⟩ := h
  cases call with
  | closeOutbound => cases hm
  | _ => rfl

end Event

namespace Recorded

variable {σ : Type} {r s t : Recorded σ} {xs ys : List Event}

/-- A record with what has happened since an earlier state of it. -/
def Follows (r s : Recorded σ) (news : List Event) : Prop := s.events = r.events ++ news

theorem Follows.refl (r : Recorded σ) : Follows r r [] := (List.append_nil _).symm

theorem Follows.trans (h : Follows r s xs) (h' : Follows s t ys) : Follows r t (xs ++ ys) := by
  rw [Follows, h', h, List.append_assoc]

/-- What has happened since an earlier state. -/
def since (r s : Recorded σ) : List Event := s.events.drop r.events.length

theorem Follows.since_eq (h : Follows r s xs) : since r s = xs := by
  rw [since, h, List.drop_left]

/-- How often the engine was told to close its side. -/
def closings (r : Recorded σ) : Nat := r.events.countP Event.isClosing

theorem Follows.closings_eq (h : Follows r s xs) :
    s.closings = r.closings + xs.countP Event.isClosing := by
  rw [closings, h, List.countP_append]
  rfl

theorem Follows.outputs_eq (h : Follows r s xs) :
    s.outputs = r.outputs ++ outputs ⟨r.engine, xs⟩ := by
  rw [outputs, h, List.filterMap_append]
  rfl

theorem Follows.received_eq (h : Follows r s xs) :
    s.received = r.received ++ received ⟨r.engine, xs⟩ := by
  rw [received, calls, h, List.filterMap_append, List.filterMap_append]
  rfl

variable [Engine σ]

theorem follows_perform (r : Recorded σ) (call : Call) :
    Follows r (Engine.perform r call).1 [.called call (Engine.perform r call).2] := by
  cases call <;> rfl

theorem follows_corrects {edit : Flight.Edit} (h : Overlay.Corrects r edit s) :
    Follows r s [] ∨ ∃ bytes, Follows r s [.transcriptReset, .transcriptAppended bytes] := by
  rcases h.eq_or_replayed with hsame | ⟨t, bytes, ht, rfl⟩
  · rw [hsame]
    exact .inl (.refl r)
  · obtain ⟨u, -, rfl⟩ := Option.map_eq_some_iff.1 ht
    exact .inr ⟨bytes, by simp [Follows, transcript, after]⟩

theorem outputs_corrects {edit : Flight.Edit} (h : Overlay.Corrects r edit s) :
    s.outputs = r.outputs := by
  rcases follows_corrects h with hs | ⟨bytes, hs⟩
  · exact hs.outputs_eq.trans (List.append_nil _)
  · exact hs.outputs_eq.trans (List.append_nil _)

theorem received_corrects {edit : Flight.Edit} (h : Overlay.Corrects r edit s) :
    s.received = r.received := by
  rcases follows_corrects h with hs | ⟨bytes, hs⟩
  · exact hs.received_eq.trans (List.append_nil _)
  · exact hs.received_eq.trans (List.append_nil _)

end Recorded

end AlpnOverlay
