import AlpnOverlay.Proofs.Overlay.Episodes
import AlpnOverlay.Proofs.Overlay.Offered

/-!
How often the engine's transcript is replayed. Each of the two hello flags lets that happen once: in
the call for output that edits the own hello, and in the call with input that takes a selection.
-/
namespace AlpnOverlay

def Call.isWrap : Call → Bool
  | .wrap _ _ => true
  | _ => false

def Call.isUnwrap : Call → Bool
  | .unwrap _ _ => true
  | _ => false

namespace Overlay

open Recorded

variable {σ : Type} [Engine σ] {o : Overlay (Recorded σ)} {call : Call} {calls : List Call}
  {kind : Call → Bool} {latch : Session → Bool}

/-- What one call does to the engine's transcript. -/
def repair (o : Overlay (Recorded σ)) (call : Call) : List Event :=
  (since o.engine (o.perform call).1.engine).filter Event.isRepair

/-- What the calls of a kind do to the engine's transcript in a run. -/
def repairs (o : Overlay (Recorded σ)) (kind : Call → Bool) : List Call → List Event
  | [] => []
  | call :: calls =>
    (if kind call then o.repair call else []) ++ (o.perform call).1.repairs kind calls

/-- The transcript is taken back and replayed. -/
def Replay (events : List Event) : Prop :=
  ∃ bytes, events = [.transcriptReset, .transcriptAppended bytes]

/-- Calls that replay the transcript only while a flag is down, and set it. -/
structure Guarded (σ : Type) [Engine σ] (kind : Call → Bool) (latch : Session → Bool) : Prop where
  stays : ∀ s t : Session, s.Precedes t → latch s = true → latch t = true
  once : ∀ (o : Overlay (Recorded σ)) (call : Call), kind call = true →
    o.repair call = [] ∨ latch o.session = false ∧ latch (o.perform call).1.session = true ∧
      Replay (o.repair call)

omit [Engine σ] in
theorem Leaves.repair_eq {β : Type} {outcome : Outcome (Recorded σ) β} {moves ending : List Event}
    (h : Leaves latch o outcome moves ending) :
    (since o.engine outcome.engine.engine).filter Event.isRepair = [] ∨
      latch o.session = false ∧ latch outcome.engine.session = true ∧
        Replay ((since o.engine outcome.engine.engine).filter Event.isRepair) := by
  have hmoves : moves.filter Event.isRepair = [] := by
    rw [List.filter_eq_nil_iff]
    intro event he
    simp [(h.moves event he).not_repair]
  rw [h.follows.since_eq, List.filter_append, hmoves]
  cases h.ends with
  | goesOn => exact .inl rfl
  | replays bytes _ _ hbefore hafter => exact .inr ⟨hbefore, hafter, bytes, rfl⟩
  | closes => exact .inl rfl

theorem guarded_wrap : Guarded σ Call.isWrap Session.ownHelloSent where
  stays s t h := h.sent
  once o call hk := by
    cases call with
    | wrap sources buffer =>
      obtain ⟨moves, ending, h⟩ := leaves_wrap o sources buffer
      exact h.repair_eq
    | _ => cases hk

theorem guarded_unwrap : Guarded σ Call.isUnwrap Session.peerHelloSeen where
  stays s t h := h.seen
  once o call hk := by
    cases call with
    | unwrap source buffers =>
      obtain ⟨moves, ending, h⟩ := leaves_unwrap o source buffers
      exact h.repair_eq
    | _ => cases hk

/-- Once the flag is set there is nothing left to replay. -/
theorem repairs_of_latched (law : Guarded σ kind latch) (hl : latch o.session = true) :
    o.repairs kind calls = [] := by
  induction calls generalizing o with
  | nil => rfl
  | cons call calls ih =>
    have hafter := law.stays _ _ (step_perform o call).toPrecedes hl
    simp only [repairs, ih hafter, List.append_nil]
    split
    · rename_i hk
      rcases law.once o call hk with hnone | ⟨hdown, -⟩
      · exact hnone
      · cases hdown.symm.trans hl
    · rfl

/-- The calls of such a kind replay the transcript at most once in a run. -/
theorem repairs_once (law : Guarded σ kind latch) (o : Overlay (Recorded σ)) (calls : List Call) :
    o.repairs kind calls = [] ∨ Replay (o.repairs kind calls) := by
  induction calls generalizing o with
  | nil => exact .inl rfl
  | cons call calls ih =>
    by_cases hk : kind call = true
    · simp only [repairs, if_pos hk]
      rcases law.once o call hk with hnone | ⟨-, hup, hreplay⟩
      · rw [hnone, List.nil_append]
        exact ih _
      · rw [repairs_of_latched law hup, List.append_nil]
        exact .inr hreplay
    · simp only [repairs, if_neg hk, List.nil_append]
      exact ih _

/-- A call that moves no bytes leaves the transcript alone. -/
theorem repair_of_still (hm : call.movesBytes = false) : o.repair call = [] := by
  have hforward : ∀ (other : Call) {engine : Recorded σ},
      (Engine.perform o.engine other).1 = engine →
        (since o.engine engine).filter Event.isRepair = [] := by
    rintro other _ rfl
    rw [(follows_perform o.engine other).since_eq]
    rfl
  have hsame : (since o.engine o.engine).filter Event.isRepair = [] := by
    rw [(Follows.refl o.engine).since_eq]
    rfl
  cases call with
  | wrap sources buffer => cases hm
  | unwrap source buffers => cases hm
  | start => exact hforward .start rfl
  | closeInbound => exact hforward .closeInbound rfl
  | closeOutbound => exact hforward .closeOutbound rfl
  | setSelector selector =>
    simp only [repair, perform, setSelector]
    split
    · exact hforward (.setSelector selector) rfl
    · exact hsame
  | setProtocols names =>
    simp only [repair, perform, setProtocols]
    split
    · exact hsame
    · split
      · exact hsame
      · split
        · split
          · rename_i he
            exact hforward (.setProtocols names) (congrArg Prod.fst he)
          · rename_i he
            exact hforward (.setProtocols names) (congrArg Prod.fst he)
        · exact hsame

theorem guarded_still : Guarded σ (fun call => !call.movesBytes) fun _ => true where
  stays _ _ _ := id
  once o call hk := .inl (repair_of_still (by simpa using hk))

/-- Every reachable session is sound, and settled for all that comes later. In a whole run the
transcript is replayed at most once by calls for output and at most once by calls with input. -/
theorem session_invariant {engine : Recorded σ} {config : Config}
    (ho : Overlay.of engine config = .ok o) (first later : List Call) :
    (o.after first).session.Sound ∧
    (o.after first).session.Precedes (o.after (first ++ later)).session ∧
    (o.repairs Call.isWrap first = [] ∨ Replay (o.repairs Call.isWrap first)) ∧
    (o.repairs Call.isUnwrap first = [] ∨ Replay (o.repairs Call.isUnwrap first)) ∧
    o.repairs (fun call => !call.movesBytes) first = [] := by
  refine ⟨sound_run (sound_of ho) first, ?_, repairs_once guarded_wrap o first,
    repairs_once guarded_unwrap o first, repairs_of_latched guarded_still rfl⟩
  rw [after_append]
  exact precedes_run _ later

/-- A client that sends its hello and takes the selection replays its transcript twice. -/
theorem session_invariant_asking :
    let o := writing [(Peer.helloOf .client).encode]
    let calls := [.wrap [] (List.replicate 256 0), .unwrap selecting []]
    (o.after (calls ++ [.setProtocols ["h3"]])).session.selected = some "h2" ∧
      "h2" ∈ (o.after calls).session.protocols ∧
      Replay (o.repairs Call.isWrap calls) ∧ Replay (o.repairs Call.isUnwrap calls) := by
  intro o calls
  have ho : Overlay.of o.engine { protocols := ["h2"], mode := .overlay } = .ok o := rfl
  obtain ⟨hsound, hlater, hwrap, hunwrap, -⟩ :=
    session_invariant ho calls [.setProtocols ["h3"]]
  have hselected : (o.after calls).session.selected = some "h2" := by decide +kernel
  have hseen : (o.after calls).session.peerHelloSeen = true := hsound.looked (by simp [hselected])
  have hnil : ∀ {events : List Event}, events.isEmpty = false → events ≠ [] := by
    rintro _ h rfl
    cases h
  refine ⟨(hlater.decided hseen).trans hselected, hsound.listed _ hselected, ?_, ?_⟩
  · exact hwrap.resolve_left (hnil (by decide +kernel))
  · exact hunwrap.resolve_left (hnil (by decide +kernel))

end Overlay
end AlpnOverlay
