import AlpnOverlay.Proofs.Overlay.Episodes
import AlpnOverlay.Proofs.Overlay.Offered
import AlpnOverlay.Proofs.Overlay.Outcomes

/-!
Output that does not begin like a handshake. A server leaves such bytes to its engine by their first
byte; a client wants whole records of them first, and takes anything else for a broken hello.
-/
namespace AlpnOverlay

open Wire

namespace Flight

variable {data : Bytes} {protocols : List Bytes}

theorem isEditable_of_head {first : Record} {tail : List Record}
    (hh : (Record.encodeAll (first :: tail)).head? ≠ some ContentType.handshake.code) :
    first.isEditable = false := by
  rw [Bool.eq_false_iff]
  intro he
  apply hh
  rw [Record.encodeAll_cons, ← type_of_isEditable he]
  rfl

/-- All that is asked of bytes that are no handshake is that they come in whole records. -/
theorem addOffer_foreign (hh : data.head? ≠ some ContentType.handshake.code) :
    addOffer data protocols = (Record.split data).map fun _ => none := by
  simp only [addOffer, bind, Except.bind]
  cases hs : Record.split data with
  | error e => rfl
  | ok records =>
    cases records with
    | nil => rfl
    | cons first tail =>
      rw [Record.split_eq_ok_iff.1 hs] at hh
      simp only [isEditable_of_head hh, Bool.not_false, if_true]
      rfl

end Flight

namespace Overlay

/-- Output that has left as the engine has produced it. -/
structure Untouched {σ : Type} (reply : Reply σ Bytes Cause) (outcome : Outcome σ Bytes) : Prop where
  result : outcome.result = reply.result.mapError .engine
  buffer : outcome.buffer = reply.buffer
  engine : outcome.engine.engine = reply.engine
  isOpen : outcome.engine.isClosed = false

/-- An open overlay that has nothing to deliver and has not sent its own hello. -/
structure Quiet {σ : Type} (o : Overlay σ) : Prop extends Ready o where
  unsent : o.session.ownHelloSent = false

variable {σ : Type} [Engine σ] {o p : Overlay (Recorded σ)} {calls : List Call} {call : Call}
  {sources buffers : List Bytes} {source buffer : Bytes}

theorem Wraps.outputs {outcome : Outcome (Recorded σ) Bytes} (h : Wraps p sources buffer outcome)
    (hr : Ready p) :
    outcome.engine.engine.outputs = (Engine.wrap p.engine sources buffer).engine.outputs := by
  cases h with
  | closed hc => cases hr.isOpen.symm.trans hc
  | drained _ hp => cases hr.parked.symm.trans hp
  | passed => rfl
  | refused => exact Recorded.outputs_closeOutbound
  | abandoned => exact Recorded.outputs_closeOutbound
  | @edited progress edit engine _ _ _ _ hx =>
    obtain ⟨hengine, -, -⟩ := deliver_fields (p.markStarted.markSent.withEngine engine)
      edit.stream (Engine.wrap p.engine sources buffer).buffer progress
    rw [hengine]
    exact Recorded.outputs_corrects hx

theorem Manages.outputs {outcome : Overlay (Recorded σ) × Answer Failure}
    (h : Manages p call outcome) : outcome.1.engine.outputs = p.engine.outputs := by
  cases h with
  | forwarded hm =>
    rw [withEngine_engine, (Recorded.follows_perform p.engine call).outputs_eq]
    cases call with
    | wrap sources buffer => cases hm
    | _ => exact List.append_nil _
  | listed => rfl
  | refused => rfl

theorem produced_of_firstOutput
    (hl : (Engine.wrap p.engine sources buffer).produced ≤ buffer.length)
    (hf : firstOutput (Engine.wrap p.engine sources buffer).engine = none) :
    (Engine.wrap p.engine sources buffer).produced = 0 := by
  cases hr : (Engine.wrap p.engine sources buffer).result with
  | error cause => rw [Reply.produced, hr]
  | ok progress =>
    have hmem : (Engine.wrap p.engine sources buffer).output ∈
        (Engine.wrap p.engine sources buffer).engine.outputs := by
      rw [Recorded.outputs_wrap_ok hr]
      exact List.mem_append_right _ List.mem_cons_self
    exact produced_of_output_nil hl (by simpa using List.find?_eq_none.1 hf _ hmem)

omit [Engine σ] in
theorem firstOutput_of_follows {r s : Recorded σ} {news : List Event}
    (h : Recorded.Follows r s news) (hf : firstOutput s = none) : firstOutput r = none := by
  rw [firstOutput, h.outputs_eq, List.find?_append, Option.or_eq_none_iff] at hf
  exact hf.1

theorem quiet_wrap (hl : (Engine.wrap p.engine sources buffer).produced ≤ buffer.length)
    (h : Quiet p) (hr : p.role = .client)
    (hf : firstOutput (p.wrap sources buffer).engine.engine = none) :
    Quiet (p.wrap sources buffer).engine := by
  rw [firstOutput, (wraps_wrap h.strategy sources buffer).outputs h.toReady] at hf
  have h0 := produced_of_firstOutput hl hf
  have he : p.editOf (Engine.wrap p.engine sources buffer) = .ok none := if_pos h0
  rw [wrap_passed h.toReady he]
  refine ⟨⟨h.strategy, h.isOpen, h.slot⟩, ?_⟩
  simp [pass, sentAfter, h.unsent, hr, h0]

theorem quiet_unwrap (h : Quiet p) (hr : p.role = .client) :
    Quiet (p.unwrap source buffers).engine := by
  rw [unwrap_unlooked h.strategy h.isOpen hr (.inl h.unsent)]
  exact ⟨⟨h.strategy, h.isOpen, h.slot⟩, h.unsent⟩

theorem quiet_manage (h : Quiet p) (hm : call.movesBytes = false) : Quiet (p.perform call).1 := by
  obtain ⟨names, hsession, -⟩ := session_perform (o := p) hm
  refine ⟨⟨(manages_perform h.strategy hm).strategy.trans h.strategy, ?_, ?_⟩, ?_⟩
  · rw [hsession]
    exact h.isOpen
  · rw [hsession]
    exact h.slot
  · rw [hsession]
    exact h.unsent

/-- Up to its first output that is not empty a client stays as it was made. -/
theorem quiet_run (hs : o.strategy = .overlay) (hr : o.KeepsRole calls .client)
    (hl : ∀ (e : σ) (sources : List Bytes) (buffer : Bytes),
      (Engine.wrap e sources buffer).produced ≤ buffer.length)
    (h0 : Quiet o) : firstOutput (o.after calls).engine = none → Quiet (o.after calls) := by
  refine calls_induction
    (P := fun calls => firstOutput (o.after calls).engine = none → Quiet (o.after calls))
    (fun _ => h0) ?_ ?_ ?_
  · intro first sources buffer hp ih hf
    rw [after_wrap] at hf ⊢
    obtain ⟨_, _, hleaves⟩ := leaves_wrap (o.after first) sources buffer
    exact quiet_wrap (hl ..) (ih (firstOutput_of_follows hleaves.follows hf)) (hr.at_call hp) hf
  · intro first source buffers hp ih hf
    rw [after_unwrap] at hf ⊢
    obtain ⟨_, _, hleaves⟩ := leaves_unwrap (o.after first) source buffers
    exact quiet_unwrap (ih (firstOutput_of_follows hleaves.follows hf)) (hr.at_call hp)
  · intro first call hm _ ih hf
    rw [after_snoc] at hf ⊢
    have hmanages := manages_perform (strategy_run hs first) hm
    rw [firstOutput, hmanages.outputs] at hf
    exact quiet_manage (ih hf) hm

/-- Before its hello a client refuses output that its records cannot be found in. -/
theorem Unsent.wrap_malformed (h : Unsent p) {e : Wire.Error}
    (hne : (Engine.wrap p.engine sources buffer).output ≠ [])
    (hh : (Engine.wrap p.engine sources buffer).output.head? ≠ some ContentType.handshake.code)
    (he : Record.split (Engine.wrap p.engine sources buffer).output = .error e) :
    (p.wrap sources buffer).result = .error (.ofWire e) ∧
      (p.wrap sources buffer).engine.isClosed = true := by
  have hedit := (h.editOf hne).trans (Flight.addOffer_foreign hh)
  rw [he] at hedit
  rw [wrap_refused h.toReady hedit]
  exact ⟨rfl, rfl⟩

theorem Unsent.untouched_iff (h : Unsent p)
    (hne : (Engine.wrap p.engine sources buffer).output ≠ [])
    (hh : (Engine.wrap p.engine sources buffer).output.head? ≠ some ContentType.handshake.code) :
    Untouched (Engine.wrap p.engine sources buffer) (p.wrap sources buffer) ↔
      ∃ records, (Engine.wrap p.engine sources buffer).output = Record.encodeAll records := by
  cases hsplit : Record.split (Engine.wrap p.engine sources buffer).output with
  | error e =>
    refine iff_of_false ?_ ?_
    · intro huntouched
      cases huntouched.isOpen.symm.trans (h.wrap_malformed hne hh hsplit).2
    · rintro ⟨records, hrecords⟩
      cases (Record.split_eq_ok_iff.2 hrecords).symm.trans hsplit
  | ok records =>
    have hedit := (h.editOf hne).trans (Flight.addOffer_foreign hh)
    rw [hsplit] at hedit
    refine iff_of_true ?_ ⟨records, Record.split_eq_ok_iff.1 hsplit⟩
    rw [wrap_passed h.toReady hedit]
    exact ⟨rfl, rfl, rfl, h.isOpen⟩

/-- The first output that is not empty leaves as it is, if it does not begin like a handshake and
consists of whole records. If it does not, the client closes the connection, though a server would
have left the same bytes to its engine. -/
theorem foreign_output_passes_iff {engine : σ} {config : Config}
    (hlaw : ∀ (e : σ) (sources : List Bytes) (buffer : Bytes),
      (Engine.wrap e sources buffer).produced ≤ buffer.length)
    (ho : Overlay.of (⟨engine, []⟩ : Recorded σ) config = .ok o) (hs : o.strategy = .overlay)
    (hr : o.KeepsRole calls .client) (hf : firstOutput (o.after calls).engine = none)
    (hp : (o.after calls).session.protocols ≠ []) (sources : List Bytes) (buffer : Bytes) :
    let p := o.after calls
    let reply := Engine.wrap p.engine sources buffer
    headerLength ≤ reply.output.length →
    reply.output.head? ≠ some ContentType.handshake.code →
      Flight.offer? reply.output = .ok none ∧
      (Untouched reply (p.wrap sources buffer) ↔
        ∃ records, reply.output = Record.encodeAll records) ∧
      ∀ e, Record.split reply.output = .error e →
        (p.wrap sources buffer).result = .error (.ofWire e) ∧
        (p.wrap sources buffer).engine.isClosed = true := by
  intro p reply hlength hhead
  have h0 : Quiet o := by
    obtain rfl := of_eq_ok ho hs
    exact ⟨⟨rfl, rfl, rfl⟩, rfl⟩
  have hquiet : Quiet p := quiet_run hs hr hlaw h0 hf
  have hunsent : Unsent p :=
    ⟨hquiet.toReady, hr calls (List.prefix_refl _), hquiet.unsent, hp⟩
  have hne : reply.output ≠ [] := by
    intro hnil
    rw [hnil] at hlength
    exact absurd hlength (by decide)
  exact ⟨Flight.offer?_foreign hlength hhead, hunsent.untouched_iff hne hhead,
    fun e he => hunsent.wrap_malformed hne hhead he⟩

/-- A client with one protocol in its list whose engine writes these bytes. -/
def emitting (outputs : List Bytes) : Overlay (Recorded Scripted) :=
  ⟨⟨{ role := .client, outputs := outputs.map .record }, []⟩, .overlay, { protocols := ["h2"] }⟩

/-- An alert is a whole record, and goes out. -/
theorem foreign_output_passes_alert :
    let o := emitting [[0x15, 3, 3, 0, 2, 2, 0x28]]
    let p := o.after [.wrap [] []]
    Untouched (Engine.wrap p.engine [] (List.replicate 64 0)) (p.wrap [] (List.replicate 64 0)) := by
  intro o p
  have ho : Overlay.of o.engine { protocols := ["h2"], mode := .overlay } = .ok o := rfl
  have hroles : o.KeepsRole [.wrap [] []] .client := forall_initial (by decide +kernel)
  obtain ⟨-, hpasses, -⟩ := foreign_output_passes_iff scripted_produced_le ho rfl hroles
    (by decide +kernel) (by decide +kernel) [] (List.replicate 64 0) (by decide +kernel)
    (by decide +kernel)
  exact hpasses.2 ⟨[⟨.alert, .tls12, [2, 0x28], by decide⟩], by decide +kernel⟩

/-- A hello in the format of SSL 2.0, with one cipher and an empty session. -/
def oldHello : Bytes :=
  [0x80, 0x1c, 1, 3, 1, 0, 3, 0, 0, 0, 0x10, 0, 0, 0x2f] ++ List.replicate 16 0x11

/-- Such a hello goes past a server's overlay, but not past a client's. -/
theorem foreign_output_refused :
    Flight.offer? oldHello = .ok none ∧
      (Engine.wrap (emitting [oldHello]).engine [] (List.replicate 64 0)).output = oldHello ∧
      ((emitting [oldHello]).wrap [] (List.replicate 64 0)).engine.isClosed = true := by
  decide +kernel

end Overlay
end AlpnOverlay
