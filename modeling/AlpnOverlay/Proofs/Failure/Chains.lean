import AlpnOverlay.Failure
import Mathlib.Logic.Relation

/-!
What a failure goes back to, whatever stands in between. A question about the causes is answered
from the whole chain, so a failure can be made the cause of others without changing the answer.
-/
namespace AlpnOverlay

namespace Cause

variable {c d : Cause}

/-- One cause goes back to another, in any number of steps. -/
def LeadsTo : Cause → Cause → Prop := Relation.ReflTransGen fun c d => c.source? = some d

theorem leadsTo_iff : c.LeadsTo d ↔ c = d ∨ ∃ next, c.source? = some next ∧ next.LeadsTo d :=
  Relation.ReflTransGen.cases_head_iff

theorem leadsTo_of_source {next : Cause} (h : c.source? = some next) :
    c.LeadsTo d ↔ c = d ∨ next.LeadsTo d := by
  rw [leadsTo_iff, h]
  simp

/-- A cause that goes back to nothing is the end of its chain. -/
theorem leadsTo_of_last (h : c.source? = none) : c.LeadsTo d ↔ c = d := by
  rw [leadsTo_iff, h]
  simp

theorem chain_of_source {next : Cause} (h : c.source? = some next) : c.chain = c :: next.chain := by
  cases c with
  | failureOf | foreign | transport =>
    cases h
    rfl
  | _ => cases h

theorem chain_of_last (h : c.source? = none) : c.chain = [c] := by
  cases c with
  | failureOf | foreign | transport => cases h
  | _ => rfl

theorem mem_chain_of_source {next : Cause} (h : c.source? = some next)
    (hnext : d ∈ next.chain ↔ next.LeadsTo d) : d ∈ c.chain ↔ c.LeadsTo d := by
  rw [chain_of_source h, List.mem_cons, hnext, leadsTo_of_source h, eq_comm]

theorem mem_chain_of_last (h : c.source? = none) : d ∈ c.chain ↔ c.LeadsTo d := by
  rw [chain_of_last h, List.mem_singleton, leadsTo_of_last h, eq_comm]

/-- The chain ends where nothing is left to go back to, and not before. -/
theorem mem_chain_iff : d ∈ c.chain ↔ c.LeadsTo d := by
  induction c with
  | failureOf kind next ih => exact mem_chain_of_source rfl ih
  | foreign text description next ih => exact mem_chain_of_source rfl ih
  | transport text => exact mem_chain_of_source rfl (mem_chain_of_last rfl)
  | _ => exact mem_chain_of_last rfl

theorem eq_of_isMalformed (h : c.isMalformed = true) :
    ∃ fault, c = .wire (.malformed fault) := by
  unfold isMalformed at h
  split at h
  · exact ⟨_, rfl⟩
  · cases h

theorem eq_of_isTranscriptMismatch (h : c.isTranscriptMismatch = true) :
    ∃ helloLength transcriptLength, c = .transcriptMismatch helloLength transcriptLength := by
  unfold isTranscriptMismatch at h
  split at h
  · exact ⟨_, _, rfl⟩
  · cases h

end Cause

/-- What a cause can be wrapped in. -/
inductive Layer where
  | failure (kind : FailureKind)
  /-- An error of someone else. -/
  | foreign (text description : String)

namespace Layer

def around : Layer → Cause → Cause
  | failure kind, cause => .failureOf kind cause
  | foreign text description, cause => .foreign text description cause

/-- What is said of a cause in the layer, given what is said of the cause alone. -/
def text : Layer → String → String
  | failure kind, inner => kind.label ++ ": " ++ inner
  | foreign text _, _ => text

theorem message_around (layer : Layer) (cause : Cause) :
    (layer.around cause).message = layer.text cause.message := by
  cases layer <;> rfl

theorem message_layers (layers : List Layer) (cause : Cause) :
    (layers.foldr around cause).message = layers.foldr text cause.message := by
  induction layers with
  | nil => rfl
  | cons layer layers ih => rw [List.foldr_cons, message_around, ih, List.foldr_cons]

theorem source?_around (layer : Layer) (cause : Cause) :
    (layer.around cause).source? = some cause := by
  cases layer <;> rfl

/-- A question that no layer answers with yes is passed on through all of them. -/
theorem any_layers {p : Cause → Bool} (hp : ∀ (layer : Layer) cause, p (layer.around cause) = false)
    (layers : List Layer) (cause : Cause) :
    (layers.foldr around cause).chain.any p = cause.chain.any p := by
  induction layers with
  | nil => rfl
  | cons layer layers ih =>
    rw [List.foldr_cons, Cause.chain_of_source (layer.source?_around _), List.any_cons, hp, ih,
      Bool.false_or]

end Layer

namespace Failure

variable {f g : Failure} {d : Cause}

/-- A cause is among those that a failure goes back to. -/
def GoesBackTo (f : Failure) (d : Cause) : Prop := ∃ c, f.cause = some c ∧ c.LeadsTo d

theorem mem_causes_iff : d ∈ f.causes ↔ f.GoesBackTo d := by
  obtain ⟨kind, cause⟩ := f
  cases cause with
  | none => simp [causes, GoesBackTo]
  | some cause => simp [causes, GoesBackTo, Cause.mem_chain_iff]

theorem any_causes_iff {p : Cause → Bool} :
    f.causes.any p = true ↔ ∃ d, f.GoesBackTo d ∧ p d = true := by
  simp only [List.any_eq_true, mem_causes_iff]

theorem isMalformed_iff :
    f.isMalformed = true ↔ ∃ fault, f.GoesBackTo (.wire (.malformed fault)) := by
  rw [isMalformed, any_causes_iff]
  constructor
  · rintro ⟨d, hd, hm⟩
    obtain ⟨fault, rfl⟩ := Cause.eq_of_isMalformed hm
    exact ⟨fault, hd⟩
  · rintro ⟨fault, hd⟩
    exact ⟨_, hd, rfl⟩

theorem isTranscriptMismatch_iff : f.isTranscriptMismatch = true ↔
    ∃ helloLength transcriptLength,
      f.GoesBackTo (.transcriptMismatch helloLength transcriptLength) := by
  rw [isTranscriptMismatch, any_causes_iff]
  constructor
  · rintro ⟨d, hd, hm⟩
    obtain ⟨helloLength, transcriptLength, rfl⟩ := Cause.eq_of_isTranscriptMismatch hm
    exact ⟨helloLength, transcriptLength, hd⟩
  · rintro ⟨helloLength, transcriptLength, hd⟩
    exact ⟨_, hd, rfl⟩

theorem hasKind_iff {kind : FailureKind} : f.hasKind kind = true ↔ kind = f.kind := by
  rw [hasKind, beq_iff_eq, eq_comm]

/-- The question that is asked about a kind. -/
def isOf : FailureKind → Failure → Bool
  | .configuration => isConfiguration
  | .handshake => isHandshake
  | .environment => isEnvironment
  | .engine => isEngine
  | .unsupported => isUnsupported
  | .notNegotiated => isNotNegotiated

/-- Of the six questions, the one about the kind itself is answered with yes. -/
theorem isOf_iff {kind : FailureKind} : isOf kind f = true ↔ kind = f.kind := by
  rw [← hasKind_iff]
  cases kind <;> exact Iff.rfl

theorem message_of_cause {cause : Cause} (h : f.cause = some cause) :
    f.message = f.kind.label ++ ": " ++ cause.message := by
  rw [message, toCause, h]
  rfl

theorem message_of_none (h : f.cause = none) : f.message = f.kind.label := by
  rw [message, toCause, h]
  rfl

/-- `g` is of one kind and answers as `f` does, which stands behind it as `said`. -/
structure Covers (g f : Failure) (kind : FailureKind) (said : String) : Prop where
  malformed : g.isMalformed = f.isMalformed
  transcriptMismatch : g.isTranscriptMismatch = f.isTranscriptMismatch
  kinds : ∀ k, g.hasKind k = true ↔ k = kind
  message : g.message = kind.label ++ ": " ++ said

theorem chain_toCause (f : Failure) : f.toCause.chain = f.toCause :: f.causes := by
  obtain ⟨kind, cause⟩ := f
  cases cause with
  | none => rfl
  | some cause => rfl

/-- A question that neither a failure nor a layer answers with yes goes through to the causes. -/
theorem any_causes_dueTo {p : Cause → Bool}
    (hlayer : ∀ (layer : Layer) cause, p (layer.around cause) = false)
    (hfailure : p f.toCause = false) (g : Failure) (layers : List Layer) :
    (g.dueTo (layers.foldr Layer.around f.toCause)).causes.any p = f.causes.any p := by
  have hcauses : (g.dueTo (layers.foldr Layer.around f.toCause)).causes =
      (layers.foldr Layer.around f.toCause).chain := rfl
  rw [hcauses, Layer.any_layers hlayer, chain_toCause, List.any_cons, hfailure, Bool.false_or]

theorem isMalformed_toCause (f : Failure) : f.toCause.isMalformed = false := by
  rw [toCause]
  split <;> rfl

theorem isTranscriptMismatch_toCause (f : Failure) : f.toCause.isTranscriptMismatch = false := by
  rw [toCause]
  split <;> rfl

theorem covers_dueTo (f g : Failure) (layers : List Layer) :
    (g.dueTo (layers.foldr Layer.around f.toCause)).Covers f g.kind
      (layers.foldr Layer.text f.message) := by
  refine ⟨?_, ?_, fun k => hasKind_iff, ?_⟩
  · apply any_causes_dueTo _ f.isMalformed_toCause
    intro layer cause
    cases layer <;> rfl
  · apply any_causes_dueTo _ f.isTranscriptMismatch_toCause
    intro layer cause
    cases layer <;> rfl
  · rw [message_of_cause rfl, Layer.message_layers]
    rfl

/-- The failure as it comes out of overlays that only hand it on, `height` of them. -/
def relayed : Nat → Failure → Failure
  | 0, f => f
  | height + 1, f => .engine (relayed height f).toCause

theorem covers_relayed (f : Failure) (height : Nat) :
    (f.relayed (height + 1)).Covers f .engine (f.relayed height).message := by
  have hstep : ∀ n, (f.relayed (n + 1)).Covers (f.relayed n) .engine (f.relayed n).message :=
    fun n => covers_dueTo (f.relayed n) (f.relayed (n + 1)) []
  induction height with
  | zero => exact hstep 0
  | succ height ih =>
    have h := hstep (height + 1)
    exact ⟨h.malformed.trans ih.malformed, h.transcriptMismatch.trans ih.transcriptMismatch,
      h.kinds, h.message⟩

end Failure
end AlpnOverlay
