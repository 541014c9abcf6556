import AlpnOverlay.Failure
import AlpnOverlay.Transcript.Substitution

/-!
The handshake bytes an engine has hashed. After a hello was edited on its way, the engine has
hashed bytes that its peer never saw; the transcript is then taken back and replayed with the hello
as it crossed the wire.
-/
namespace AlpnOverlay

/-- What a holder of a running handshake hash lets others do with it. -/
structure Transcript (σ : Type) where
  /-- Every handshake byte hashed so far. -/
  captured : σ → Bytes
  reset : σ → σ
  append : σ → Bytes → σ

namespace Transcript

variable {σ : Type}

/-- The transcript that a larger state holds in one of its parts. -/
def within {τ : Type} (t : Transcript σ) (get : τ → σ) (set : τ → σ → τ) : Transcript τ where
  captured state := t.captured (get state)
  reset state := set state (t.reset (get state))
  append state bytes := set state (t.append (get state) bytes)

/-- Replaces the first occurrence of the inner hello; a hello that was never hashed is a handshake
failure and leaves the hash alone. -/
def resynchronize (t : Transcript σ) (state : σ) (s : Substitution) : Except Failure σ :=
  if s.isNoop then .ok state
  else
    let captured := t.captured state
    match s.replace? captured with
    | none => .error (.handshake (.transcriptMismatch s.inner.length captured.length))
    | some corrected => .ok (t.append (t.reset state) corrected)

end Transcript
end AlpnOverlay
