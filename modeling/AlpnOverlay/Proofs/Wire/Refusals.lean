import AlpnOverlay.Proofs.Wire.Reading
import AlpnOverlay.Wire.Hello

/-!
How reading fails. Inside a message nothing can be missing that more input would bring, so whatever
is refused there is refused for a contradiction.
-/
namespace AlpnOverlay.Wire

variable {α β : Type} {e : Error}

/-- An error that names a contradiction. -/
def Error.IsFault (e : Error) : Prop := ∃ fault, e = .malformed fault

theorem Error.IsFault.not_underflow (h : e.IsFault) : e.isUnderflow = false := by
  obtain ⟨fault, rfl⟩ := h
  rfl

namespace Read

/-- A reading step that fails for contradictions only. -/
def Faults (x : Read α) : Prop := ∀ c e d, x c = .error e d → e.IsFault

variable {x : Read α} {f : α → Read β} {width count : Nat} {field : String}

theorem faults_bind (hx : Faults x) (hf : ∀ a, Faults (f a)) : Faults (x >>= f) := by
  intro c e d h
  simp only [bind, EStateM.bind] at h
  split at h
  · exact hf _ _ _ _ h
  · rename_i hfail
    cases h
    exact hx _ _ _ hfail

theorem faults_pure (a : α) : Faults (pure a : Read α) := by
  intro c e d h
  cases h

theorem faults_fault (fault : Fault) : Faults (Read.fault fault : Read α) := by
  intro c e d h
  cases h
  exact ⟨fault, rfl⟩

theorem faults_isEmpty : Faults isEmpty := by
  intro c e d h
  cases h

theorem faults_rest : Faults rest := by
  intro c e d h
  cases h

theorem faults_take : Faults (take count field) := by
  intro c e d h
  unfold take at h
  split at h
  · cases h
  · cases h
    exact ⟨_, rfl⟩

theorem faults_byte : Faults (byte field) := by
  intro c e d h
  unfold byte at h
  split at h
  · cases h
    exact ⟨_, rfl⟩
  · cases h

theorem faults_number : Faults (number width field) :=
  faults_bind faults_take fun _ => faults_pure _

theorem faults_vector : Faults (vector width field) :=
  faults_bind faults_number fun _ => faults_take

theorem isFault_of_on {data : Bytes} (hx : Faults x) (h : on data x = .error e) : e.IsFault := by
  unfold on at h
  split at h
  · cases h
  · rename_i hfail
    cases h
    exact hx _ _ _ hfail

end Read

namespace Extension

theorem faults_read : Read.Faults read :=
  Read.faults_bind Read.faults_number fun _ =>
    Read.faults_bind Read.faults_vector fun _ => Read.faults_pure _

theorem isFault_of_readAll {c : Cursor} (h : readAll c = .error e) : e.IsFault := by
  fun_induction readAll c generalizing e with
  | case1 => cases h
  | case2 c _ e' d hr =>
    cases h
    exact faults_read _ _ _ hr
  | case3 c _ x d hr e' ht ih =>
    cases h
    exact ih ht
  | case4 => cases h

end Extension

namespace ProtocolList

theorem faults_readName : Read.Faults readName := by
  refine Read.faults_bind Read.faults_vector fun name => ?_
  split
  · exact Read.faults_fault _
  · exact Read.faults_pure _

theorem isFault_of_readNames {c : Cursor} (h : readNames c = .error e) : e.IsFault := by
  fun_induction readNames c generalizing e with
  | case1 => cases h
  | case2 c _ e' d hr =>
    cases h
    exact faults_readName _ _ _ hr
  | case3 c _ name d hr e' ht ih =>
    cases h
    exact ih ht
  | case4 => cases h

theorem faults_readList : Read.Faults readList := by
  refine Read.faults_bind Read.faults_vector fun list => ?_
  refine Read.faults_bind Read.faults_isEmpty fun atEnd => ?_
  split
  · exact Read.faults_pure _
  · exact Read.faults_fault _

theorem isFault_of_decode {data : Bytes} (h : decode data = .error e) : e.IsFault := by
  simp only [decode] at h
  split at h
  · rename_i hr
    cases h
    exact Read.isFault_of_on faults_readList hr
  · split at h
    · rename_i hr
      cases h
      exact isFault_of_readNames hr
    · cases h
      exact ⟨_, rfl⟩
    · cases h

end ProtocolList

theorem Message.Header.isFault_of_parse {data : Bytes} (h : Message.Header.parse data = .error e) :
    e.IsFault := by
  unfold Message.Header.parse at h
  split at h
  · cases h
  · cases h
    exact ⟨_, rfl⟩

namespace Hello

theorem faults_readSessionId : Read.Faults readSessionId := by
  refine Read.faults_bind Read.faults_vector fun sessionId => ?_
  split
  · exact Read.faults_fault _
  · exact Read.faults_pure _

theorem faults_readChoices (sender : Role) : Read.Faults (readChoices sender) := by
  cases sender with
  | client =>
    refine Read.faults_bind Read.faults_vector fun suites => ?_
    split
    · exact Read.faults_fault _
    · exact Read.faults_bind Read.faults_vector fun _ => Read.faults_pure _
  | server =>
    exact Read.faults_bind Read.faults_take fun _ =>
      Read.faults_bind Read.faults_take fun _ => Read.faults_pure _

theorem faults_readBlock : Read.Faults readBlock := by
  refine Read.faults_bind Read.faults_isEmpty fun atEnd => ?_
  split
  · exact Read.faults_pure _
  · refine Read.faults_bind Read.faults_vector fun block => ?_
    refine Read.faults_bind Read.faults_rest fun left => ?_
    split
    · split
      · exact Read.faults_pure _
      · rename_i e hp
        intro c e' d h
        cases h
        exact Extension.isFault_of_readAll hp
    · exact Read.faults_fault _

theorem faults_read (sender : Role) : Read.Faults (read sender) := by
  refine Read.faults_bind Read.faults_byte fun _ => Read.faults_bind Read.faults_byte fun _ => ?_
  refine Read.faults_bind Read.faults_take fun _ => ?_
  refine Read.faults_bind faults_readSessionId fun _ => ?_
  refine Read.faults_bind (faults_readChoices sender) fun _ => ?_
  exact Read.faults_bind faults_readBlock fun _ => Read.faults_pure _

/-- A message that is no hello contradicts itself or the layout; it never asks for more. -/
theorem isFault_of_parse {sender : Role} {message : Bytes} (h : parse sender message = .error e) :
    e.IsFault := by
  simp only [parse] at h
  split at h
  · rename_i hh
    cases h
    exact Message.Header.isFault_of_parse hh
  · split at h
    · cases h
      exact ⟨_, rfl⟩
    · split at h
      · cases h
        exact ⟨_, rfl⟩
      · exact Read.isFault_of_on (faults_read sender) h

end Hello
end AlpnOverlay.Wire
