import AlpnOverlay.Proofs.Config.Sendable
import AlpnOverlay.Proofs.Flight.Editing
import AlpnOverlay.Proofs.Peer.Turns
import AlpnOverlay.Proofs.Transcript.FirstMatch

/-!
The hellos of the script as they cross the wire, with the protocols that an overlay names in them.
-/
namespace AlpnOverlay.Peer

open Wire Config

variable {role : Role} {names : List String} {turns : List Turn} {data rest : Bytes}

/-- The data of an extension that names protocols. -/
def listing (names : List String) : Bytes :=
  BigEndian.encode 2 (ProtocolList.entries (names.map utf8)).length ++
    ProtocolList.entries (names.map utf8)

/-- The hello of a side with the protocols that it names, if there are any. -/
def wireHello (role : Role) (names : List String) : Hello :=
  if names = [] then helloOf role else (helloOf role).add ⟨Extension.alpn, listing names⟩

theorem wireHello_nil : wireHello role [] = helloOf role := rfl

theorem wireHello_of_ne (h : names ≠ []) :
    wireHello role names = (helloOf role).add ⟨Extension.alpn, listing names⟩ := if_neg h

theorem sender_wireHello (role : Role) (names : List String) :
    (wireHello role names).sender = role := by
  simp only [wireHello]
  split <;> cases role <;> rfl

theorem wellFormed_helloOf (role : Role) : (helloOf role).WellFormed := by
  cases role with
  | client => exact ⟨rfl, by decide, ⟨by decide, by decide, by decide, by decide⟩, by decide⟩
  | server => exact ⟨rfl, by decide, ⟨by decide, by decide⟩, by decide⟩

theorem length_listing (names : List String) : (listing names).length = 2 + listSize names := by
  rw [listing, List.length_append, BigEndian.length_encode, length_entries]

/-- Protocols that one extension can name. -/
structure Named (names : List String) : Prop where
  sendable : ∀ name ∈ names, Sendable name
  size : listSize names ≤ 2 ^ 14

theorem encode_listing (h : Named names) (hne : names ≠ []) :
    ProtocolList.encode (names.map utf8) = .ok (listing names) := by
  refine ProtocolList.encode_eq_ok_iff.2 ⟨by simpa using hne, ?_, ?_, rfl⟩
  · intro name hn
    obtain ⟨protocol, hp, rfl⟩ := List.mem_map.1 hn
    exact (h.sendable protocol hp).fits
  · rw [length_entries]
    exact Nat.le_trans h.size (by decide)

theorem extends_wireHello (role : Role) (h : Named names) (hne : names ≠ []) :
    Flight.Extends (helloOf role) (wireHello role names) (names.map utf8) (listing names) := by
  have hw := wellFormed_helloOf role
  have hx : (Extension.encodeAll ((helloOf role).extensions.getD [] ++
      [⟨Extension.alpn, listing names⟩])).length ≤ maxLength16 := by
    have hs := h.size
    have hr : (Extension.encodeAll ((helloOf role).extensions.getD [])).length = 5 := by
      cases role <;> rfl
    simp only [Extension.encodeAll_append, Extension.encodeAll_cons, List.length_append,
      Extension.length_encode, Extension.size, length_listing, hr]
    simp only [Extension.encodeAll, List.flatMap_nil, List.length_nil, maxLength16]
    omega
  refine ⟨hw, ?_, by cases role <;> rfl, encode_listing h hne, wireHello_of_ne hne⟩
  rw [wireHello_of_ne hne]
  exact ⟨hw.random, hw.sessionId, hw.choices, hx⟩

theorem wellFormed_wireHello (role : Role) (h : Named names) :
    (wireHello role names).WellFormed := by
  by_cases hne : names = []
  · rw [hne]
    exact wellFormed_helloOf role
  · exact (extends_wireHello role h hne).newFits

theorem length_wireHello_le (role : Role) (names : List String) :
    (wireHello role names).encode.length ≤ (helloOf role).encode.length + 6 + listSize names := by
  by_cases hne : names = []
  · rw [hne, wireHello_nil]
    omega
  · obtain ⟨es, he⟩ : ∃ es, (helloOf role).extensions = some es := by
      cases role <;> exact ⟨_, rfl⟩
    rw [wireHello_of_ne hne, Hello.length_encode_add _ he, Extension.size, length_listing]
    omega

theorem find?_wireHello (role : Role) (names : List String) :
    (wireHello role names).find? Extension.alpn =
      if names = [] then none else some ⟨Extension.alpn, listing names⟩ := by
  split
  · rename_i hne
    rw [hne]
    cases role <;> rfl
  · rename_i hne
    rw [wireHello_of_ne hne]
    cases role <;> rfl

theorem remove_wireHello (role : Role) (names : List String) (hne : names ≠ []) :
    (wireHello role names).remove Extension.alpn = helloOf role := by
  rw [wireHello_of_ne hne]
  cases role <;> rfl

theorem find?_helloOf (role : Role) : (helloOf role).find? Extension.alpn = none := by
  cases role <;> rfl

/-- What follows the server's hello in its record. -/
def trailer (done : Bool) : Bytes := if done then helloDone else []

/-- A client's hello is accepted with and without an offer. -/
theorem check_clientHello {r : Record} (h : Named names) (ht : r.type = .handshake)
    (hp : r.payload = (wireHello .client names).encode) :
    (partway role (.receive .clientHello :: turns) data).check .clientHello r = .ok () := by
  have hw := wellFormed_wireHello .client h
  have hparse := Hello.parse_encode hw
  rw [sender_wireHello] at hparse
  rw [check_frame (by decide) ht hp (Hello.length_body hw)]
  rw [Hello.encode] at hparse
  simp only [checkMessage, hparse]
  rfl

/-- A server's hello is accepted only without a selection. -/
theorem check_serverHello {r : Record} {done : Bool} (ht : r.type = .handshake)
    (hp : r.payload = (helloOf .server).encode ++ trailer done) :
    (partway role (.receive (.serverHello done) :: turns) data).check (.serverHello done) r =
      .ok () := by
  have hw := wellFormed_helloOf .server
  have hs := Flight.split_encode hw (trailer done)
  have hparse : Hello.parse .server (helloOf .server).encode = .ok (helloOf .server) :=
    Hello.parse_encode hw
  have hhas : (helloOf .server).has Extension.alpn = false := rfl
  have hdone : (done && trailer done != helloDone) = false := by
    cases done <;> rfl
  have hi : Item.serverHello done ≠ .changeCipherSpec := fun h => by cases h
  simp only [check, hi, ht, hp, hs, checkMessage, hparse, Flight.mapError_ok, hhas, hdone, bind,
    Except.bind, if_false, Bool.false_eq_true, ne_eq, not_true_eq_false]

section Search

variable {high low : UInt8} {tail : Bytes}

/-- How the server's hello begins. -/
def mark : Bytes := [2, 0, 0]

theorem clear_of_zero_not_mem (h : 0 ∉ data) (ht : tail.head? ≠ some 0) :
    Clear mark data tail := by
  induction data with
  | nil => trivial
  | cons b data ih =>
    obtain ⟨-, hd⟩ := not_or.1 (mt List.mem_cons.2 h)
    refine ⟨?_, ih hd⟩
    intro hp
    have hp := (List.cons_prefix_cons.1 hp).2
    cases data with
    | nil =>
      cases tail with
      | nil => cases hp.length_le
      | cons c tail =>
        obtain ⟨rfl, -⟩ := List.cons_prefix_cons.1 hp
        exact ht rfl
    | cons c data =>
      obtain ⟨rfl, -⟩ := List.cons_prefix_cons.1 hp
      exact hd List.mem_cons_self

/-- A two-byte length is no beginning of the server's hello when something else follows it. -/
theorem clear_length (n : Nat) (ht : tail.head? ≠ some 0) :
    Clear mark (BigEndian.encode 2 n) tail := by
  rw [Record.encode2]
  cases tail with
  | nil =>
    refine ⟨fun hp => ?_, fun hp => ?_, trivial⟩ <;> simp [mark] at hp
  | cons c tail =>
    have hc : c ≠ 0 := fun h => ht (h ▸ rfl)
    refine ⟨fun hp => hc ?_, fun hp => hc ?_, trivial⟩
    · have hp := (List.cons_prefix_cons.1 (List.cons_prefix_cons.1 hp).2).2
      exact (List.cons_prefix_cons.1 hp).1.symm
    · have hp := (List.cons_prefix_cons.1 hp).2
      exact (List.cons_prefix_cons.1 hp).1.symm

/-- Nor are the two lengths in front of a list of names. -/
theorem clear_lengths {n : Nat} (h0 : 0 < n) (hn : n < 2 ^ 15) :
    Clear mark (BigEndian.encode 2 (2 + n)) (BigEndian.encode 2 n ++ tail) := by
  have hmod : ∀ {k : Nat}, (0 : UInt8) = UInt8.ofNat k → k % 256 = 0 := by
    intro k h
    have := congrArg UInt8.toNat h
    rw [UInt8.toNat_ofNat', UInt8.toNat_zero] at this
    omega
  have htwo : ∀ {k : Nat}, (2 : UInt8) = UInt8.ofNat k → k % 256 = 2 := by
    intro k h
    have := congrArg UInt8.toNat h
    simp only [UInt8.toNat_ofNat', UInt8.reduceToNat] at this
    omega
  rw [Record.encode2, Record.encode2]
  refine ⟨fun hp => ?_, fun hp => ?_, trivial⟩
  · obtain ⟨h₁, hp⟩ := List.cons_prefix_cons.1 hp
    obtain ⟨h₂, hp⟩ := List.cons_prefix_cons.1 hp
    have h₃ := (List.cons_prefix_cons.1 hp).1
    have h₁ := htwo h₁
    have h₂ := hmod h₂
    have h₃ := hmod h₃
    omega
  · obtain ⟨h₁, hp⟩ := List.cons_prefix_cons.1 hp
    obtain ⟨h₂, hp⟩ := List.cons_prefix_cons.1 hp
    have h₃ := (List.cons_prefix_cons.1 hp).1
    have h₁ := htwo h₁
    have h₂ := hmod h₂
    have h₃ := hmod h₃
    omega

theorem encode_wireHello (hne : names ≠ []) :
    ∃ g, (wireHello .client names).encode =
      1 :: BigEndian.encode 3 (wireHello .client names).body.length ++
        ((helloOf .client).encodeFields ++ (BigEndian.encode 2 g ++
          ([0xff, 1, 0, 1, 0, 0, 0x10] ++ (BigEndian.encode 2 (listing names).length ++
            listing names)))) := by
  rw [wireHello_of_ne hne]
  refine ⟨(Extension.encodeAll ((helloOf .client).extensions.getD [] ++
    [⟨Extension.alpn, listing names⟩])).length, ?_⟩
  have hall : Extension.encodeAll ((helloOf .client).extensions.getD [] ++
      [⟨Extension.alpn, listing names⟩]) =
      [0xff, 1, 0, 1, 0, 0, 0x10] ++ (BigEndian.encode 2 (listing names).length ++
        listing names) := by
    rw [Extension.encodeAll_append, Extension.encodeAll_cons, Extension.encode, List.append_assoc]
    simp only [Extension.encodeAll, List.flatMap_nil, List.append_nil]
    rfl
  rw [← hall]
  rfl

theorem clear_wireHello (h : Named names) :
    Clear mark (wireHello .client names).encode (2 :: tail) := by
  by_cases hne : names = []
  · rw [hne, wireHello_nil]
    exact clear_of_not_mem (by decide)
  · obtain ⟨g, he⟩ := encode_wireHello hne
    have hle := length_wireHello_le .client names
    have h114 : (helloOf .client).encode.length = 114 := by decide
    have hsize := h.size
    have hpos : 0 < listSize names := by
      obtain ⟨name, others, rfl⟩ := List.exists_cons_of_ne_nil hne
      simp only [listSize]
      omega
    rw [h114, Hello.length_encode, Message.headerLength] at hle
    have hthree : BigEndian.encode 3 (wireHello .client names).body.length =
        0 :: BigEndian.encode 2 (wireHello .client names).body.length := by
      have hzero : (wireHello .client names).body.length / 256 / 256 = 0 := by omega
      rw [Message.encode3, hzero]
      rfl
    have hhead : ∀ {c : UInt8} {more : Bytes}, c ≠ 0 → (c :: more).head? ≠ some 0 :=
      fun hc h => hc (Option.some.inj h)
    have hentries : (ProtocolList.entries (names.map utf8) ++ 2 :: tail).head? ≠ some 0 := by
      have hz := zero_not_mem_entries h.sendable
      cases hes : ProtocolList.entries (names.map utf8) with
      | nil => exact hhead (by decide)
      | cons c more =>
        rw [hes] at hz
        exact hhead fun hc => hz (hc ▸ List.mem_cons_self)
    have hlist : listing names = BigEndian.encode 2 (listSize names) ++
        ProtocolList.entries (names.map utf8) := by rw [listing, length_entries]
    rw [he, hthree, length_listing, hlist,
      show ∀ xs ys : Bytes, 1 :: 0 :: xs ++ ys = [1, 0] ++ (xs ++ ys) from fun _ _ => rfl]
    simp only [clear_append_iff, List.append_assoc]
    exact ⟨clear_of_not_mem (by decide), clear_length _ (hhead (c := 3) (by decide)),
      clear_of_not_mem (by decide), clear_length _ (hhead (c := 0xff) (by decide)),
      clear_of_not_mem (by decide), clear_lengths hpos (by omega), clear_length _ hentries,
      clear_of_zero_not_mem (zero_not_mem_entries h.sendable) (hhead (by decide))⟩

/-- The server's hello does not occur in the client's. -/
theorem not_earlier_wireHello (h : Named names) :
    ¬ Earlier (helloOf .server).encode (wireHello .client names).encode :=
  not_earlier_of_clear (by decide) (clear_wireHello h)

end Search

end AlpnOverlay.Peer
