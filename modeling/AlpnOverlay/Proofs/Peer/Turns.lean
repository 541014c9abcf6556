import AlpnOverlay.Peer
import AlpnOverlay.Proofs.Digest.Streaming
import AlpnOverlay.Proofs.Wire.Layout
import AlpnOverlay.Proofs.Wire.Stream

/-!
The turns of a peer. A peer is where its script and the bytes it has hashed put it, and what it
sends is what the other side accepts as long as both have hashed the same.
-/
namespace AlpnOverlay.Peer

open Wire

variable {role : Role} {turns : List Turn} {item : Item} {items : List Item}
  {data buffer payload rest : Bytes} {sources buffers : List Bytes} {type : ContentType}

/-- A peer with `turns` ahead of it that has hashed `data`. -/
def partway (role : Role) (turns : List Turn) (data : Bytes) : Peer :=
  { role, turns, hash := .of data }

theorem start_eq (role : Role) (resumed : Bool) :
    start role resumed = partway role (turnsOf role resumed) [] := by
  simp only [start, partway, RunningHash.of_nil]

/-- What a side sends after it has hashed `data`. -/
def written (role : Role) (data : Bytes) (item : Item) : ContentType × Bytes :=
  (partway role [] data).encode item

/-- What has been hashed after a record. -/
def grown (data : Bytes) (type : ContentType) (payload : Bytes) : Bytes :=
  if type = .handshake then data ++ payload else data

theorem encode_partway : (partway role turns data).encode item = written role data item := by
  cases item <;> rfl

theorem advance_partway :
    (partway role turns data).advance type payload =
      partway role turns.tail (grown data type payload) := by
  simp only [advance, partway, grown]
  split
  · rw [RunningHash.update_of]
  · rfl

/-- No record of the script is longer than the client's hello. -/
theorem length_written_le (role : Role) (data : Bytes) (item : Item) :
    (written role data item).2.length ≤ 114 := by
  cases item with
  | clientHello =>
    have h : (helloOf .client).encode.length ≤ 114 := by decide
    exact h
  | serverHello done =>
    have h : ((helloOf .server).encode ++ if done then helloDone else []).length ≤ 114 := by
      cases done <;> decide
    exact h
  | clientKeyExchange =>
    have h : (Message.frame .clientKeyExchange (List.replicate 66 0x42)).length ≤ 114 := by decide
    exact h
  | changeCipherSpec =>
    have h : [(1 : UInt8)].length ≤ 114 := by decide
    exact h
  | finished =>
    have hl : ((partway role [] data).proof role).length ≤ 32 := Digest.length_sha256_le _
    have hf : (written role data .finished).2.length =
        Message.headerLength + ((partway role [] data).proof role).length :=
      Message.length_frame ..
    simp only [Message.headerLength] at hf
    omega

theorem payload_le (role : Role) (data : Bytes) (item : Item) :
    (written role data item).2.length ≤ maxPayload :=
  Nat.le_trans (length_written_le ..) (by decide)

/-- The record in which a side sends an item. -/
def sentRecord (role : Role) (data : Bytes) (item : Item) : Record :=
  ⟨(written role data item).1, .tls12, (written role data item).2, payload_le ..⟩

theorem size_sentRecord_le (role : Role) (data : Bytes) (item : Item) :
    (sentRecord role data item).size ≤ 119 := by
  have := length_written_le role data item
  simp only [Record.size, headerLength, sentRecord]
  omega

/-- What has been hashed after an item. -/
def grownBy (role : Role) (data : Bytes) (item : Item) : Bytes :=
  grown data (written role data item).1 (written role data item).2

/-- The records of a flight. -/
def flight (role : Role) : (data : Bytes) → List Item → List Record
  | _, [] => []
  | data, item :: items => sentRecord role data item :: flight role (grownBy role data item) items

/-- What has been hashed after a flight. -/
def grownOver (role : Role) (data : Bytes) (items : List Item) : Bytes :=
  items.foldl (grownBy role) data

theorem wrap_send (hb : (sentRecord role data item).size ≤ buffer.length) :
    (partway role (.send item :: turns) data).wrap sources buffer =
      ⟨partway role turns (grownBy role data item),
        (sentRecord role data item).encode ++ buffer.drop (sentRecord role data item).size,
        .ok ⟨.ok, (partway role turns []).nextPhase, 0, (sentRecord role data item).size⟩⟩ := by
  have hout : (partway role (.send item :: turns) data).outgoing? sources =
      some ((written role data item).1, (written role data item).2, 0) := by
    rw [← encode_partway]
    rfl
  have hrecord : recordOf (written role data item).1 (written role data item).2 =
      (sentRecord role data item).encode := rfl
  have hlen : ¬ buffer.length < (sentRecord role data item).size := Nat.not_lt.2 hb
  have hopen : (partway role (.send item :: turns) data).closed = false := rfl
  have hturns : (partway role (.send item :: turns) data).turns.isEmpty = false := rfl
  simp only [wrap, hopen, hout, hrecord, Record.length_encode, hlen, hturns, advance_partway,
    Bool.false_eq_true, if_false]
  rfl

theorem unwrap_receive {r : Record}
    (hc : (partway role (.receive item :: turns) data).check item r = .ok ()) :
    (partway role (.receive item :: turns) data).unwrap (r.encode ++ rest) buffers =
      ⟨partway role turns (grown data r.type r.payload), buffers,
        .ok ⟨.ok, (partway role turns []).nextPhase, r.size, 0⟩⟩ := by
  have hfirst : Record.first (r.encode ++ rest) = .ok (r, rest) := Record.first_eq_ok_iff.2 rfl
  have hopen : (partway role (.receive item :: turns) data).closed = false := rfl
  have hturns : (partway role (.receive item :: turns) data).turns = .receive item :: turns := rfl
  simp only [unwrap, hopen, hfirst, hturns, hc, advance_partway, Bool.false_eq_true, if_false]
  rfl

/-- A whole message in a record of its own is checked as a message. -/
theorem check_frame {p : Peer} {messageType : MessageType} {body : Bytes} {r : Record}
    (hi : item ≠ .changeCipherSpec) (ht : r.type = .handshake)
    (hp : r.payload = Message.frame messageType body) (hb : body.length ≤ Message.maxBody) :
    p.check item r = p.checkMessage item (Message.frame messageType body) [] := by
  have hs := @Message.split_frame messageType body hb []
  rw [List.append_nil] at hs
  simp only [check, hi, if_false, ht, hp, hs, ne_eq, not_true_eq_false]

/-- An item that follows the hellos. -/
def Item.Follows (item : Item) : Prop :=
  item = .clientKeyExchange ∨ item = .changeCipherSpec ∨ item = .finished

instance (item : Item) : Decidable item.Follows :=
  inferInstanceAs (Decidable (_ ∨ _ ∨ _))

/-- What follows the hellos is accepted by a side that has hashed the same. -/
theorem check_written (hi : item.Follows) :
    (partway role (.receive item :: turns) data).check item (sentRecord role.peer data item) =
      .ok () := by
  rcases hi with rfl | rfl | rfl
  · rw [check_frame (by decide) rfl rfl (by decide)]
    rfl
  · rfl
  · have hl := length_written_le role.peer data .finished
    have hf : (written role.peer data .finished).2 =
        Message.frame .finished ((partway role.peer [] data).proof role.peer) := rfl
    rw [hf, Message.length_frame] at hl
    rw [check_frame (by decide) rfl hf (by simp only [Message.maxBody]; omega)]
    have hproof : (partway role (.receive .finished :: turns) data).proof role.peer =
        (partway role.peer [] data).proof role.peer := rfl
    have hdrop : ∀ body, (Message.frame .finished body).drop Message.headerLength = body :=
      fun _ => rfl
    have hcode : ∀ body, (Message.frame .finished body).headD 0 = MessageType.finished.code :=
      fun _ => rfl
    simp only [checkMessage, hcode, hdrop]
    rw [show (partway role (.receive .finished :: turns) data).role = role from rfl, hproof]
    simp

end AlpnOverlay.Peer
