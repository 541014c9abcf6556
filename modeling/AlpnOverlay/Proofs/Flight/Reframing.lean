import AlpnOverlay.Flight.Edit
import AlpnOverlay.Proofs.Wire.Stream
import Mathlib.Algebra.Order.Floor.Div

/-!
A payload in records of its own. It is cut into plaintexts that every header can announce, and no
byte is lost or moved where the stream is cut again, at the end of the buffer.
-/
namespace AlpnOverlay

namespace Wire.Record

variable {header : Header} {r : Record} {rs : List Record} {type : ContentType} {version : Version}
  {payload : Bytes}

/-- Writes plaintexts one behind the other, each behind a header made for it. A plaintext that is too
long for a record is refused. -/
def Header.writeAll (h : Header) : List Bytes → Except Error Bytes
  | [] => .ok []
  | plaintext :: more => do
    let own ← h.withLength plaintext.length
    return own.encode ++ plaintext ++ (← h.writeAll more)

theorem Header.withLength_eq_header (ht : r.type = header.type) (hv : r.version = header.version)
    (hl : r.payload.length ≤ maxPlaintext) : header.withLength r.payload.length = .ok r.header := by
  rw [Header.withLength, dif_pos hl, Record.header]
  simp only [ht, hv]

theorem Header.writeAll_payloads (ht : ∀ r ∈ rs, r.type = header.type)
    (hv : ∀ r ∈ rs, r.version = header.version) (hl : ∀ r ∈ rs, r.payload.length ≤ maxPlaintext) :
    header.writeAll (rs.map Record.payload) = .ok (encodeAll rs) := by
  induction rs with
  | nil => rfl
  | cons r rs ih =>
    have hown := Header.withLength_eq_header (ht r List.mem_cons_self) (hv r List.mem_cons_self)
      (hl r List.mem_cons_self)
    have hmore := ih (fun s hs => ht s (List.mem_cons_of_mem r hs))
      (fun s hs => hv s (List.mem_cons_of_mem r hs)) (fun s hs => hl s (List.mem_cons_of_mem r hs))
    rw [List.map_cons, Header.writeAll, hown, hmore, encodeAll_cons]
    rfl

theorem carrying_ne_nil : carrying type version payload ≠ [] := by
  apply List.length_pos_iff.1
  rw [length_carrying]
  exact Nat.succ_pos _

/-- Only the last of the records made for a payload may have room left. -/
theorem length_of_mem_dropLast_carrying (h : r ∈ (carrying type version payload).dropLast) :
    r.payload.length = maxPlaintext := by
  fun_induction carrying type version payload with
  | case1 => cases h
  | case2 payload hl ih =>
    rw [List.dropLast_cons_of_ne_nil carrying_ne_nil] at h
    rcases List.mem_cons.1 h with rfl | h
    · rw [List.length_take]
      omega
    · exact ih h

theorem length_carrying_eq_max :
    (carrying type version payload).length = max 1 (payload.length ⌈/⌉ maxPlaintext) := by
  rw [length_carrying, Nat.ceilDiv_eq_add_pred_div]
  simp only [maxPlaintext]
  omega

end Wire.Record

namespace Flight

open Wire

variable {data : Bytes} {tail : List Record}

/-- A stream in two parts, the first of which takes all that the buffer can hold. -/
structure Delivery.Cuts (d : Delivery) (stream : Bytes) (capacity : Nat) : Prop where
  joined : d.ready ++ d.deferred.getD [] = stream
  filled : d.ready.length = min capacity stream.length
  whole_iff : d.deferred = none ↔ stream.length ≤ capacity

theorem Delivery.cuts_of (stream : Bytes) (capacity : Nat) :
    (Delivery.of stream capacity).Cuts stream capacity := by
  unfold Delivery.of
  split
  · rename_i hlong
    refine ⟨List.take_append_drop capacity stream, List.length_take, ?_⟩
    exact iff_of_false nofun (Nat.not_le.2 hlong)
  · rename_i hfits
    have hle : stream.length ≤ capacity := Nat.le_of_not_lt hfits
    exact ⟨List.append_nil stream, (Nat.min_eq_right hle).symm, iff_of_true rfl hle⟩

/-- Whatever the buffer holds, a payload goes into one stream of records, each of which a header can
announce. All of them but the last are full, there is one for every `maxPlaintext` bytes that are
begun, and an empty one only for an empty payload. The payload and the records behind it are read
back from the stream, and the buffer gets as much of it as it can take. -/
theorem reframed_without_loss (header : Record.Header) (payload : Bytes)
    (ht : Record.split data = .ok tail) :
    ∃ (head : List Record) (written : Bytes),
      header.writeAll (head.map Record.payload) = .ok written ∧
      (∀ capacity, (reframe header payload tail capacity).Cuts (written ++ data) capacity) ∧
      Record.split (written ++ data) = .ok (head ++ tail) ∧
      head.length = max 1 (payload.length ⌈/⌉ maxPlaintext) ∧
      (∀ r ∈ head, r.type = header.type ∧ r.version = header.version) ∧
      (∀ r ∈ head.dropLast, r.payload.length = maxPlaintext) ∧
      (∀ r ∈ head, r.payload = [] → payload = []) ∧
      head.flatMap Record.payload = payload := by
  let head := Record.carrying header.type header.version payload
  have hstream : Record.encodeAll head ++ data = Record.encodeAll (head ++ tail) := by
    rw [Record.encodeAll_append, Record.eq_encodeAll_of_split ht]
  have hwritten : header.writeAll (head.map Record.payload) = .ok (Record.encodeAll head) :=
    Record.Header.writeAll_payloads (fun r hr => (Record.of_mem_carrying hr).1)
      (fun r hr => (Record.of_mem_carrying hr).2.1) (fun r hr => (Record.of_mem_carrying hr).2.2)
  refine ⟨head, _, hwritten, ?_, ?_, Record.length_carrying_eq_max, ?_, ?_, ?_,
    Record.flatMap_payload_carrying ..⟩
  · intro capacity
    rw [hstream]
    exact Delivery.cuts_of _ capacity
  · rw [hstream]
    exact Record.split_encodeAll _
  · intro r hr
    obtain ⟨htype, hversion, -⟩ := Record.of_mem_carrying hr
    exact ⟨htype, hversion⟩
  · intro r hr
    exact Record.length_of_mem_dropLast_carrying hr
  · intro r hr hempty
    by_contra hpayload
    have hpos := Record.payload_pos_of_mem_carrying hpayload hr
    rw [hempty] at hpos
    cases hpos

/-- A payload that is ten bytes too long for one record, and another record behind it. -/
theorem reframed_in_two_records :
    let header : Record.Header := ⟨.handshake, .tls12, 0, Nat.zero_le _⟩
    let payload : Bytes := List.replicate (maxPlaintext + 10) 0xab
    let notice : Record := ⟨.changeCipherSpec, .tls12, [1], by decide⟩
    let delivery := reframe header payload [notice] 20
    delivery.ready.length = 20 ∧ ∃ rest full short,
      delivery.deferred = some rest ∧
        Record.split (delivery.ready ++ rest) = .ok [full, short, notice] ∧
      full.payload.length = maxPlaintext ∧ short.payload.length = 10 := by
  intro header payload notice delivery
  obtain ⟨head, written, -, hcuts, hsplit, hcount, -, hfull, -, hall⟩ :=
    reframed_without_loss header payload (Record.split_encodeAll [notice])
  have hlength : payload.length = maxPlaintext + 10 := List.length_replicate
  rw [hlength, Nat.ceilDiv_eq_add_pred_div] at hcount
  obtain ⟨full, short, rfl⟩ := List.length_eq_two.1 hcount
  have hlong : full.payload.length = maxPlaintext := hfull full List.mem_cons_self
  have hshort : short.payload.length = 10 := by
    have hsum := congrArg List.length hall
    simp only [List.flatMap_cons, List.flatMap_nil, List.append_nil, List.length_append] at hsum
    omega
  have hstream : 20 < (written ++ Record.encodeAll [notice]).length := by
    rw [Record.eq_encodeAll_of_split hsplit, Record.length_encodeAll, Record.sum_size,
      List.flatMap_append, hall]
    simp only [List.length_append, hlength, maxPlaintext]
    omega
  obtain ⟨hjoined, hfilled, hwhole⟩ : delivery.Cuts _ 20 := hcuts 20
  refine ⟨hfilled.trans (Nat.min_eq_left (Nat.le_of_lt hstream)), ?_⟩
  cases hd : delivery.deferred with
  | none => exact absurd (hwhole.1 hd) (Nat.not_le.2 hstream)
  | some rest =>
    rw [hd, Option.getD_some] at hjoined
    refine ⟨rest, full, short, rfl, ?_, hlong, hshort⟩
    rw [hjoined]
    exact hsplit

end Flight
end AlpnOverlay
