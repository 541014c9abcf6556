import AlpnOverlay.Bytes

/-!
Hash functions that pad a message to whole blocks and fold a compression function over them: the
digest of a whole message, and a running digest that takes the message in pieces.
-/
namespace AlpnOverlay

structure BlockHash where
  /-- What is carried from block to block. -/
  Chain : Type
  blockLength : Nat
  blockLength_pos : 0 < blockLength
  /-- The bytes that the message length takes at the end of the padding. -/
  countLength : Nat
  initial : Chain
  compress : Chain → Bytes → Chain
  output : Chain → Bytes

namespace BlockHash

variable (h : BlockHash)

/-- What follows a message of `length` bytes: a set bit, as few zeros as possible, and the number
of message bits, to the end of a block. -/
def padding (length : Nat) : Bytes :=
  let zeros := (h.blockLength - (length + 1 + h.countLength) % h.blockLength) % h.blockLength
  0x80 :: (List.replicate zeros 0 ++ BigEndian.encode h.countLength (8 * length))

/-- The whole blocks at the start of `data`. -/
def blocks (data : Bytes) : List Bytes :=
  if _h : (data.take h.blockLength).length < h.blockLength then []
  else data.take h.blockLength :: blocks (data.drop h.blockLength)
termination_by data.length
decreasing_by
  have := h.blockLength_pos
  simp only [List.length_take, List.length_drop] at *
  omega

/-- The digest of a whole message. -/
def digest (message : Bytes) : Bytes :=
  h.output ((h.blocks (message ++ h.padding message.length)).foldl h.compress h.initial)

/-- A digest in the making. -/
structure Running where
  chain : h.Chain
  /-- The bytes behind the last whole block. -/
  pending : Bytes
  length : Nat

namespace Running

variable {h}

def start : Running h := ⟨h.initial, [], 0⟩

/-- Compresses the whole blocks at the start of `data` and keeps the rest. -/
def absorb (chain : h.Chain) (data : Bytes) : h.Chain × Bytes :=
  if _h : (data.take h.blockLength).length < h.blockLength then (chain, data)
  else absorb (h.compress chain (data.take h.blockLength)) (data.drop h.blockLength)
termination_by data.length
decreasing_by
  have := h.blockLength_pos
  simp only [List.length_take, List.length_drop] at *
  omega

def update (r : Running h) (bytes : Bytes) : Running h :=
  let (chain, pending) := absorb r.chain (r.pending ++ bytes)
  ⟨chain, pending, r.length + bytes.length⟩

/-- The digest of everything taken so far. -/
def finish (r : Running h) : Bytes :=
  h.output (absorb r.chain (r.pending ++ h.padding r.length)).1

end Running
end BlockHash
end AlpnOverlay
