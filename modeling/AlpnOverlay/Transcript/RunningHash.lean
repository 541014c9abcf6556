import AlpnOverlay.Digest.Sha
import AlpnOverlay.Text.Braced
import AlpnOverlay.Transcript

/-!
A running handshake hash that keeps the bytes it was fed, so that they can be captured and
replayed.
-/
namespace AlpnOverlay

structure RunningHash where
  algorithm : Digest.Algorithm
  running : BlockHash.Running algorithm.blockHash
  data : Bytes

namespace RunningHash

def start (algorithm : Digest.Algorithm) : RunningHash := ⟨algorithm, .start, []⟩

/-- Feeds handshake bytes, message headers included. -/
def update (h : RunningHash) (bytes : Bytes) : RunningHash :=
  { h with running := h.running.update bytes, data := h.data ++ bytes }

/-- The digest of everything fed so far; the hash goes on from where it is. -/
def current (h : RunningHash) : Bytes := h.running.finish

/-- The number of bytes fed so far. -/
def length (h : RunningHash) : Nat := h.data.length

def reset (h : RunningHash) : RunningHash := start h.algorithm

def transcript : Transcript RunningHash where
  captured h := h.data
  reset := reset
  append := update

def describe (h : RunningHash) : String :=
  Text.openRecord "HandshakeHash"
    [Text.field "algorithm" h.algorithm.name, Text.field "len" (toString h.data.length)]

end RunningHash
end AlpnOverlay
