import AlpnOverlay.Transcript.Substitution
import AlpnOverlay.Wire.Message
import AlpnOverlay.Wire.Record

/-!
A hello exchanged for another one at the head of a record stream. The records behind the first one
stay as they are.
-/
namespace AlpnOverlay.Flight

open Wire

structure Edit where
  /-- The record that carried the hello. -/
  carrier : Record
  /-- The records that carry the new hello, and what shared its payload. -/
  head : List Record
  tail : List Record
  /-- The hello as the engine knows it. -/
  inner : Bytes
  /-- The hello as it crosses the wire. -/
  outer : Bytes
  deriving DecidableEq, Repr

namespace Edit

/-- The whole new stream. -/
def stream (e : Edit) : Bytes := Record.encodeAll (e.head ++ e.tail)

def headLength (e : Edit) : Nat := (Record.encodeAll e.head).length

def carrierLength (e : Edit) : Nat := e.carrier.size

def substitution (e : Edit) : Substitution := ⟨e.inner, e.outer⟩

end Edit

/-- A stream in two parts: what fits a buffer and what has to wait. -/
structure Delivery where
  ready : Bytes
  deferred : Option Bytes
  deriving DecidableEq, Repr

/-- Cuts a stream where the buffer ends. -/
def Delivery.of (stream : Bytes) (capacity : Nat) : Delivery :=
  if stream.length > capacity then ⟨stream.take capacity, some (stream.drop capacity)⟩
  else ⟨stream, none⟩

theorem Delivery.ready_le (stream : Bytes) (capacity : Nat) :
    (Delivery.of stream capacity).ready.length ≤ capacity := by
  unfold Delivery.of
  split
  · exact List.length_take_le ..
  · exact Nat.le_of_not_gt ‹_›

/-- A payload in records of the given kind with further records behind them, as far as the buffer
takes them. -/
def reframe (header : Record.Header) (payload : Bytes) (tail : List Record) (capacity : Nat) :
    Delivery :=
  .of (Record.encodeAll (Record.carrying header.type header.version payload ++ tail)) capacity

end AlpnOverlay.Flight
