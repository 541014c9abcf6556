import AlpnOverlay.Overlay

/-! A configuration put together step by step, and laid over an engine when it is done. -/
namespace AlpnOverlay

structure Draft where
  config : Config := {}
  deriving DecidableEq, Repr

namespace Draft

def web : Draft := ⟨.web⟩

/-- Adds a protocol behind those already there. -/
def add (d : Draft) (protocol : String) : Draft :=
  ⟨{ d.config with protocols := d.config.protocols ++ [protocol] }⟩

def withProtocols (d : Draft) (protocols : List String) : Draft := ⟨{ d.config with protocols }⟩

def withMode (d : Draft) (mode : Config.Mode) : Draft := ⟨{ d.config with mode }⟩

def native (d : Draft) : Draft := d.withMode .native

def overlay (d : Draft) : Draft := d.withMode .overlay

/-- Checks the protocols without an engine. -/
def check (d : Draft) : Except Failure Unit := d.config.check.mapError .ofConfig

def build {σ : Type} [Engine σ] (d : Draft) (engine : σ) : Except Failure (Overlay σ) :=
  Overlay.of engine d.config

def describe (d : Draft) : String :=
  Text.record "AlpnEngineBuilder" [Text.field "config" d.config.describe]

end Draft
end AlpnOverlay
