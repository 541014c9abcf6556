import AlpnOverlay.Bytes
import AlpnOverlay.Config.Error
import AlpnOverlay.ProtocolId

/-!
What is negotiated and how: the protocol names in order of preference, and where the negotiation
takes place. A list is valid when it can be sent.
-/
namespace AlpnOverlay

namespace Config

inductive Mode where
  /-- Let the engine negotiate if it can, and edit its hellos otherwise. -/
  | detect
  /-- Only the engine negotiates. -/
  | native
  /-- Always edit the hellos. -/
  | overlay
  deriving DecidableEq, Repr

def Mode.name : Mode → String
  | detect => "Detect"
  | native => "Native"
  | overlay => "Rewrite"

end Config

structure Config where
  protocols : List String := []
  mode : Config.Mode := .detect
  deriving DecidableEq, Repr

namespace Config

def isGraphic (b : UInt8) : Bool := 0x21 ≤ b && b ≤ 0x7e

def checkName (name : String) : Except Error Unit :=
  if name.isEmpty then .error .emptyName
  else if name.utf8ByteSize > maxName then .error (.longName name)
  else if (utf8 name).all isGraphic then .ok ()
  else .error (.unprintableName name)

/-- Checks names one after the other; `earlier` holds those that have been accepted. -/
def checkFrom (earlier : List String) : List String → Except Error Unit
  | [] => .ok ()
  | name :: names =>
    match checkName name with
    | .error e => .error e
    | .ok () =>
      if earlier.contains name then .error (.repeatedName name)
      else checkFrom (name :: earlier) names

/-- The bytes that the names take in a protocol list. -/
def listSize : List String → Nat
  | [] => 0
  | name :: names => 1 + name.utf8ByteSize + listSize names

def checkList (names : List String) : Except Error Unit :=
  match checkFrom [] names with
  | .error e => .error e
  | .ok () => if listSize names > maxList then .error (.longList (listSize names)) else .ok ()

def check (c : Config) : Except Error Unit := checkList c.protocols

/-- Whether there is anything to negotiate. -/
def isEnabled (c : Config) : Bool := !c.protocols.isEmpty

/-- HTTP/2 in front of HTTP/1.1. -/
def web : Config := { protocols := [ProtocolId.http2, ProtocolId.http11] }

def describe (c : Config) : String :=
  Text.record "AlpnConfig"
    [Text.field "protocols" (Text.listed (c.protocols.map Text.quoted)),
      Text.field "mode" c.mode.name]

end Config
end AlpnOverlay
