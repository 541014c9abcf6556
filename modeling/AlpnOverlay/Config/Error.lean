import AlpnOverlay.Text.Braced
import AlpnOverlay.Text.Quoted

/-! Why a protocol list is refused. -/
namespace AlpnOverlay.Config

inductive Category where
  | invalidProtocol
  | invalidParameter
  | conflict
  deriving DecidableEq, Repr

def Category.name : Category → String
  | invalidProtocol => "InvalidProtocol"
  | invalidParameter => "InvalidParameter"
  | conflict => "Conflict"

def Category.label : Category → String
  | invalidProtocol => "Invalid protocol identifier"
  | invalidParameter => "Invalid configuration parameter"
  | conflict => "Configuration conflict"

/-- The greatest number of bytes in one name. -/
def maxName : Nat := 255

/-- The greatest number of bytes of all names, each with the byte for its length: what is left of
a 16-bit length when the list has its own length inside. -/
def maxList : Nat := 0xffff - 2

inductive Error where
  | emptyName
  | longName (name : String)
  | unprintableName (name : String)
  | repeatedName (name : String)
  | longList (size : Nat)
  /-- Anything else, in the words of who reports it. -/
  | stated (category : Category) (text : String)
  deriving DecidableEq, Repr

namespace Error

def category : Error → Category
  | emptyName | longName _ | unprintableName _ => .invalidProtocol
  | repeatedName _ => .conflict
  | longList _ => .invalidParameter
  | stated category _ => category

def detail : Error → String
  | emptyName => "protocol identifier cannot be empty"
  | longName name => s!"{String.ofList (name.toList.take 16)}... exceeds {maxName} bytes"
  | unprintableName name => Text.quoted name ++ " must be printable ASCII"
  | repeatedName name => name ++ " listed more than once"
  | longList size => s!"protocol list encodes to {size} bytes, limit is {maxList}"
  | stated _ text => text

def message (e : Error) : String := e.category.label ++ ": " ++ e.detail

def describe (e : Error) : String := Text.applied e.category.name (Text.quoted e.detail)

end Error
end AlpnOverlay.Config
