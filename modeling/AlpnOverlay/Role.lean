/-! The two sides of a handshake. -/
namespace AlpnOverlay

inductive Role where
  | client
  | server
  deriving DecidableEq, Repr

namespace Role

def name : Role → String
  | client => "Client"
  | server => "Server"

def peer : Role → Role
  | client => server
  | server => client

end Role
end AlpnOverlay
