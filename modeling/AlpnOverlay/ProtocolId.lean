/-! Registered names of application protocols. -/
namespace AlpnOverlay.ProtocolId

def http10 : String := "http/1.0"
def http11 : String := "http/1.1"
def http2 : String := "h2"
/-- HTTP/2 over cleartext, never valid inside TLS. -/
def http2Cleartext : String := "h2c"
def http3 : String := "h3"
def spdy31 : String := "spdy/3.1"
def acmeTls1 : String := "acme-tls/1"

end AlpnOverlay.ProtocolId
