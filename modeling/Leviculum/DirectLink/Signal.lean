import Leviculum.Lib.Bytes

/-! The signals of the direct-link upgrade, and the addresses they carry. -/

namespace Leviculum.DirectLink

abbrev SessionId := FixedBytes 16

inductive IpAddr where
  | v4 (octets : FixedBytes 4)
  | v6 (octets : FixedBytes 16)
  deriving DecidableEq

inductive SocketAddr where
  | v4 (ip : FixedBytes 4) (port : UInt16)
  | v6 (ip : FixedBytes 16) (port : UInt16) (flow scope : UInt32)
  deriving DecidableEq

namespace SocketAddr

def ip : SocketAddr → IpAddr
  | v4 ip _ => .v4 ip
  | v6 ip _ _ _ => .v6 ip

def port : SocketAddr → UInt16
  | v4 _ port => port
  | v6 _ port _ _ => port

/-- `SocketAddr::new`: flow and scope are zero. -/
def new : IpAddr → UInt16 → SocketAddr
  | .v4 ip, port => v4 ip port
  | .v6 ip, port => v6 ip port 0 0

end SocketAddr

/-- How a node learns its reflexive address. -/
inductive ProbeProtocol where
  | rnsp
  | stun
  deriving DecidableEq

inductive Signal where
  | request (session : SessionId) (facilitator initiatorPublic : SocketAddr) (protocol : ProbeProtocol)
      (initiatorLocal : List SocketAddr) (commit : Bool) (hostPayload : Option Bytes)
  | accept (session : SessionId)
  | reject (session : SessionId) (reason : UInt8)
  | ready (session : SessionId) (responderPublic : SocketAddr) (responderLocal : List SocketAddr) (commit : Bool)
  | complete (session : SessionId)
  deriving DecidableEq

def Signal.session : Signal → SessionId
  | request session .. => session
  | accept session => session
  | reject session _ => session
  | ready session .. => session
  | complete session => session

def rejectUnsupported : UInt8 := 0x03
def rejectPunchFailed : UInt8 := 0x10
def rejectGlare : UInt8 := 0x11

end Leviculum.DirectLink
