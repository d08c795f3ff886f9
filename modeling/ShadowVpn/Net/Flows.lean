import ShadowVpn.Net.Queries
import ShadowVpn.Net.Requests

/-! The flow that an IPv4 packet is for, as `describe` of `inspect.rs` names it: packets with any options
around a DNS message, the start of a TLS stream or the start of an HTTP request. -/

namespace ShadowVpn.Net.Flows
open ShadowVpn.Lib.Octets ShadowVpn.Lib.Text ShadowVpn.Lib.Panic
open ShadowVpn.Net.Inspect ShadowVpn.Net.Messages ShadowVpn.Net.Guarded ShadowVpn.Net.Requests
open ShadowVpn.Net.Dns (asciiLower)

/-- Up to ten words of header options. -/
structure Options where
  bytes : Bytes
  short : bytes.length ≤ 40
  words : 4 ∣ bytes.length

/-- The length of a header of five words and these options, in words. -/
def Options.nibble (options : Options) : BitVec 4 := BitVec.ofNat 4 (5 + options.bytes.length / 4)

/-- A byte of two nibbles. -/
def nibbles (high low : BitVec 4) : Byte := high ++ low

/-- An IPv4 header: from the type of service to the time to live, and the checksum and the addresses. -/
structure Ipv4Header where
  service : Bytes
  protocol : Byte
  addresses : Bytes
  options : Options
  eight : service.length = 8
  ten : addresses.length = 10

def Ipv4Header.encode (h : Ipv4Header) : Bytes :=
  nibbles 4 h.options.nibble :: (h.service ++ h.protocol :: (h.addresses ++ h.options.bytes))

structure UdpHeader where
  source : BitVec 16
  port : BitVec 16
  lengthAndChecksum : Bytes
  four : lengthAndChecksum.length = 4

def UdpHeader.encode (u : UdpHeader) : Bytes := bytes16 u.source ++ (bytes16 u.port ++ u.lengthAndChecksum)

/-- A TCP header: the sequence numbers, and from the flags to the urgent pointer. -/
structure TcpHeader where
  source : BitVec 16
  port : BitVec 16
  numbers : Bytes
  reserved : BitVec 4
  control : Bytes
  options : Options
  eight : numbers.length = 8
  seven : control.length = 7

def TcpHeader.encode (t : TcpHeader) : Bytes :=
  bytes16 t.source ++ (bytes16 t.port ++ (t.numbers ++ nibbles t.options.nibble t.reserved ::
    (t.control ++ t.options.bytes)))

section Framing

end Framing

section Flows

variable (h : Ipv4Header) (body : Bytes)

end Flows

end ShadowVpn.Net.Flows
