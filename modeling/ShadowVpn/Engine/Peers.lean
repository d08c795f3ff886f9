import Mathlib.Data.List.Flatten
import ShadowVpn.Engine.Origins

/-! Two sessions that face each other with one password, cipher and framing: what one of them
accepts against what the other hands to its writer, whatever the network between them does. -/

namespace ShadowVpn.Engine.Peers
open ShadowVpn.Lib.Octets ShadowVpn.Lib.Transition ShadowVpn.Lib.Histories ShadowVpn.Wire.Crypto
open ShadowVpn.Wire.Obfs ShadowVpn.Engine.Intercept ShadowVpn.Engine.Datagram
open ShadowVpn.Engine.DataPlane ShadowVpn.Engine.Books ShadowVpn.Engine.Turns ShadowVpn.Engine.Pipe
open ShadowVpn.Engine.Origins

section Far

variable {prims : Primitives} {carrier : Carrier} {events : List (Event Session Action)} {s : Session}

end Far

section Near

variable {prims : Primitives} {cipher : Cipher} {password : Bytes} {one two : Option Obfuscator}
  {interceptor : Option Interceptor} {events : List (Event Session Action)} {s : Session}

end Near

section Between

variable {prims : Primitives}

end Between

section Sample

end Sample

end ShadowVpn.Engine.Peers
