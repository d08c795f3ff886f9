import ShadowVpn.Engine.Calls
import ShadowVpn.Net.Messages

/-! The split-DNS decision on a well-formed direct answer: what `try_intercept` returns to the
client, and what it leaves in the pending table, by the route file and the first address found. -/

namespace ShadowVpn.Engine.Deciding
open ShadowVpn.Lib ShadowVpn.Lib.Octets ShadowVpn.Lib.Text ShadowVpn.Lib.Transition ShadowVpn.Net.Ipv4
open ShadowVpn.Net.Udp ShadowVpn.Net.Dns ShadowVpn.Net.Messages ShadowVpn.Policy.Chnroute
open ShadowVpn.Wire.Crypto ShadowVpn.Engine.Intercept ShadowVpn.Engine.Datagram
open ShadowVpn.Engine.DataPlane ShadowVpn.Engine.Moves ShadowVpn.Engine.Calls
open ShadowVpn.Engine.Direct (body)

end ShadowVpn.Engine.Deciding
