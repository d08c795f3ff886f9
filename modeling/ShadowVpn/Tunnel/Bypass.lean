import ShadowVpn.Engine.Building
import ShadowVpn.Net.Messages
import ShadowVpn.Policy.Canonical
import ShadowVpn.Tunnel.Settings

/-! Split tunnelling over the file of a country, which the extension reads for its excluded
routes and the core for its split-DNS table: an address bypasses the tunnel exactly when the
core would hand over a local answer with it, the LAN and the servers apart. -/

namespace ShadowVpn.Tunnel.Bypass
open ShadowVpn.Lib ShadowVpn.Lib.Text ShadowVpn.Lib.Ranges ShadowVpn.Lib.Octets ShadowVpn.Net.Ipv4
open ShadowVpn.Net.Dns ShadowVpn.Net.Messages
open ShadowVpn.Policy.Chnroute ShadowVpn.Policy.Country ShadowVpn.Policy.Canonical
open ShadowVpn.Engine.Config ShadowVpn.Engine.Intercept ShadowVpn.Engine.Building
open ShadowVpn.Tunnel.Routes ShadowVpn.Tunnel.Readers ShadowVpn.Tunnel.Settings

end ShadowVpn.Tunnel.Bypass
