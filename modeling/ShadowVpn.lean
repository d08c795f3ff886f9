import ShadowVpn.Lib.Prefix
import ShadowVpn.Lib.Ranges
import ShadowVpn.Lib.Search
import ShadowVpn.Lib.Text
import ShadowVpn.Lib.Octets
import ShadowVpn.Net.Ipv4
import ShadowVpn.Policy.Chnroute
import ShadowVpn.Policy.Country
import ShadowVpn.Tunnel.Routes
import ShadowVpn.Tunnel.Readers
import ShadowVpn.Tunnel.Settings
import ShadowVpn.Net.Udp
import ShadowVpn.Net.Dns
import ShadowVpn.Engine.Intercept
import ShadowVpn.Wire.Crypto
import ShadowVpn.Wire.Obfs
import ShadowVpn.Engine.Datagram
import ShadowVpn.Lib.Transition
import ShadowVpn.Lib.Histories
import ShadowVpn.Tunnel.Provider
import ShadowVpn.Engine.DataPlane
import ShadowVpn.Engine.Moves
import ShadowVpn.Engine.Answers
import ShadowVpn.Engine.Direct
import ShadowVpn.Engine.Waiting
import ShadowVpn.Engine.Lifecycle
import ShadowVpn.Engine.Books
import ShadowVpn.Engine.Counters
import ShadowVpn.Engine.Running
import ShadowVpn.Tunnel.Debounce
import ShadowVpn.Lib.Json
import ShadowVpn.Lib.Hex
import ShadowVpn.App.Profiles
import ShadowVpn.App.Store
import ShadowVpn.App.Tolerance
import ShadowVpn.Lib.Utf8
import ShadowVpn.Engine.Config
import ShadowVpn.Tunnel.ConfigJson
import ShadowVpn.App.Form
import ShadowVpn.App.Starting
import ShadowVpn.Tunnel.Carrier
import ShadowVpn.App.Connection
import ShadowVpn.Lib.Files
import ShadowVpn.Policy.Cache
import ShadowVpn.Lib.Panic
import ShadowVpn.Net.Guarded
import ShadowVpn.Net.Inspect
import ShadowVpn.Lib.Tiling
import ShadowVpn.Policy.Blocks
import ShadowVpn.Policy.Generator
import ShadowVpn.Lib.OnesComplement
import ShadowVpn.Net.Checksum
import ShadowVpn.Net.Survival
import ShadowVpn.Net.Hello
import ShadowVpn.Wire.Image
import ShadowVpn.Engine.Building
import ShadowVpn.Net.Messages
import ShadowVpn.Engine.Calls
import ShadowVpn.Engine.Deciding
import ShadowVpn.Engine.Fallback
import ShadowVpn.Tunnel.Traffic
import ShadowVpn.Engine.Turns
import ShadowVpn.Engine.Pipe
import ShadowVpn.Engine.Origins
import ShadowVpn.Engine.Peers
import ShadowVpn.Engine.Numbers
import ShadowVpn.Lib.Walk
import ShadowVpn.Net.Names
import ShadowVpn.Net.Queries
import ShadowVpn.Policy.Canonical
import ShadowVpn.Tunnel.Bypass
import ShadowVpn.Lib.Keyed
import ShadowVpn.Tunnel.Reading
import ShadowVpn.Tunnel.Completions
import ShadowVpn.App.Editing
import ShadowVpn.Lib.Lines
import ShadowVpn.Engine.Logging
import ShadowVpn.App.LogsView
import ShadowVpn.Lib.Nudge
import ShadowVpn.App.Snapshots
import ShadowVpn.Net.Requests
import ShadowVpn.Net.Flows
import ShadowVpn.Policy.Resolving
import ShadowVpn.Engine.Phases
import ShadowVpn.Tunnel.Writers
