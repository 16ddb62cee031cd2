import Lproxy.Agreement
import Lproxy.Bounds
import Lproxy.Coalesce
import Lproxy.Connection
import Lproxy.Codec
import Lproxy.Crypto.Constructors
import Lproxy.Crypto.Cover
import Lproxy.Crypto.Keysize
import Lproxy.Crypto.Rc4
import Lproxy.Crypto.Xor
import Lproxy.Duplex
import Lproxy.EndToEnd
import Lproxy.Exchange
import Lproxy.Flow
import Lproxy.Handshake
import Lproxy.Keystream
import Lproxy.Keep
import Lproxy.Local.Alive
import Lproxy.Local.Gate
import Lproxy.Local.Greeting
import Lproxy.Local.Hello
import Lproxy.Local.Pump
import Lproxy.Local.Serial
import Lproxy.Log.Binding
import Lproxy.Log.Archive
import Lproxy.Log.Registry
import Lproxy.Log.Rotate
import Lproxy.Negotiation
import Lproxy.Reassembly
import Lproxy.Relaunch
import Lproxy.Server.Alive
import Lproxy.Server.Cancel
import Lproxy.Server.Connect
import Lproxy.Server.Fallback
import Lproxy.Server.Gate
import Lproxy.Server.Phase
import Lproxy.Server.Pump
import Lproxy.Server.Writer
import Lproxy.Socks5.Reply
import Lproxy.Socks5.Request
import Lproxy.Split
import Lproxy.Store
import Lproxy.Transparency
