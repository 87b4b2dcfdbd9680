import Cloudmqtt.Base.Broadcast
import Cloudmqtt.Base.Canonical
import Cloudmqtt.Base.Covering
import Cloudmqtt.Base.Drain
import Cloudmqtt.Base.Emit
import Cloudmqtt.Base.Exchange
import Cloudmqtt.Base.FirstMatch
import Cloudmqtt.Base.Frames
import Cloudmqtt.Base.Framing
import Cloudmqtt.Base.Leases
import Cloudmqtt.Base.LeastFree
import Cloudmqtt.Base.Parser
import Cloudmqtt.Base.Run
import Cloudmqtt.Rust
import Cloudmqtt.V5.Announced
import Cloudmqtt.V5.Basic
import Cloudmqtt.V5.Complete
import Cloudmqtt.V5.Encodings
import Cloudmqtt.V5.Equality
import Cloudmqtt.V5.FixedHeader
import Cloudmqtt.V5.Flags
import Cloudmqtt.V5.Grammar
import Cloudmqtt.V5.Integers
import Cloudmqtt.V5.Layout
import Cloudmqtt.V5.Lengths
import Cloudmqtt.V5.Lists
import Cloudmqtt.V5.Packet
import Cloudmqtt.V5.Packets.Acknowledge
import Cloudmqtt.V5.Packets.Connect
import Cloudmqtt.V5.Packets.Publish
import Cloudmqtt.V5.Packets.Session
import Cloudmqtt.V5.Packets.Subscribe
import Cloudmqtt.V5.Properties
import Cloudmqtt.V5.Publications
import Cloudmqtt.V5.ReasonCode
import Cloudmqtt.V5.RoundTrip
import Cloudmqtt.V5.Sections
import Cloudmqtt.V5.Strings
import Cloudmqtt.V5.Sums
import Cloudmqtt.V5.UserProperties
import Cloudmqtt.V5.VariableHeader
import Cloudmqtt.V3.Complete
import Cloudmqtt.V3.Header
import Cloudmqtt.V3.Lengths
import Cloudmqtt.V3.Nom
import Cloudmqtt.V3.Packet
import Cloudmqtt.V3.RoundTrip
import Cloudmqtt.V3.Safe
import Cloudmqtt.V3.Strings
import Cloudmqtt.V3.Subscriptions
import Cloudmqtt.V3.Text
import Cloudmqtt.Core.Accounting
import Cloudmqtt.Core.Acknowledging
import Cloudmqtt.Core.Bindings
import Cloudmqtt.Core.Client
import Cloudmqtt.Core.KeepAlive
import Cloudmqtt.Core.Lifetime
import Cloudmqtt.Core.Operations
import Cloudmqtt.Core.Order
import Cloudmqtt.Core.PacketIdentifierStore
import Cloudmqtt.Core.Pings
import Cloudmqtt.Core.Publishing
import Cloudmqtt.Core.Session
import Cloudmqtt.Client.Appending
import Cloudmqtt.Client.Calls
import Cloudmqtt.Client.Channels
import Cloudmqtt.Client.Codec
import Cloudmqtt.Client.Connection
import Cloudmqtt.Client.CoreClient
import Cloudmqtt.Client.Deadlock
import Cloudmqtt.Client.Delivery
import Cloudmqtt.Client.Forwarding
import Cloudmqtt.Client.Levels
import Cloudmqtt.Client.Matching
import Cloudmqtt.Client.Overlaps
import Cloudmqtt.Client.Owned
import Cloudmqtt.Client.Preconditions
import Cloudmqtt.Client.Representation
import Cloudmqtt.Client.Router
import Cloudmqtt.Client.Routing
import Cloudmqtt.Client.Stream
import Cloudmqtt.Client.Subscribing
import Cloudmqtt.Client.Survival
import Cloudmqtt.Client.Topic
import Cloudmqtt.Client.TopicNames
import Cloudmqtt.Client.Wire
import Cloudmqtt.Harness.Broker
import Cloudmqtt.Harness.Script
import Cloudmqtt.Harness.TestHarness
