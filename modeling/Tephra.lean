import Tephra.Lib.Machine
import Tephra.Lib.OrdMap
import Tephra.Lib.Splitter
import Tephra.Lib.Records
import Tephra.Lib.Written
import Tephra.Lib.Feed
import Tephra.Lib.Fuel
import Tephra.Lib.Rank
import Tephra.Errors
import Tephra.Utf8
import Tephra.Framing
import Tephra.Proto.RoundTrip
import Tephra.Proto.Presence
import Tephra.Proto.Schema
import Tephra.Proto.Compat
import Tephra.Proto.Malformed
import Tephra.Proto.Varint
import Tephra.Proto.Buffer
import Tephra.Proto.Emitted
import Tephra.Proto.Size
import Tephra.EventRoundTrip
import Tephra.NameLength
import Tephra.TagSets
import Tephra.FrameStream
import Tephra.FrameLength
import Tephra.Address
import Tephra.SinkOrder
import Tephra.Conn.Decompose
import Tephra.Conn.Budget
import Tephra.Conn.Death
import Tephra.Conn.Writer
import Tephra.Conn.CancelOrder
import Tephra.Conn.Memory
import Tephra.Conn.Settlement
import Tephra.Conn.Isolation
import Tephra.Conn.Delivery
import Tephra.Conn.Request
import Tephra.Conn.Single
import Tephra.Conn.CancelCount
import Tephra.Conn.Collected
import Tephra.Conn.Transit
import Tephra.Conn.Progress
import Tephra.Conn.Sending
import Tephra.Conn.Order
import Tephra.Conn.Asked
import Tephra.Conn.Waiting
import Tephra.Conn.Segments
import Tephra.Conn.Channel
import Tephra.Conn.Replies
import Tephra.Conn.Heard
import Tephra.Client
import Tephra.Cursor
import Tephra.Connect
import Tephra.Dialing
import Tephra.Lanes
import Tephra.Closing
import Tephra.ConnectAll
import Tephra.Lib.Clause
import Tephra.Lib.Pages
import Tephra.Meaning
import Tephra.Queries
import Tephra.Paging
import Tephra.Greeting
import Tephra.Service
import Tephra.Returns
