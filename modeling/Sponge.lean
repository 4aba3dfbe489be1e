import Sponge.Lib.Word
import Sponge.Lib.OrdMap
import Sponge.Lib.Run
import Sponge.Lib.Stands
import Sponge.Lib.Cover
import Sponge.Lib.Outcome
import Sponge.Lib.OnesComplement
import Sponge.Lib.Fifo
import Sponge.Lib.Fuel
import Sponge.Lib.Pieces
import Sponge.Lib.RefHeap
import Sponge.ByteStream
import Sponge.ByteStream.Fifo
import Sponge.Reassembler.Model
import Sponge.Reassembler.Dedup
import Sponge.Reassembler.Layout
import Sponge.Reassembler.Push
import Sponge.Reassembler.Content
import Sponge.Reassembler.Session
import Sponge.Reassembler.Room
import Sponge.Reassembler.Accounting
import Sponge.Reassembler.Window
import Sponge.Reassembler.Ending
import Sponge.Reassembler.Coverage
import Sponge.Reassembler.Completion
import Sponge.WrappingIntegers
import Sponge.Segment
import Sponge.Receiver
import Sponge.Receiver.Ackno
import Sponge.Receiver.Stream
import Sponge.Receiver.Finality
import Sponge.Sender.Model
import Sponge.Sender.Tape
import Sponge.Sender.Closing
import Sponge.Sender.Session
import Sponge.Sender.Fin
import Sponge.Sender.Retain
import Sponge.Sender.Acked
import Sponge.Sender.Flow
import Sponge.Sender.Timeout
import Sponge.Sender.Pending
import Sponge.Sender.InFlight
import Sponge.Sender.Filling
import Sponge.Sender.Backoff
import Sponge.Sender.Impossible
import Sponge.Connection
import Sponge.Connection.Session
import Sponge.Connection.Window
import Sponge.Connection.Dead
import Sponge.Connection.Backoff
import Sponge.Connection.Answering
import Sponge.Connection.Opening
import Sponge.Connection.Linger
import Sponge.Connection.State
import Sponge.Connection.Shape
import Sponge.Network.Model
import Sponge.Network.Arrival
import Sponge.Network.Link
import Sponge.Network.Delivery
import Sponge.Network.Agreement
import Sponge.Network.Ending
import Sponge.Wire.Parser
import Sponge.Wire.IPv4
import Sponge.Wire.Checksum
import Sponge.Wire.Acceptance
import Sponge.Wire.Segment
import Sponge.Wire.RoundTrip
import Sponge.Reassembler.Termination
import Sponge.Buffer.Model
import Sponge.Buffer.Sharing
import Sponge.Adapter
import Sponge.Link.Frame
import Sponge.Link.Codec
import Sponge.Link.Interface
import Sponge.Link.Custody
import Sponge.Link.Cache
import Sponge.Link.Awaited
import Sponge.Link.Requests
import Sponge.Link.Delivery
import Sponge.Router.Model
import Sponge.Router.Safety
import Sponge.Router.Forwarding
import Sponge.Descriptor
import Sponge.EventLoop.Model
import Sponge.EventLoop.Serving
import Sponge.EventLoop.Lifecycle
import Sponge.StreamCopy
import Sponge.Internet.Transit
import Sponge.Internet.Ends
import Sponge.Internet.Host
import Sponge.Internet.Model
import Sponge.Internet.Safety
import Sponge.Socket.Adapter
import Sponge.Socket.Model
import Sponge.Socket.Serving
import Sponge.Socket.Life
import Sponge.Socket.Packets
import Sponge.Socket.Thread
import Sponge.Socket.Pair
