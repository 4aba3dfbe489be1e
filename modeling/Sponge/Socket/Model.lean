import Sponge.Connection.State
import Sponge.EventLoop.Serving
import Sponge.Socket.Adapter

namespace Sponge

def TCPConnection.remainingOutboundCapacity (x : TCPConnection) : Nat :=
  x.sender.stream.remainingCapacity

/-- A segment that the adapter has returned, if any, goes to the connection. -/
def Endpoint.receive (e : Endpoint) : Option TCPSegment → Endpoint
  | none => e
  | some seg => { e with conn := e.conn.segmentReceived seg }

/-- A socket whose connection is set up, as its thread has it: `threadData` is the end of the
socket pair whose other end the application holds, and `popped` of the segments in
`segments_out()` have been given to the adapter. -/
structure TCPSpongeSocket (α : Type) where
  threadData : FileDescriptor
  datagramAdapter : α
  tcp : Endpoint
  popped : Nat := 0
  outboundShutdown : Bool := false
  inboundShutdown : Bool := false

namespace TCPSpongeSocket

section Rules

variable {α : Type}

def setThreadData (s : TCPSpongeSocket α) (f : FileDescriptor) : TCPSpongeSocket α :=
  { s with threadData := f }

def setAdapter (s : TCPSpongeSocket α) (a : α) : TCPSpongeSocket α :=
  { s with datagramAdapter := a }

/-- A call of the connection. -/
def act (s : TCPSpongeSocket α) (u : Act) : TCPSpongeSocket α :=
  { s with tcp := s.tcp.act [] u }

/-- What is left in `segments_out()`. -/
def segmentsOut (s : TCPSpongeSocket α) : List TCPSegment := s.tcp.conn.segmentsOut.drop s.popped

def acceptedLess : SystemFault :=
  .thrown (.runtimeError "TCPConnection::write() accepted less than advertised length")

/-- There is no more to come from the application. -/
def endOutbound (s : TCPSpongeSocket α) : TCPSpongeSocket α :=
  { s.act .endInputStream with outboundShutdown := true }

/-- Rule 2: read from the pipe into the outbound buffer. -/
def pipeToOutbound (s : TCPSpongeSocket α) : Outcome SystemFault (TCPSpongeSocket α) Unit :=
  ((s.threadData.read s.tcp.conn.remainingOutboundCapacity).into s.setThreadData).andThen
    fun data s =>
      let amountWritten := s.tcp.conn.sender.stream.accepts data
      let s := s.act (.write data)
      if amountWritten ≠ data.length then .fail s acceptedLess
      else if s.threadData.eof then .done s.endOutbound ()
      else .done s ()

def outboundInterest (s : TCPSpongeSocket α) : Bool :=
  s.tcp.conn.active && !s.outboundShutdown && s.tcp.conn.remainingOutboundCapacity > 0

/-- Rule 3: read from the inbound buffer into the pipe. Only what was written is popped. -/
def inboundToPipe (s : TCPSpongeSocket α) : Outcome SystemFault (TCPSpongeSocket α) Unit :=
  let inbound := s.tcp.conn.inboundStream
  let amountToWrite := min 65536 inbound.bufferSize
  ((s.threadData.writeList ⟨[inbound.peekOutput amountToWrite]⟩ false).into s.setThreadData).andThen
    fun bytesWritten s =>
      let s := s.act (.read bytesWritten)
      let inbound := s.tcp.conn.inboundStream
      if inbound.eof || inbound.error then
        ((s.threadData.shutdown .wr).into s.setThreadData).andThen fun _ s =>
          .done { s with inboundShutdown := true } ()
      else .done s ()

def inboundInterest (s : TCPSpongeSocket α) : Bool :=
  let inbound := s.tcp.conn.inboundStream
  !inbound.bufferEmpty || ((inbound.eof || inbound.error) && !s.inboundShutdown)

variable [FdAdapter α]

/-- Rule 1: read from the filtered packet stream into the connection. -/
def packetToConnection (s : TCPSpongeSocket α) : Outcome SystemFault (TCPSpongeSocket α) Unit :=
  ((FdAdapter.read s.datagramAdapter).into s.setAdapter).andThen fun seg s =>
    .done { s with tcp := s.tcp.receive seg } ()

/-- The loop of rule 4. -/
def writeSegments : List TCPSegment → TCPSpongeSocket α →
    Outcome SystemFault (TCPSpongeSocket α) Unit
  | [], s => .done s ()
  | seg :: rest, s =>
    ((FdAdapter.write s.datagramAdapter seg).into s.setAdapter).andThen fun _ s =>
      writeSegments rest { s with popped := s.popped + 1 }

/-- Rule 4: the segments of the connection are sent as datagrams. -/
def segmentsToPackets (s : TCPSpongeSocket α) : Outcome SystemFault (TCPSpongeSocket α) Unit :=
  writeSegments s.segmentsOut s

/-- `_initialize_TCP` -/
def eventloop : EventLoop (TCPSpongeSocket α) :=
  (((({} : EventLoop (TCPSpongeSocket α)).addRule (fun s => FdAdapter.fd s.datagramAdapter) .In
      packetToConnection (fun s => s.tcp.conn.active)).addRule
    (·.threadData) .In pipeToOutbound outboundInterest (fun s => .done s.endOutbound ())).addRule
    (·.threadData) .Out inboundToPipe inboundInterest).addRule
    (fun s => FdAdapter.fd s.datagramAdapter) .Out segmentsToPackets
      (fun s => !s.segmentsOut.isEmpty)

end Rules

/-- What comes from outside in one turn of the loop: the kernel's answer to `poll(2)`, whether the
application has let go of the socket, and the time. -/
structure Round where
  poll : Poll
  abort : Bool := false
  now : UInt64

section Loop

variable {α : Type} [FdAdapter α]

/-- One turn of the loop: the base time of the next one, unless this is the last. -/
def turn (r : Round) (baseTime : UInt64) (rules : List (Rule (TCPSpongeSocket α)))
    (s : TCPSpongeSocket α) :
    Outcome SystemFault (List (Rule (TCPSpongeSocket α)) × TCPSpongeSocket α) (Option UInt64) :=
  (EventLoop.waitNextEvent r.poll rules s).andThen fun ret x =>
    if ret = .exit ∨ r.abort then .done x none
    else if x.2.tcp.conn.active then
      let s := x.2.act (.tick (r.now - baseTime).toNat)
      ((FdAdapter.tick s.datagramAdapter (r.now - baseTime)).into
        fun a => (x.1, s.setAdapter a)).andThen fun _ x => .done x (some r.now)
    else .done x (some baseTime)

/-- The loop, for as long as there are rounds: whether it has come to its end. -/
def tcpLoop (condition : TCPSpongeSocket α → Bool) : List Round → UInt64 →
    List (Rule (TCPSpongeSocket α)) → TCPSpongeSocket α →
    Outcome SystemFault (List (Rule (TCPSpongeSocket α)) × TCPSpongeSocket α) Bool
  | [], _, rules, s => .done (rules, s) (!condition s)
  | r :: rounds, baseTime, rules, s =>
    if condition s then
      (turn r baseTime rules s).andThen fun next x =>
        match next with
        | none => .done x true
        | some baseTime => tcpLoop condition rounds baseTime x.1 x.2
    else .done (rules, s) true

/-- A socket whose connection has just been set up. -/
def fresh (threadData : FileDescriptor) (datagramAdapter : α) (cTcp : TCPConfig)
    (random : WrappingInt32) : TCPSpongeSocket α :=
  { threadData, datagramAdapter, tcp := .new cTcp random }

/-- The constructor, and what `connect` and `listen_and_accept` begin with. -/
def start (threadData : FileDescriptor) (datagramAdapter : α) (cTcp : TCPConfig)
    (random : WrappingInt32) (cAd : FdAdapterConfig) :
    Outcome SystemFault (List (Rule (TCPSpongeSocket α)) × TCPSpongeSocket α) Unit :=
  threadData.setBlocking.into fun f =>
    (eventloop.rules, fresh f (FdAdapter.setConfig datagramAdapter cAd) cTcp random)

def notSynSent (state : TCPState) : SystemFault :=
  .thrown (.runtimeError ("After TCPConnection::connect(), state was " ++ state.name ++
    " but expected " ++ (TCPState.ofState .synSent).name))

/-- `connect`, after the connection has been set up. -/
def connect (baseTime : UInt64) (rounds : List Round) (rules : List (Rule (TCPSpongeSocket α)))
    (s : TCPSpongeSocket α) :
    Outcome SystemFault (List (Rule (TCPSpongeSocket α)) × TCPSpongeSocket α) Bool :=
  let s := s.act .connect
  if s.tcp.conn.state ≠ .ofState .synSent then .fail (rules, s) (notSynSent s.tcp.conn.state)
  else tcpLoop (fun s => s.tcp.conn.state = .ofState .synSent) rounds baseTime rules s

/-- `listen_and_accept`, after the connection has been set up. -/
def listenAndAccept (baseTime : UInt64) (rounds : List Round)
    (rules : List (Rule (TCPSpongeSocket α))) (s : TCPSpongeSocket α) :
    Outcome SystemFault (List (Rule (TCPSpongeSocket α)) × TCPSpongeSocket α) Bool :=
  let s := s.setAdapter (FdAdapter.setListening s.datagramAdapter true)
  tcpLoop (fun s =>
    s.tcp.conn.state = .ofState .listen || s.tcp.conn.state = .ofState .synRcvd ||
      s.tcp.conn.state = .ofState .synSent) rounds baseTime rules s

/-- The loop of `_tcp_main`. -/
def tcpMain (baseTime : UInt64) (rounds : List Round) (rules : List (Rule (TCPSpongeSocket α)))
    (s : TCPSpongeSocket α) :
    Outcome SystemFault (List (Rule (TCPSpongeSocket α)) × TCPSpongeSocket α) Bool :=
  tcpLoop (fun _ => true) rounds baseTime rules s

end Loop

/-- How a connection comes about. -/
inductive Opening where
  | active
  | passive
  deriving DecidableEq, Repr

/-- The life of a socket: the connection is opened, and then it has a thread of its own. Each of
the two loops starts at a time of its own. -/
def life {α : Type} [FdAdapter α] (threadData : FileDescriptor) (datagramAdapter : α)
    (cTcp : TCPConfig) (random : WrappingInt32) (cAd : FdAdapterConfig) (opening : Opening)
    (opened main : UInt64 × List Round) :
    Outcome SystemFault (List (Rule (TCPSpongeSocket α)) × TCPSpongeSocket α) Bool :=
  (start threadData datagramAdapter cTcp random cAd).andThen fun _ x =>
    (match opening with
      | .active => connect opened.1 opened.2 x.1 x.2
      | .passive => listenAndAccept opened.1 opened.2 x.1 x.2).andThen fun done x =>
        if done then tcpMain main.1 main.2 x.1 x.2 else .done x false

end TCPSpongeSocket

end Sponge
