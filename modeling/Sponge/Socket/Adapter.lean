import Sponge.Descriptor
import Sponge.Internet.Host

namespace Sponge

/-- What a socket asks of the adapter that it sends and receives segments with. A call of `read`
that returns has read the descriptor. -/
class FdAdapter (α : Type) where
  fd : α → FileDescriptor
  config : α → FdAdapterConfig
  setConfig : α → FdAdapterConfig → α
  setListening : α → Bool → α
  read : α → Outcome SystemFault α (Option TCPSegment)
  write : α → TCPSegment → Outcome SystemFault α Unit
  tick : α → UInt64 → Outcome SystemFault α Unit
  read_registers : ∀ a, (read a).Leaves
    (fun _ a' => (fd a').readCount = (fd a).readCount + 1) (fun _ _ => True)

/-- `std::numeric_limits<size_t>::max()`, which stands for no limit. -/
def FileDescriptor.noLimit : Nat := 2 ^ 64 - 1

/-- Datagrams are read from a TUN device and written to it. -/
structure TCPOverIPv4OverTunFdAdapter extends TCPOverIPv4Adapter where
  tun : FileDescriptor

namespace TCPOverIPv4OverTunFdAdapter

def read (a : TCPOverIPv4OverTunFdAdapter) :
    Outcome SystemFault TCPOverIPv4OverTunFdAdapter (Option TCPSegment) :=
  ((a.tun.read FileDescriptor.noLimit).into fun tun => { a with tun }).andThen fun bytes a =>
    let parsed := ({} : InternetDatagram).parse bytes
    if parsed.1 ≠ .noError then .done a none
    else
      ((a.toTCPOverIPv4Adapter.unwrapTcpInIp parsed.2).into
        fun adapter => { a with toTCPOverIPv4Adapter := adapter }).mapFault .thrown

def write (a : TCPOverIPv4OverTunFdAdapter) (seg : TCPSegment) :
    Outcome SystemFault TCPOverIPv4OverTunFdAdapter Unit :=
  match (a.toTCPOverIPv4Adapter.wrapTcpInIp seg).result.bind IPv4Datagram.serialize with
  | .error e => .fail a (.thrown e)
  | .ok bytes =>
    ((a.tun.writeList bytes true).into fun tun => { a with tun }).andThen fun _ a => .done a ()

end TCPOverIPv4OverTunFdAdapter

/-- The adapter with its raw device: `sent` of the frames in `frames_out()` have been written to
it. -/
structure TapAdapter extends TCPOverIPv4OverEthernetAdapter where
  tap : FileDescriptor
  sent : Nat := 0

namespace TapAdapter

/-- Frames are written to the device one by one; each is popped after that. -/
def writeFrames : List EthernetFrame → TapAdapter → Outcome SystemFault TapAdapter Unit
  | [], a => .done a ()
  | frame :: rest, a =>
    ((a.tap.writeList frame.serialize true).into fun tap => { a with tap }).andThen fun _ a =>
      writeFrames rest { a with sent := a.sent + 1 }

def sendPending (a : TapAdapter) : Outcome SystemFault TapAdapter Unit :=
  writeFrames (a.interface.framesOut.drop a.sent) a

/-- The constructor: a frame without meaning is sent first. -/
def new (tap : FileDescriptor) (ethernetAddress : EthernetAddress) (ipAddress nextHop : Address) :
    Outcome SystemFault TapAdapter Unit :=
  ((tap.writeList ({} : EthernetFrame).serialize true).into fun tap =>
    { interface := .new ethernetAddress ipAddress, nextHop, tap }).andThen fun _ a => .done a ()

def setInterface (a : TapAdapter) (interface : NetworkInterface) : TapAdapter :=
  { a with interface }

def setAdapter (a : TapAdapter) (adapter : TCPOverIPv4Adapter) : TapAdapter :=
  { a with toTCPOverIPv4Adapter := adapter }

/-- Between the frame and the datagram in it, what the interface has to send is sent. -/
def read (a : TapAdapter) : Outcome SystemFault TapAdapter (Option TCPSegment) :=
  ((a.tap.read FileDescriptor.noLimit).into fun tap => { a with tap }).andThen fun bytes a =>
    let parsed := ({} : EthernetFrame).parse bytes
    if parsed.1 ≠ .noError then .done a none
    else
      (((a.interface.recvFrame parsed.2).into a.setInterface).mapFault .thrown).andThen
        fun ipDgram a => a.sendPending.andThen fun _ a =>
          match ipDgram with
          | none => .done a none
          | some ipDgram =>
            ((a.toTCPOverIPv4Adapter.unwrapTcpInIp ipDgram).into a.setAdapter).mapFault .thrown

def tick (a : TapAdapter) (ms : UInt64) : Outcome SystemFault TapAdapter Unit :=
  (a.setInterface (a.interface.tick ms)).sendPending

def write (a : TapAdapter) (seg : TCPSegment) : Outcome SystemFault TapAdapter Unit :=
  match (a.toTCPOverIPv4Adapter.wrapTcpInIp seg).result with
  | .error e => .fail a (.thrown e)
  | .ok ipDgram =>
    (((a.interface.sendDatagram ipDgram a.nextHop).into a.setInterface).mapFault .thrown).andThen
      fun _ a => a.sendPending

end TapAdapter

/-- A datagram as `recvfrom(2)` gives it. -/
structure ReceivedDatagram where
  sourceAddress : SocketAddress
  payload : Bytes
  deriving DecidableEq, Repr

/-- A UDP socket, with the answers of the kernel to `recvfrom(2)` and `sendmsg(2)`, and with the
datagrams that the kernel has given and taken. -/
structure UDPSocket extends FileDescriptor where
  recvAnswers : Stream' (Except Errno { d : ReceivedDatagram // d.payload.length < 2 ^ 31 })
  sendAnswers : Stream' (Except Errno ByteCount)
  gotFrom : List ReceivedDatagram := []
  sentTo : List (SocketAddress × Bytes) := []

namespace UDPSocket

def recv (s : UDPSocket) (mtu : Nat := 65536) : Outcome SystemFault UDPSocket ReceivedDatagram :=
  match s.recvAnswers.head with
  | .error e => .fail { s with recvAnswers := s.recvAnswers.tail } (.unixError "recvfrom" e)
  | .ok ⟨datagram, _⟩ =>
    let s := { s with recvAnswers := s.recvAnswers.tail, gotFrom := s.gotFrom ++ [datagram] }
    if datagram.payload.length > mtu then
      .fail s (.thrown (.runtimeError "recvfrom (oversized datagram)"))
    else .done { s with toFileDescriptor := s.registerRead } datagram

/-- A datagram goes out whole or not at all, whatever number is returned. -/
def sendto (s : UDPSocket) (destination : SocketAddress) (payload : BufferList) :
    Outcome SystemFault UDPSocket Unit :=
  match s.sendAnswers.head with
  | .error e => .fail { s with sendAnswers := s.sendAnswers.tail } (.unixError "sendmsg" e)
  | .ok bytesSent =>
    let s := { s with
      sendAnswers := s.sendAnswers.tail
      sentTo := s.sentTo ++ [(destination, payload.concatenate)] }
    if bytesSent.val ≠ payload.size then
      .fail s (.thrown (.runtimeError "datagram payload too big for sendmsg()"))
    else .done { s with toFileDescriptor := s.registerWrite } ()

end UDPSocket

/-- Segments are the payloads of UDP datagrams; the other fields are those of `FdAdapterBase`. -/
structure TCPOverUDPSocketAdapter where
  cfg : FdAdapterConfig := {}
  listen : Bool := false
  sock : UDPSocket

namespace TCPOverUDPSocketAdapter

def read (a : TCPOverUDPSocketAdapter) :
    Outcome SystemFault TCPOverUDPSocketAdapter (Option TCPSegment) :=
  (a.sock.recv.into fun sock => { a with sock }).andThen fun datagram a =>
    if ¬ a.listen ∧ datagram.sourceAddress ≠ a.cfg.destination then .done a none
    else
      let parsed := ({} : TCPSegment).parse datagram.payload 0
      if parsed.1 ≠ .noError then .done a none
      else if a.listen then
        if parsed.2.header.syn ∧ ¬ parsed.2.header.rst then
          .done { a with
            cfg := { a.cfg with destination := datagram.sourceAddress }
            listen := false } (some parsed.2)
        else .done a none
      else .done a (some parsed.2)

def write (a : TCPOverUDPSocketAdapter) (seg : TCPSegment) :
    Outcome SystemFault TCPOverUDPSocketAdapter Unit :=
  let seg := { seg with header := { seg.header with
    sport := a.cfg.source.port
    dport := a.cfg.destination.port } }
  match seg.serialize 0 with
  | .error e => .fail a (.thrown e)
  | .ok payload => (a.sock.sendto a.cfg.destination payload).into fun sock => { a with sock }

end TCPOverUDPSocketAdapter

/-- An adapter that drops some of what it reads and writes; `rand` are the numbers that are
drawn. -/
structure LossyFdAdapter (α : Type) where
  rand : Stream' UInt32
  adapter : α

namespace LossyFdAdapter

variable {α : Type} [FdAdapter α]

/-- No number is drawn if nothing is to be lost. -/
def shouldDrop (a : LossyFdAdapter α) (uplink : Bool) : Bool × LossyFdAdapter α :=
  let cfg := FdAdapter.config a.adapter
  let loss := if uplink then cfg.lossRateUp else cfg.lossRateDn
  if loss = 0 then (false, a)
  else (a.rand.head.toUInt16 < loss, { a with rand := a.rand.tail })

def read (a : LossyFdAdapter α) : Outcome SystemFault (LossyFdAdapter α) (Option TCPSegment) :=
  ((FdAdapter.read a.adapter).into fun adapter => { a with adapter }).andThen fun ret a =>
    let dropped := a.shouldDrop false
    .done dropped.2 (if dropped.1 then none else ret)

def write (a : LossyFdAdapter α) (seg : TCPSegment) : Outcome SystemFault (LossyFdAdapter α) Unit :=
  let dropped := a.shouldDrop true
  if dropped.1 then .done dropped.2 ()
  else (FdAdapter.write dropped.2.adapter seg).into fun adapter => { dropped.2 with adapter }

theorem should_drop_adapter (a : LossyFdAdapter α) (uplink : Bool) :
    (a.shouldDrop uplink).2.adapter = a.adapter := by
  unfold shouldDrop
  dsimp only
  generalize (if uplink = true then (FdAdapter.config a.adapter).lossRateUp
    else (FdAdapter.config a.adapter).lossRateDn) = loss
  split <;> rfl

end LossyFdAdapter

section Registers

open FileDescriptor (noLimit)

/-- The device is read, and not again by what comes after. -/
theorem read_then {α β : Type} (fd : α → FileDescriptor) {f : FileDescriptor}
    {put : FileDescriptor → α} {next : Bytes → α → Outcome SystemFault α β}
    (hput : ∀ f, fd (put f) = f)
    (hnext : ∀ bytes a, (fd (next bytes a).state).readCount = (fd a).readCount) :
    (((f.read noLimit).into put).andThen next).Leaves
      (fun _ a' => (fd a').readCount = f.readCount + 1) (fun _ _ => True) := by
  rcases f.read_cases noLimit with ⟨f', e, hrun, -⟩ | ⟨f', str, hrun, -, -, -, hcount, -⟩
  · rw [hrun, Outcome.into_and_then_error rfl]
    exact Outcome.leaves_fail trivial
  · rw [hrun, Outcome.into_and_then_ok rfl]
    refine Outcome.leaves_of_forall (fun _ => ?_) fun _ => trivial
    rw [hnext, hput, Outcome.state_done, hcount]

theorem TCPOverIPv4OverTunFdAdapter.read_registers (a : TCPOverIPv4OverTunFdAdapter) :
    a.read.Leaves (fun _ a' => a'.tun.readCount = a.tun.readCount + 1) (fun _ _ => True) := by
  refine read_then (fun a : TCPOverIPv4OverTunFdAdapter => a.tun) (fun _ => rfl) ?_
  intro bytes a
  simp only
  split <;> rfl

theorem TCPOverUDPSocketAdapter.read_registers (a : TCPOverUDPSocketAdapter) :
    a.read.Leaves (fun _ a' => a'.sock.readCount = a.sock.readCount + 1) (fun _ _ => True) := by
  unfold read UDPSocket.recv
  cases a.sock.recvAnswers.head with
  | error e => exact Outcome.leaves_fail trivial
  | ok answer =>
    obtain ⟨datagram, -⟩ := answer
    simp only
    by_cases hlong : datagram.payload.length > 65536
    · rw [if_pos hlong]
      exact Outcome.leaves_fail trivial
    · rw [if_neg hlong, Outcome.into_and_then_ok rfl]
      refine Outcome.leaves_of_forall (fun _ => ?_) fun _ => trivial
      simp only
      repeat' split
      all_goals rfl

/-- Sending what is pending changes nothing but the device. -/
theorem TapAdapter.write_frames_only (frames : List EthernetFrame) (a : TapAdapter) :
    let a' := (writeFrames frames a).state
    a' = { a with tap := a'.tap, sent := a'.sent } ∧ a.tap.OnlyWritten a'.tap := by
  induction frames generalizing a with
  | nil => exact ⟨rfl, rfl⟩
  | cons frame rest ih =>
    obtain ⟨chunks, hw⟩ := a.tap.write_list_written frame.serialize true
    have honly := hw.others
    rw [writeFrames]
    cases hr : (a.tap.writeList frame.serialize true).result with
    | error e =>
      rw [Outcome.into_and_then_error hr]
      exact ⟨rfl, honly⟩
    | ok n =>
      rw [Outcome.into_and_then_ok hr]
      obtain ⟨heq, hrest⟩ := ih { a with
        tap := (a.tap.writeList frame.serialize true).state
        sent := a.sent + 1 }
      exact ⟨heq, honly.trans hrest⟩

theorem TapAdapter.read_registers (a : TapAdapter) :
    a.read.Leaves (fun _ a' => a'.tap.readCount = a.tap.readCount + 1) (fun _ _ => True) := by
  refine read_then (fun a : TapAdapter => a.tap) (fun _ => rfl) ?_
  intro bytes a
  simp only
  split
  · rfl
  let Same (a' : TapAdapter) : Prop := a'.tap.readCount = a.tap.readCount
  refine Outcome.state_and_then (P := Same) rfl ?_
  intro ipDgram b hb
  refine Outcome.state_and_then (P := Same) ?_ ?_
  · exact (write_frames_only _ b).2.read_count_eq.trans hb
  · intro _ c hc
    cases ipDgram with
    | none => exact hc
    | some d => exact hc

theorem LossyFdAdapter.read_registers {α : Type} [FdAdapter α] (a : LossyFdAdapter α) :
    a.read.Leaves
      (fun _ a' => (FdAdapter.fd a'.adapter).readCount = (FdAdapter.fd a.adapter).readCount + 1)
      (fun _ _ => True) := by
  have hread : ((FdAdapter.read a.adapter).into fun adapter => { a with adapter }).Leaves
      (fun _ a' => (FdAdapter.fd a'.adapter).readCount = (FdAdapter.fd a.adapter).readCount + 1)
      (fun _ _ => True) :=
    Outcome.Leaves.into (FdAdapter.read_registers a.adapter)
  refine hread.and_then fun ret b hb => Outcome.leaves_done ?_
  rw [should_drop_adapter]
  exact hb

end Registers

instance : FdAdapter TCPOverIPv4OverTunFdAdapter where
  fd := (·.tun)
  config := (·.cfg)
  setConfig a cfg := { a with cfg }
  setListening a listen := { a with listen }
  read := (·.read)
  write := (·.write)
  tick a _ := .done a ()
  read_registers := (·.read_registers)

instance : FdAdapter TCPOverUDPSocketAdapter where
  fd := (·.sock.toFileDescriptor)
  config := (·.cfg)
  setConfig a cfg := { a with cfg }
  setListening a listen := { a with listen }
  read := (·.read)
  write := (·.write)
  tick a _ := .done a ()
  read_registers := (·.read_registers)

instance : FdAdapter TapAdapter where
  fd := (·.tap)
  config := (·.cfg)
  setConfig a cfg := { a with cfg }
  setListening a listen := { a with listen }
  read := (·.read)
  write := (·.write)
  tick := (·.tick)
  read_registers := (·.read_registers)

instance {α : Type} [FdAdapter α] : FdAdapter (LossyFdAdapter α) where
  fd a := FdAdapter.fd a.adapter
  config a := FdAdapter.config a.adapter
  setConfig a cfg := { a with adapter := FdAdapter.setConfig a.adapter cfg }
  setListening a listen := { a with adapter := FdAdapter.setListening a.adapter listen }
  read := (·.read)
  write := (·.write)
  tick a ms := (FdAdapter.tick a.adapter ms).into fun adapter => { a with adapter }
  read_registers := LossyFdAdapter.read_registers

end Sponge
