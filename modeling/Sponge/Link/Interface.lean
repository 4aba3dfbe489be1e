import Sponge.Lib.OrdMap
import Sponge.Lib.Outcome
import Sponge.Link.Codec

namespace Sponge

instance ipOrder : IsStrictTotalOrder UInt32 (· < ·) where
  irrefl a := UInt32.lt_irrefl a
  trans _ _ _ := UInt32.lt_trans
  trichotomous _ _ hab hba :=
    UInt32.le_antisymm (UInt32.not_lt.mp hba) (UInt32.not_lt.mp hab)

/-- A `std::map` from IPv4 numbers. -/
abbrev IPMap (α : Type) := OrdMap UInt32 α (· < ·)

/-- The interface. `framesOut` keeps all that was ever put in the queue, since only the
owner takes from it; `emitted` tells besides, for each IPv4 frame in it, the datagram
and the next hop it was for. -/
structure NetworkInterface where
  ethernetAddress : EthernetAddress
  ipAddress : Address
  framesOut : List EthernetFrame := []
  ipMacCache : IPMap EthernetAddress := .empty
  timeSinceCache : IPMap UInt32 := .empty
  waitingList : IPMap InternetDatagram := .empty
  timeSinceReqSend : IPMap UInt32 := .empty
  reqs : IPMap EthernetFrame := .empty
  emitted : List (UInt32 × InternetDatagram) := []

namespace NetworkInterface

def MAX_REQ_TIME : UInt32 := 5000

def MAX_CACHE_TIME : UInt64 := 30000

def new (ethernetAddress : EthernetAddress) (ipAddress : Address) : NetworkInterface :=
  { ethernetAddress, ipAddress }

def push (x : NetworkInterface) (frame : EthernetFrame) : NetworkInterface :=
  { x with framesOut := x.framesOut ++ [frame] }

/-- Put a datagram in a frame and send it. -/
def sendIp (x : NetworkInterface) (dgram : InternetDatagram) (hop : UInt32)
    (dst : EthernetAddress) : Outcome Fault NetworkInterface Unit :=
  match dgram.serialize with
  | .error e => .fail x e
  | .ok payload =>
    let frame : EthernetFrame :=
      { header := { dst, src := x.ethernetAddress, type := EthernetHeader.TYPE_IPv4 }, payload }
    .done { x.push frame with emitted := x.emitted ++ [(hop, dgram)] } ()

/-- Keep the datagram and ask for the Ethernet address of its next hop. -/
def sendRequest (x : NetworkInterface) (dgram : InternetDatagram) (hop : UInt32) :
    Outcome Fault NetworkInterface Unit :=
  let x := { x with waitingList := x.waitingList.insert hop dgram }
  let arpMessage : ARPMessage :=
    { opcode := ARPMessage.OPCODE_REQUEST
      senderEthernetAddress := x.ethernetAddress
      senderIpAddress := x.ipAddress.ipv4Numeric
      targetIpAddress := hop }
  match arpMessage.serialize with
  | .error e => .fail x e
  | .ok payload =>
    let frame : EthernetFrame :=
      { header := { dst := ETHERNET_BROADCAST, src := x.ethernetAddress,
                    type := EthernetHeader.TYPE_ARP }
        payload := ⟨[payload]⟩ }
    .done { x.push frame with
      timeSinceReqSend := x.timeSinceReqSend.insert hop 0
      reqs := x.reqs.insert hop frame } ()

/-- A request that was sent long enough ago is sent again. Both maps have an entry for a
hop that is waited for. -/
def sendAgain (x : NetworkInterface) (hop : UInt32) : NetworkInterface :=
  if (x.timeSinceReqSend.find? hop).getD 0 ≥ MAX_REQ_TIME then
    { x.push ((x.reqs.find? hop).getD {}) with
      timeSinceReqSend := x.timeSinceReqSend.insert hop 0 }
  else x

def sendDatagram (x : NetworkInterface) (dgram : InternetDatagram) (nextHop : Address) :
    Outcome Fault NetworkInterface Unit :=
  let hop := nextHop.ipv4Numeric
  match x.ipMacCache.find? hop with
  | none =>
    if (x.waitingList.find? hop).isSome then .done (x.sendAgain hop) ()
    else x.sendRequest dgram hop
  | some mac => x.sendIp dgram hop mac

/-- Nothing waits for the hop any more. -/
def release (x : NetworkInterface) (hop : UInt32) : NetworkInterface :=
  { x with
    waitingList := x.waitingList.erase hop
    timeSinceReqSend := x.timeSinceReqSend.erase hop
    reqs := x.reqs.erase hop }

/-- A reply: the datagram that waits for the sender is sent. -/
def takeReply (x : NetworkInterface) (arp : ARPMessage) : Outcome Fault NetworkInterface Unit :=
  match x.waitingList.find? arp.senderIpAddress with
  | none => .done x ()
  | some datagram =>
    (x.release arp.senderIpAddress).sendIp datagram arp.senderIpAddress arp.senderEthernetAddress

/-- A request: it is answered if it asks for this interface. -/
def answer (x : NetworkInterface) (arp : ARPMessage) (src : EthernetAddress) :
    Outcome Fault NetworkInterface Unit :=
  if arp.targetIpAddress = x.ipAddress.ipv4Numeric then
    let reply : ARPMessage :=
      { opcode := ARPMessage.OPCODE_REPLY
        targetIpAddress := arp.senderIpAddress
        senderIpAddress := x.ipAddress.ipv4Numeric
        targetEthernetAddress := arp.senderEthernetAddress
        senderEthernetAddress := x.ethernetAddress }
    match reply.serialize with
    | .error e => .fail x e
    | .ok payload =>
      .done (x.push
        { header := { src := x.ethernetAddress, dst := src, type := EthernetHeader.TYPE_ARP }
          payload := ⟨[payload]⟩ }) ()
  else .done x ()

def learn (x : NetworkInterface) (arp : ARPMessage) : NetworkInterface :=
  { x with
    ipMacCache := x.ipMacCache.insert arp.senderIpAddress arp.senderEthernetAddress
    timeSinceCache := x.timeSinceCache.insert arp.senderIpAddress 0 }

/-- What is done with an ARP message from the frame of `src`. Nothing is learned if the
first part throws. -/
def recvArp (x : NetworkInterface) (arp : ARPMessage) (src : EthernetAddress) :
    Outcome Fault NetworkInterface Unit :=
  (if arp.opcode = ARPMessage.OPCODE_REPLY then x.takeReply arp else x.answer arp src).andThen
    fun _ x => .done (x.learn arp) ()

/-- Only the first buffer of the payload is looked at; a payload without one has no
`front()`. -/
def recvFrame (x : NetworkInterface) (frame : EthernetFrame) :
    Outcome Fault NetworkInterface (Option InternetDatagram) :=
  if frame.header.dst ≠ ETHERNET_BROADCAST ∧ frame.header.dst ≠ x.ethernetAddress then
    .done x none
  else if frame.header.type = EthernetHeader.TYPE_IPv4 then
    match frame.payload.buffers with
    | [] => .fail x .undefined
    | front :: _ =>
      let parsed := ({} : IPv4Datagram).parse front
      .done x (if parsed.1 = .noError then some parsed.2 else none)
  else if frame.header.type = EthernetHeader.TYPE_ARP then
    match frame.payload.buffers with
    | [] => .fail x .undefined
    | front :: _ =>
      let parsed := ({} : ARPMessage).parse front
      if parsed.1 ≠ .noError then .done x none
      else (x.recvArp parsed.2 frame.header.src).andThen fun _ x => .done x none
  else .done x none

/-- The times of the requests have 32 bits and wrap round. -/
def tick (x : NetworkInterface) (ms : UInt64) : NetworkInterface :=
  let expired := fun (e : UInt32 × UInt32) => e.2.toUInt64 + ms ≥ MAX_CACHE_TIME
  { x with
    timeSinceReqSend := x.timeSinceReqSend.mapValues (fun t => (t.toUInt64 + ms).toUInt32)
    ipMacCache := (x.timeSinceCache.filter expired).entries.foldl
      (fun cache e => cache.erase e.1) x.ipMacCache
    timeSinceCache := (x.timeSinceCache.filter (fun e => ¬ expired e)).mapValues
      (fun t => (t.toUInt64 + ms).toUInt32) }

end NetworkInterface

theorem arp_ne_ipv4 : EthernetHeader.TYPE_ARP ≠ EthernetHeader.TYPE_IPv4 := by decide

namespace NetworkInterface

/-- The frame is for the interface. -/
def Addressed (x : NetworkInterface) (frame : EthernetFrame) : Prop :=
  frame.header.dst = ETHERNET_BROADCAST ∨ frame.header.dst = x.ethernetAddress

instance (x : NetworkInterface) (frame : EthernetFrame) : Decidable (x.Addressed frame) :=
  inferInstanceAs (Decidable (_ ∨ _))

/-- A frame for the interface has a first buffer where `recv_frame` looks at it. -/
def Legible (x : NetworkInterface) (frame : EthernetFrame) : Prop :=
  x.Addressed frame →
    frame.header.type = EthernetHeader.TYPE_IPv4 ∨ frame.header.type = EthernetHeader.TYPE_ARP →
      frame.payload.buffers ≠ []

instance (x : NetworkInterface) (frame : EthernetFrame) : Decidable (x.Legible frame) :=
  inferInstanceAs (Decidable (_ → _ ∨ _ → _))

/-- The ARP message that a frame brings to the interface. -/
def heard (x : NetworkInterface) (frame : EthernetFrame) : Option ARPMessage :=
  if x.Addressed frame ∧ frame.header.type = EthernetHeader.TYPE_ARP then
    frame.payload.buffers.head?.bind fun front =>
      if (({} : ARPMessage).parse front).1 = .noError then some (({} : ARPMessage).parse front).2
      else none
  else none

/-- The datagram that a frame brings to the interface. -/
def brought (x : NetworkInterface) (frame : EthernetFrame) : Option InternetDatagram :=
  if x.Addressed frame ∧ frame.header.type = EthernetHeader.TYPE_IPv4 then
    frame.payload.buffers.head?.bind fun front =>
      if (({} : IPv4Datagram).parse front).1 = .noError then
        some (({} : IPv4Datagram).parse front).2
      else none
  else none

section Calls

variable {x : NetworkInterface} {dgram : InternetDatagram} {hop : UInt32} {dst : EthernetAddress}

theorem send_ip_done (h : dgram.Serializable) (x : NetworkInterface) (hop : UInt32)
    (dst : EthernetAddress) : ∃ frame : EthernetFrame, frame.header.dst = dst ∧
      frame.header.type = EthernetHeader.TYPE_IPv4 ∧ dgram.serialize = .ok frame.payload ∧
        x.sendIp dgram hop dst =
          .done { x.push frame with emitted := x.emitted ++ [(hop, dgram)] } () := by
  obtain ⟨payload, hp⟩ := h.serialize
  refine ⟨{ header := { dst, src := x.ethernetAddress, type := EthernetHeader.TYPE_IPv4 }, payload },
    rfl, rfl, hp, ?_⟩
  rw [sendIp, hp]

theorem send_ip_fail (h : ¬ dgram.Serializable) (x : NetworkInterface) (hop : UInt32)
    (dst : EthernetAddress) : ∃ what, x.sendIp dgram hop dst = .fail x (.runtimeError what) := by
  obtain ⟨what, hw⟩ := IPv4Datagram.serialize_throws h
  exact ⟨what, by rw [sendIp, hw]⟩

/-- The messages the interface writes are supported ones. -/
theorem send_request_done (x : NetworkInterface) (dgram : InternetDatagram) (hop : UInt32) :
    ∃ frame : EthernetFrame, frame.header.type = EthernetHeader.TYPE_ARP ∧
      frame.asksFor = some hop ∧
      x.sendRequest dgram hop = .done { x.push frame with
        waitingList := x.waitingList.insert hop dgram
        timeSinceReqSend := x.timeSinceReqSend.insert hop 0
        reqs := x.reqs.insert hop frame } () := by
  let arpMessage : ARPMessage :=
    { opcode := ARPMessage.OPCODE_REQUEST
      senderEthernetAddress := x.ethernetAddress
      senderIpAddress := x.ipAddress.ipv4Numeric
      targetIpAddress := hop }
  have hp : arpMessage.serialize = .ok arpMessage.written := ARPMessage.serialize_eq rfl
  refine ⟨{ header := { dst := ETHERNET_BROADCAST, src := x.ethernetAddress,
                        type := EthernetHeader.TYPE_ARP }
            payload := ⟨[arpMessage.written]⟩ }, rfl, ?_, ?_⟩
  · exact (EthernetFrame.asks_for_message rfl rfl).trans (if_pos rfl)
  · simp only [sendRequest]
    rw [hp]
    rfl

theorem answer_done (x : NetworkInterface) (arp : ARPMessage) (src : EthernetAddress) :
    ∃ frames : List EthernetFrame,
      (∀ f ∈ frames, f.header.type = EthernetHeader.TYPE_ARP ∧ f.asksFor = none) ∧
      x.answer arp src = .done { x with framesOut := x.framesOut ++ frames } () := by
  unfold answer
  split
  · let reply : ARPMessage :=
      { opcode := ARPMessage.OPCODE_REPLY
        targetIpAddress := arp.senderIpAddress
        senderIpAddress := x.ipAddress.ipv4Numeric
        targetEthernetAddress := arp.senderEthernetAddress
        senderEthernetAddress := x.ethernetAddress }
    have hp : reply.serialize = .ok reply.written := ARPMessage.serialize_eq rfl
    refine ⟨[{ header := { src := x.ethernetAddress, dst := src, type := EthernetHeader.TYPE_ARP }
               payload := ⟨[reply.written]⟩ }], ?_, ?_⟩
    · have hreply : reply.opcode ≠ ARPMessage.OPCODE_REQUEST := (by decide : (2 : UInt16) ≠ 1)
      rw [List.forall_mem_singleton]
      exact ⟨rfl, (EthernetFrame.asks_for_message rfl rfl).trans (if_neg hreply)⟩
    · simp only
      rw [hp]
      rfl
  · exact ⟨[], by simp, by simp⟩

/-- What `send_datagram` can do: the hop is waited for already; it is asked for; or it is
in the cache. -/
theorem send_datagram_cases (x : NetworkInterface) (dgram : InternetDatagram) (nextHop : Address) :
    (∃ w, x.ipMacCache.find? nextHop.ipv4Numeric = none ∧
      x.waitingList.find? nextHop.ipv4Numeric = some w ∧
      x.sendDatagram dgram nextHop = .done (x.sendAgain nextHop.ipv4Numeric) ()) ∨
    (∃ frame : EthernetFrame, x.ipMacCache.find? nextHop.ipv4Numeric = none ∧
      x.waitingList.find? nextHop.ipv4Numeric = none ∧
      frame.header.type = EthernetHeader.TYPE_ARP ∧
      frame.asksFor = some nextHop.ipv4Numeric ∧
      x.sendDatagram dgram nextHop = .done { x.push frame with
        waitingList := x.waitingList.insert nextHop.ipv4Numeric dgram
        timeSinceReqSend := x.timeSinceReqSend.insert nextHop.ipv4Numeric 0
        reqs := x.reqs.insert nextHop.ipv4Numeric frame } ()) ∨
    ∃ mac, x.ipMacCache.find? nextHop.ipv4Numeric = some mac ∧
      x.sendDatagram dgram nextHop = x.sendIp dgram nextHop.ipv4Numeric mac := by
  unfold sendDatagram
  cases hmac : x.ipMacCache.find? nextHop.ipv4Numeric with
  | some mac => exact .inr (.inr ⟨mac, rfl, by simp only [hmac]⟩)
  | none =>
    cases hw : x.waitingList.find? nextHop.ipv4Numeric with
    | some w => exact .inl ⟨w, rfl, rfl, by simp only [hmac, hw, Option.isSome_some, ↓reduceIte]⟩
    | none =>
      obtain ⟨frame, htype, hasks, heq⟩ := x.send_request_done dgram nextHop.ipv4Numeric
      refine .inr (.inl ⟨frame, rfl, rfl, htype, hasks, ?_⟩)
      simp only [hmac, hw, heq, Option.isSome_none, Bool.false_eq_true, ↓reduceIte]

theorem send_datagram_ok (h : dgram.Serializable) (x : NetworkInterface) (nextHop : Address) :
    (x.sendDatagram dgram nextHop).result = .ok () := by
  rcases x.send_datagram_cases dgram nextHop with ⟨w, -, -, heq⟩ | ⟨frame, -, -, -, -, heq⟩ |
    ⟨mac, -, heq⟩
  · rw [heq]
    rfl
  · rw [heq]
    rfl
  · obtain ⟨frame, -, -, -, hsent⟩ := send_ip_done h x nextHop.ipv4Numeric mac
    rw [heq, hsent]
    rfl

/-- What an ARP message can do: it sets no datagram free, and at most a reply is sent; or it
is a reply from a hop that a datagram waits for, and this one is sent. -/
theorem recv_arp_cases (x : NetworkInterface) (arp : ARPMessage) (src : EthernetAddress) :
    (∃ frames : List EthernetFrame,
      (∀ f ∈ frames, f.header.type = EthernetHeader.TYPE_ARP ∧ f.asksFor = none) ∧
      (arp.opcode = ARPMessage.OPCODE_REPLY → x.waitingList.find? arp.senderIpAddress = none) ∧
      x.recvArp arp src =
        .done (({ x with framesOut := x.framesOut ++ frames } : NetworkInterface).learn arp) ()) ∨
    ∃ w, arp.opcode = ARPMessage.OPCODE_REPLY ∧
      x.waitingList.find? arp.senderIpAddress = some w ∧
      x.recvArp arp src = ((x.release arp.senderIpAddress).sendIp w arp.senderIpAddress
        arp.senderEthernetAddress).andThen fun _ x => .done (x.learn arp) () := by
  unfold recvArp
  by_cases hreply : arp.opcode = ARPMessage.OPCODE_REPLY
  · rw [if_pos hreply, takeReply]
    cases hw : x.waitingList.find? arp.senderIpAddress with
    | none => exact .inl ⟨[], by simp, fun _ => rfl, by simp [Outcome.andThen]⟩
    | some w => exact .inr ⟨w, hreply, rfl, rfl⟩
  · obtain ⟨frames, htype, heq⟩ := x.answer_done arp src
    rw [if_neg hreply, heq]
    exact .inl ⟨frames, htype, fun h => absurd h hreply, rfl⟩

/-- What an ARP message leaves: its address is learned; or a datagram that waited for it is
sent besides; or there is one that cannot be written, and it is gone, and nothing is
learned. -/
theorem recv_arp_state (x : NetworkInterface) (arp : ARPMessage) (src : EthernetAddress) :
    (∃ frames : List EthernetFrame,
      (∀ f ∈ frames, f.header.type = EthernetHeader.TYPE_ARP ∧ f.asksFor = none) ∧
      (arp.opcode = ARPMessage.OPCODE_REPLY → x.waitingList.find? arp.senderIpAddress = none) ∧
      (x.recvArp arp src).state =
        ({ x with framesOut := x.framesOut ++ frames } : NetworkInterface).learn arp) ∨
    (∃ w, ∃ frame : EthernetFrame, arp.opcode = ARPMessage.OPCODE_REPLY ∧
      x.waitingList.find? arp.senderIpAddress = some w ∧
      frame.header.dst = arp.senderEthernetAddress ∧
      frame.header.type = EthernetHeader.TYPE_IPv4 ∧
      (x.recvArp arp src).state = ({ (x.release arp.senderIpAddress).push frame with
        emitted := x.emitted ++ [(arp.senderIpAddress, w)] } : NetworkInterface).learn arp) ∨
    ∃ w, arp.opcode = ARPMessage.OPCODE_REPLY ∧
      x.waitingList.find? arp.senderIpAddress = some w ∧ ¬ w.Serializable ∧
      (x.recvArp arp src).state = x.release arp.senderIpAddress := by
  rcases x.recv_arp_cases arp src with ⟨frames, htype, hnone, heq⟩ | ⟨w, hreply, hw, heq⟩
  · exact .inl ⟨frames, htype, hnone, by rw [heq]; rfl⟩
  by_cases hs : w.Serializable
  · obtain ⟨frame, hdst, htype, -, hdone⟩ := send_ip_done hs (x.release arp.senderIpAddress)
      arp.senderIpAddress arp.senderEthernetAddress
    exact .inr (.inl ⟨w, frame, hreply, hw, hdst, htype, by rw [heq, hdone]; rfl⟩)
  · obtain ⟨what, hfail⟩ := send_ip_fail hs (x.release arp.senderIpAddress)
      arp.senderIpAddress arp.senderEthernetAddress
    exact .inr (.inr ⟨w, hreply, hw, hs, by rw [heq, hfail]; rfl⟩)

/-- What `recv_frame` can do: the frame cannot be read; it brings a datagram or nothing,
and the interface stays as it is; or it brings an ARP message. -/
theorem recv_frame_cases (x : NetworkInterface) (frame : EthernetFrame) :
    (¬ x.Legible frame ∧ x.heard frame = none ∧ x.recvFrame frame = .fail x .undefined) ∨
    (x.Legible frame ∧ x.heard frame = none ∧ x.recvFrame frame = .done x (x.brought frame)) ∨
    ∃ arp, x.Legible frame ∧ x.heard frame = some arp ∧ x.brought frame = none ∧
      x.recvFrame frame = (x.recvArp arp frame.header.src).andThen fun _ x => .done x none := by
  by_cases hto : x.Addressed frame
  · have hdst : ¬ (frame.header.dst ≠ ETHERNET_BROADCAST ∧ frame.header.dst ≠ x.ethernetAddress) :=
      or_iff_not_and_not.mp hto
    rw [recvFrame, if_neg hdst]
    by_cases hip : frame.header.type = EthernetHeader.TYPE_IPv4
    · cases hb : frame.payload.buffers with
      | nil => exact .inl (by simp [Legible, heard, hto, hip, hb])
      | cons front rest =>
        exact .inr (.inl (by simp [Legible, heard, brought, hto, hip, arp_ne_ipv4.symm, hb]))
    by_cases harp : frame.header.type = EthernetHeader.TYPE_ARP
    · cases hb : frame.payload.buffers with
      | nil => exact .inl (by simp [Legible, heard, hto, harp, arp_ne_ipv4, hb])
      | cons front rest =>
        by_cases hok : (({} : ARPMessage).parse front).1 = .noError
        · refine .inr (.inr ⟨(({} : ARPMessage).parse front).2, ?_⟩)
          simp [Legible, heard, brought, hto, harp, arp_ne_ipv4, hb, hok]
        · exact .inr (.inl (by simp [Legible, heard, brought, hto, harp, arp_ne_ipv4, hb, hok]))
    · exact .inr (.inl (by simp [Legible, heard, brought, hto, hip, harp]))
  · have hdst : frame.header.dst ≠ ETHERNET_BROADCAST ∧ frame.header.dst ≠ x.ethernetAddress :=
      not_or.mp hto
    exact .inr (.inl (by simp [Legible, heard, brought, recvFrame, hto, hdst]))

/-- Only an ARP message changes the interface. -/
theorem recv_frame_heard (x : NetworkInterface) (frame : EthernetFrame) :
    (x.heard frame = none ∧ (x.recvFrame frame).state = x) ∨
      ∃ arp, x.heard frame = some arp ∧
        (x.recvFrame frame).state = (x.recvArp arp frame.header.src).state := by
  rcases x.recv_frame_cases frame with ⟨-, hh, heq⟩ | ⟨-, hh, heq⟩ | ⟨arp, -, hh, -, heq⟩
  · exact .inl ⟨hh, by rw [heq]; rfl⟩
  · exact .inl ⟨hh, by rw [heq]; rfl⟩
  · exact .inr ⟨arp, hh, by rw [heq]; exact Outcome.state_and_then_same _ (fun _ _ => rfl)⟩

/-- The rule for the state after a frame. -/
theorem recv_frame_state {P : NetworkInterface → Prop} {x : NetworkInterface} (h : P x)
    (frame : EthernetFrame) (arp : ∀ arp src, P (x.recvArp arp src).state) :
    P (x.recvFrame frame).state := by
  rcases x.recv_frame_heard frame with ⟨-, heq⟩ | ⟨m, -, heq⟩
  · rwa [heq]
  · rw [heq]
    exact arp m frame.header.src

end Calls

end NetworkInterface

end Sponge
