import Sponge.Lib.Run
import Sponge.Link.Interface

namespace Sponge

/-- What is done with an interface. -/
inductive InterfaceUse where
  | sendDatagram (dgram : InternetDatagram) (nextHop : Address)
  | recvFrame (frame : EthernetFrame)
  | tick (ms : UInt64)
  deriving DecidableEq, Repr

/-- The datagrams for one next hop. -/
def forHop (hop : UInt32) (log : List (UInt32 × InternetDatagram)) : List InternetDatagram :=
  (log.filter (·.1 = hop)).map (·.2)

theorem for_hop_append (hop k : UInt32) (log : List (UInt32 × InternetDatagram))
    (d : InternetDatagram) :
    forHop hop (log ++ [(k, d)]) = forHop hop log ++ if hop = k then [d] else [] := by
  by_cases h : hop = k
  · simp [forHop, h]
  · simp [forHop, h, Ne.symm h]

namespace NetworkInterface

/-- The IPv4 frames in the queue carry the datagrams emitted, in their order, and the
requests that may be sent again are ARP frames. -/
structure Framed (x : NetworkInterface) : Prop where
  carried : List.Forall₂ (fun e frame => e.2.serialize = .ok frame.payload) x.emitted
    (x.framesOut.filter (·.header.type = EthernetHeader.TYPE_IPv4))
  requests : ∀ e ∈ x.reqs.entries, e.2.header.type = EthernetHeader.TYPE_ARP

section Frames

variable {x y : NetworkInterface}

theorem Framed.keep (h : x.Framed) (hframes : y.framesOut = x.framesOut)
    (hemitted : y.emitted = x.emitted) (hreqs : ∀ e ∈ y.reqs.entries, e ∈ x.reqs.entries) :
    y.Framed :=
  ⟨by rw [hframes, hemitted]; exact h.carried, fun e he => h.requests e (hreqs e he)⟩

/-- Other frames do not count. -/
theorem Framed.others (h : x.Framed) (frames : List EthernetFrame)
    (hother : ∀ f ∈ frames, f.header.type ≠ EthernetHeader.TYPE_IPv4) :
    ({ x with framesOut := x.framesOut ++ frames } : NetworkInterface).Framed := by
  refine ⟨?_, h.requests⟩
  have hnone : frames.filter (·.header.type = EthernetHeader.TYPE_IPv4) = [] := by
    simpa [List.filter_eq_nil_iff] using hother
  simp only [List.filter_append, hnone, List.append_nil]
  exact h.carried

theorem Framed.send_ip (h : x.Framed) (dgram : InternetDatagram) (hop : UInt32)
    (dst : EthernetAddress) : (x.sendIp dgram hop dst).state.Framed := by
  by_cases hs : dgram.Serializable
  · obtain ⟨frame, -, htype, hpay, heq⟩ := send_ip_done hs x hop dst
    rw [heq]
    refine ⟨?_, h.requests⟩
    simp only [Outcome.state_done, push, List.filter_append]
    refine List.rel_append h.carried ?_
    simpa [htype] using hpay
  · obtain ⟨what, heq⟩ := send_ip_fail hs x hop dst
    rw [heq]
    exact h

/-- A request that is sent again is an ARP frame, and so is no datagram. -/
theorem Framed.request_other (h : x.Framed) (hop : UInt32) :
    ((x.reqs.find? hop).getD {}).header.type ≠ EthernetHeader.TYPE_IPv4 := by
  cases hr : x.reqs.find? hop with
  | none => decide
  | some frame =>
    have htype : frame.header.type = EthernetHeader.TYPE_ARP :=
      h.requests _ (OrdMap.mem_of_find? hr)
    rw [Option.getD_some, htype]
    exact arp_ne_ipv4

theorem Framed.send_again (h : x.Framed) (hop : UInt32) : (x.sendAgain hop).Framed := by
  unfold sendAgain
  split
  · refine ⟨(h.others [(x.reqs.find? hop).getD {}] ?_).carried, h.requests⟩
    exact List.forall_mem_singleton.mpr (h.request_other hop)
  · exact h

theorem Framed.send_datagram (h : x.Framed) (dgram : InternetDatagram) (nextHop : Address) :
    (x.sendDatagram dgram nextHop).state.Framed := by
  rcases x.send_datagram_cases dgram nextHop with ⟨w, -, -, heq⟩ | ⟨frame, -, -, htype, -, heq⟩ |
      ⟨mac, -, heq⟩
  · rw [heq]
    exact h.send_again _
  · rw [heq]
    refine ⟨(h.others [frame] ?_).carried, ?_⟩
    · simpa [htype] using arp_ne_ipv4
    · intro e he
      rcases OrdMap.mem_insert.mp he with rfl | ⟨he, -⟩
      · exact htype
      · exact h.requests e he
  · rw [heq]
    exact h.send_ip _ _ _

theorem Framed.recv_arp (h : x.Framed) (arp : ARPMessage) (src : EthernetAddress) :
    (x.recvArp arp src).state.Framed := by
  rcases x.recv_arp_cases arp src with ⟨frames, htype, -, heq⟩ | ⟨w, -, -, heq⟩
  · rw [heq]
    have hother : ∀ f ∈ frames, f.header.type ≠ EthernetHeader.TYPE_IPv4 := by
      intro f hf
      rw [(htype f hf).1]
      exact arp_ne_ipv4
    exact (h.others frames hother).keep rfl rfl (fun _ he => he)
  · rw [heq]
    have hfree : (x.release arp.senderIpAddress).Framed :=
      h.keep rfl rfl (fun e he => (OrdMap.mem_erase.mp he).1)
    exact Outcome.state_and_then (hfree.send_ip _ _ _)
      (fun _ _ hs => hs.keep rfl rfl (fun _ he => he))

theorem Framed.recv_frame (h : x.Framed) (frame : EthernetFrame) :
    (x.recvFrame frame).state.Framed :=
  recv_frame_state h frame h.recv_arp

end Frames

section Places

/-- Where the datagrams are: what was emitted for a hop and what waits for it. -/
def placed (x : NetworkInterface) (hop : UInt32) : List InternetDatagram :=
  forHop hop x.emitted ++ (x.waitingList.find? hop).toList

variable {x : NetworkInterface}

theorem placed_send_ip {dgram : InternetDatagram} (h : dgram.Serializable) (x : NetworkInterface)
    (k : UInt32) (dst : EthernetAddress) (hop : UInt32) :
    (x.sendIp dgram k dst).state.placed hop =
      forHop hop x.emitted ++ (if hop = k then [dgram] else []) ++
        (x.waitingList.find? hop).toList := by
  obtain ⟨frame, -, -, -, heq⟩ := send_ip_done h x k dst
  rw [heq]
  simp only [Outcome.state_done, placed, for_hop_append]
  rfl

theorem placed_send_again (x : NetworkInterface) (k hop : UInt32) :
    (x.sendAgain k).placed hop = x.placed hop := by
  unfold sendAgain
  split <;> rfl

theorem placed_send_request (x : NetworkInterface) (dgram : InternetDatagram) (k hop : UInt32) :
    (x.sendRequest dgram k).state.placed hop =
      forHop hop x.emitted ++ (if hop = k then some dgram else x.waitingList.find? hop).toList := by
  obtain ⟨frame, -, -, heq⟩ := x.send_request_done dgram k
  rw [heq]
  simp only [Outcome.state_done, placed, OrdMap.find?_insert]
  rfl

/-- What has to hold for the datagram that a message sets free to be sent. -/
def CanFollow (x : NetworkInterface) (arp : ARPMessage) : Prop :=
  arp.opcode = ARPMessage.OPCODE_REPLY →
    ∀ w ∈ x.waitingList.find? arp.senderIpAddress, w.Serializable

instance (x : NetworkInterface) (arp : ARPMessage) : Decidable (x.CanFollow arp) :=
  inferInstanceAs (Decidable (_ → ∀ w ∈ x.waitingList.find? arp.senderIpAddress, w.Serializable))

/-- A datagram that can be written goes from the waiting list into a frame. -/
theorem placed_release {k : UInt32} {w : InternetDatagram} (hw : x.waitingList.find? k = some w)
    (hs : w.Serializable) (dst : EthernetAddress) (hop : UInt32) :
    ((x.release k).sendIp w k dst).state.placed hop = x.placed hop := by
  rw [placed_send_ip hs]
  simp only [release, placed, OrdMap.find?_erase]
  by_cases heq : hop = k
  · simp [heq, hw]
  · simp [heq]

/-- One that cannot is gone from the waiting list all the same. -/
theorem placed_release_lost {k : UInt32} {w : InternetDatagram}
    (hw : x.waitingList.find? k = some w) (hs : ¬ w.Serializable) (dst : EthernetAddress) :
    ((x.release k).sendIp w k dst).state.placed k ++ [w] = x.placed k := by
  obtain ⟨what, heq⟩ := send_ip_fail hs (x.release k) k dst
  rw [heq]
  simp [release, placed, OrdMap.find?_erase, hw]

theorem placed_recv_arp_iff (x : NetworkInterface) (arp : ARPMessage) (src : EthernetAddress) :
    (∀ hop, (x.recvArp arp src).state.placed hop = x.placed hop) ↔ x.CanFollow arp := by
  rcases x.recv_arp_cases arp src with ⟨frames, -, hnone, heq⟩ | ⟨w, hreply, hw, heq⟩
  · refine iff_of_true (fun hop => by rw [heq]; rfl) (fun hreply => ?_)
    simp [hnone hreply]
  · -- learning the address moves nothing
    have hsent : ∀ hop, (x.recvArp arp src).state.placed hop =
        ((x.release arp.senderIpAddress).sendIp w arp.senderIpAddress
          arp.senderEthernetAddress).state.placed hop := by
      intro hop
      rw [heq]
      exact Outcome.state_and_then
        (P := fun y : NetworkInterface => y.placed hop = ((x.release arp.senderIpAddress).sendIp w
          arp.senderIpAddress arp.senderEthernetAddress).state.placed hop) rfl (fun _ _ hs => hs)
    simp only [hsent]
    constructor
    · intro h _ w' hw'
      cases hw.symm.trans hw'
      by_contra hs
      have hlost := placed_release_lost hw hs arp.senderEthernetAddress
      rw [h] at hlost
      simp at hlost
    · exact fun h => placed_release hw (h hreply w hw) arp.senderEthernetAddress

theorem placed_recv_frame_iff (x : NetworkInterface) (frame : EthernetFrame) :
    (∀ hop, (x.recvFrame frame).state.placed hop = x.placed hop) ↔
      ∀ arp ∈ x.heard frame, x.CanFollow arp := by
  rcases x.recv_frame_cases frame with ⟨-, hh, heq⟩ | ⟨-, hh, heq⟩ | ⟨arp, -, hh, -, heq⟩
  · simp [heq, hh]
  · simp [heq, hh]
  · rw [heq, Outcome.state_and_then_same _ (fun _ _ => rfl), hh]
    simp only [placed_recv_arp_iff, Option.mem_some_iff, forall_eq']

/-- How a datagram has to find the interface: it can be written if its hop is known, and
if one waits for the hop already, the hop is known and the two are the same, so that
it does not show which one went first. -/
def CanTake (x : NetworkInterface) (dgram : InternetDatagram) (hop : UInt32) : Prop :=
  ((x.ipMacCache.find? hop).isSome = true → dgram.Serializable) ∧
    ∀ w ∈ x.waitingList.find? hop, (x.ipMacCache.find? hop).isSome = true ∧ dgram = w

instance (x : NetworkInterface) (dgram : InternetDatagram) (hop : UInt32) :
    Decidable (x.CanTake dgram hop) :=
  inferInstanceAs (Decidable ((_ → _) ∧
    ∀ w ∈ x.waitingList.find? hop, (x.ipMacCache.find? hop).isSome = true ∧ dgram = w))

/-- If nothing has moved, the new datagram has no place. -/
theorem not_placed_of_same {y : NetworkInterface} (k : UInt32) (dgram : InternetDatagram)
    (h : ∀ hop, y.placed hop = x.placed hop) :
    ¬ ∀ hop, y.placed hop = x.placed hop ++ if hop = k then [dgram] else [] := by
  intro hall
  have := hall k
  simp [h] at this

theorem placed_send_ip_iff {dgram : InternetDatagram} (hs : dgram.Serializable)
    (x : NetworkInterface) (k : UInt32) (dst : EthernetAddress) :
    (∀ hop, (x.sendIp dgram k dst).state.placed hop =
      x.placed hop ++ if hop = k then [dgram] else []) ↔
      ∀ w ∈ x.waitingList.find? k, dgram = w := by
  simp only [placed_send_ip hs]
  simp only [placed, List.append_assoc, List.append_cancel_left_eq]
  constructor
  · intro h w hw
    have hk := h k
    rw [Option.mem_def.mp hw] at hk
    simp only [↓reduceIte, Option.toList_some, List.cons_append, List.nil_append,
      List.cons.injEq] at hk
    exact hk.1
  · intro h hop
    by_cases heq : hop = k
    · cases hw : x.waitingList.find? k with
      | none => simp [heq, hw]
      | some w => simp [heq, hw, h w hw]
    · simp [heq]

theorem placed_send_datagram_iff (x : NetworkInterface) (dgram : InternetDatagram)
    (nextHop : Address) :
    (∀ hop, (x.sendDatagram dgram nextHop).state.placed hop =
      x.placed hop ++ if hop = nextHop.ipv4Numeric then [dgram] else []) ↔
      x.CanTake dgram nextHop.ipv4Numeric := by
  unfold sendDatagram CanTake
  simp only
  generalize nextHop.ipv4Numeric = k
  cases hc : x.ipMacCache.find? k with
  | none =>
    cases hw : x.waitingList.find? k with
    | none =>
      refine iff_of_true (fun hop => ?_) (by simp)
      rw [if_neg (by simp), placed_send_request, placed]
      by_cases heq : hop = k
      · simp [heq, hw]
      · simp [heq]
    | some w =>
      refine iff_of_false ?_ (by simp)
      exact not_placed_of_same k dgram (x.placed_send_again k)
  | some mac =>
    by_cases hs : dgram.Serializable
    · simp only [placed_send_ip_iff hs]
      simp [hs]
    · obtain ⟨what, heq⟩ := send_ip_fail hs x k mac
      simp only [heq]
      exact iff_of_false (not_placed_of_same k dgram (fun _ => rfl)) (fun h => hs (h.1 rfl))

end Places

section Defined

variable {x : NetworkInterface}

theorem send_ip_defined (x : NetworkInterface) (dgram : InternetDatagram) (hop : UInt32)
    (dst : EthernetAddress) : (x.sendIp dgram hop dst).result ≠ .error .undefined := by
  by_cases hs : dgram.Serializable
  · obtain ⟨frame, -, -, -, heq⟩ := send_ip_done hs x hop dst
    simp [heq]
  · obtain ⟨what, heq⟩ := send_ip_fail hs x hop dst
    simp [heq]

theorem recv_arp_defined (x : NetworkInterface) (arp : ARPMessage) (src : EthernetAddress) :
    (x.recvArp arp src).result ≠ .error .undefined := by
  rcases x.recv_arp_cases arp src with ⟨frames, -, -, heq⟩ | ⟨w, -, -, heq⟩
  · simp [heq]
  · rw [heq]
    exact Outcome.and_then_result_ne (send_ip_defined _ _ _ _) (by simp)

theorem recv_frame_defined_iff (x : NetworkInterface) (frame : EthernetFrame) :
    (x.recvFrame frame).result ≠ .error .undefined ↔ x.Legible frame := by
  rcases x.recv_frame_cases frame with ⟨hl, -, heq⟩ | ⟨hl, -, heq⟩ | ⟨arp, hl, -, -, heq⟩
  · simp [heq, hl]
  · simp [heq, hl]
  · rw [heq]
    exact iff_of_true (Outcome.and_then_result_ne (x.recv_arp_defined _ _) (by simp)) hl

end Defined

end NetworkInterface

/-- An interface in use, and the datagrams it was given, each with its next hop. -/
structure InterfaceSession where
  interface : NetworkInterface
  given : List (UInt32 × InternetDatagram) := []

namespace InterfaceSession

open NetworkInterface

def new (ethernetAddress : EthernetAddress) (ipAddress : Address) : InterfaceSession :=
  { interface := .new ethernetAddress ipAddress }

def step (x : InterfaceSession) : InterfaceUse → InterfaceSession
  | .sendDatagram dgram nextHop =>
    { interface := (x.interface.sendDatagram dgram nextHop).state
      given := x.given ++ [(nextHop.ipv4Numeric, dgram)] }
  | .recvFrame frame => { x with interface := (x.interface.recvFrame frame).state }
  | .tick ms => { x with interface := x.interface.tick ms }

/-- Every datagram given for a hop is emitted once, in the order in which they were
given, or it is the last one and still waits. -/
structure Accounted (x : InterfaceSession) : Prop where
  framed : x.interface.Framed
  placed : ∀ hop, x.interface.placed hop = forHop hop x.given

theorem new_accounted (ethernetAddress : EthernetAddress) (ipAddress : Address) :
    (new ethernetAddress ipAddress).Accounted :=
  ⟨⟨.nil, by simp [new, NetworkInterface.new]⟩, fun _ => rfl⟩

/-- The call has a meaning: only `recv_frame` can be without one. -/
def Defined (x : InterfaceSession) : InterfaceUse → Prop
  | .recvFrame frame => (x.interface.recvFrame frame).result ≠ .error .undefined
  | .sendDatagram _ _ | .tick _ => True

/-- The call is defined, and no datagram is lost, doubled or overtaken in it. -/
def Keeps (x : InterfaceSession) (u : InterfaceUse) : Prop :=
  x.Defined u ∧ (x.step u).Accounted

/-- What has to hold before a call. -/
def Safe (x : InterfaceSession) : InterfaceUse → Prop
  | .sendDatagram dgram nextHop => x.interface.CanTake dgram nextHop.ipv4Numeric
  | .recvFrame frame =>
    x.interface.Legible frame ∧ ∀ arp ∈ x.interface.heard frame, x.interface.CanFollow arp
  | .tick _ => True

instance (x : InterfaceSession) : (u : InterfaceUse) → Decidable (x.Safe u)
  | .sendDatagram dgram nextHop =>
    inferInstanceAs (Decidable (x.interface.CanTake dgram nextHop.ipv4Numeric))
  | .recvFrame frame => inferInstanceAs (Decidable
      (x.interface.Legible frame ∧ ∀ arp ∈ x.interface.heard frame, x.interface.CanFollow arp))
  | .tick _ => .isTrue trivial

theorem keeps_iff_safe {x : InterfaceSession} (h : x.Accounted) (u : InterfaceUse) :
    x.Keeps u ↔ x.Safe u := by
  obtain ⟨hframed, hplaced⟩ := h
  cases u with
  | sendDatagram dgram nextHop =>
    have hframed := hframed.send_datagram dgram nextHop
    have hiff := x.interface.placed_send_datagram_iff dgram nextHop
    simp only [hplaced, ← for_hop_append] at hiff
    exact ⟨fun hk => hiff.mp hk.2.placed, fun hs => ⟨trivial, hframed, hiff.mpr hs⟩⟩
  | recvFrame frame =>
    have hframed := hframed.recv_frame frame
    have hdefined := x.interface.recv_frame_defined_iff frame
    have hiff := x.interface.placed_recv_frame_iff frame
    simp only [hplaced] at hiff
    exact ⟨fun hk => ⟨hdefined.mp hk.1, hiff.mp hk.2.placed⟩,
      fun hs => ⟨hdefined.mpr hs.1, hframed, hiff.mpr hs.2⟩⟩
  | tick ms =>
    exact iff_of_true ⟨trivial, hframed.keep rfl rfl (fun _ he => he), hplaced⟩ trivial

/-- No datagram is lost, doubled or overtaken in a run just when none is given for a hop
that one waits for, and none that is to be sent is one that cannot be written. -/
theorem accounted_iff_safe (ethernetAddress : EthernetAddress) (ipAddress : Address)
    (us : List InterfaceUse) :
    Run.Along step Keeps (new ethernetAddress ipAddress) us ↔
      Run.Along step Safe (new ethernetAddress ipAddress) us :=
  Run.along_congr (new_accounted ethernetAddress ipAddress) (fun _ u _ hx => keeps_iff_safe hx u)
    (fun _ _ _ _ hk => hk.2)

/-- The second datagram for a hop that is not resolved yet is dropped. -/
theorem second_datagram_dropped :
    ¬ ∀ (ethernetAddress : EthernetAddress) (ipAddress : Address) (us : List InterfaceUse),
      Run.Along step Keeps (new ethernetAddress ipAddress) us := by
  intro h
  obtain ⟨hfirst, hsecond, -⟩ := h (.replicate 6 1) ⟨1⟩
    [.sendDatagram { header := { len := 20, id := 1 } } ⟨2⟩,
      .sendDatagram { header := { len := 20, id := 2 } } ⟨2⟩]
  have hsafe := (keeps_iff_safe hfirst.2 _).mp hsecond
  revert hsafe
  decide +kernel

end InterfaceSession

end Sponge
