import Sponge.Link.Cache

namespace Sponge

namespace NetworkInterface

/-- No datagram waits for an address that is in the cache. -/
def Apart (x : NetworkInterface) : Prop :=
  ∀ ip, x.waitingList.find? ip = none ∨ x.ipMacCache.find? ip = none

/-- The message is learned without a datagram being left that waits for it: a reply sets
it free, and a request has to find none. -/
def LearnsFreely (x : NetworkInterface) (arp : ARPMessage) : Prop :=
  arp.opcode ≠ ARPMessage.OPCODE_REPLY → x.waitingList.find? arp.senderIpAddress = none

instance (x : NetworkInterface) (arp : ARPMessage) : Decidable (x.LearnsFreely arp) :=
  inferInstanceAs (Decidable (_ → _ = none))

section Calls

variable {x : NetworkInterface}

theorem Apart.same {y : NetworkInterface} (h : x.Apart) (hwait : y.waitingList = x.waitingList)
    (hcache : y.ipMacCache = x.ipMacCache) : y.Apart := by
  intro ip
  rw [hwait, hcache]
  exact h ip

/-- Only the request for an address that is not in the cache makes a datagram wait. -/
theorem Apart.send_datagram (h : x.Apart) (dgram : InternetDatagram) (nextHop : Address) :
    (x.sendDatagram dgram nextHop).state.Apart := by
  rcases x.send_datagram_cases dgram nextHop with ⟨w, -, -, heq⟩ | ⟨frame, hnone, -, -, -, heq⟩ |
      ⟨mac, -, heq⟩
  · rw [heq, Outcome.state_done, sendAgain]
    split
    · exact h.same rfl rfl
    · exact h
  · rw [heq]
    intro ip
    simp only [Outcome.state_done, OrdMap.find?_insert]
    by_cases hip : ip = nextHop.ipv4Numeric
    · exact .inr (hip ▸ hnone)
    · simp only [if_neg hip]
      exact h ip
  · rw [heq, sendIp]
    split
    · exact h
    · exact h.same rfl rfl

/-- What is not in the cache does not get there by waiting. -/
theorem tick_cache_none {ip : UInt32} (h : x.ipMacCache.find? ip = none) (ms : UInt64) :
    (x.tick ms).ipMacCache.find? ip = none := by
  simp only [tick, OrdMap.find?_erase_all, h, ite_self]

theorem Apart.tick (h : x.Apart) (ms : UInt64) : (x.tick ms).Apart :=
  fun ip => (h ip).imp_right (fun hnone => tick_cache_none hnone ms)

/-- A message that is learned freely finds no datagram that waits for it, or is a reply. -/
theorem LearnsFreely.waiting_none {arp : ARPMessage} (h : x.LearnsFreely arp)
    (hreply : arp.opcode = ARPMessage.OPCODE_REPLY →
      x.waitingList.find? arp.senderIpAddress = none) :
    x.waitingList.find? arp.senderIpAddress = none := by
  by_cases hop : arp.opcode = ARPMessage.OPCODE_REPLY
  · exact hreply hop
  · exact h hop

/-- A message that is learned freely keeps the two maps apart, and so does one that is not
learned. -/
theorem Apart.recv_arp (h : x.Apart) {arp : ARPMessage} (hfree : x.LearnsFreely arp)
    (src : EthernetAddress) : (x.recvArp arp src).state.Apart := by
  rcases x.recv_arp_state arp src with ⟨frames, -, hnone, heq⟩ | ⟨w, frame, -, -, -, -, heq⟩ |
      ⟨w, -, -, -, heq⟩
  · have hsender := hfree.waiting_none hnone
    rw [heq]
    intro ip
    simp only [learn, OrdMap.find?_insert]
    by_cases hip : ip = arp.senderIpAddress
    · exact .inl (hip ▸ hsender)
    · simp only [if_neg hip]
      exact h ip
  · rw [heq]
    intro ip
    simp only [learn, push, release, OrdMap.find?_insert, OrdMap.find?_erase]
    by_cases hip : ip = arp.senderIpAddress
    · simp [hip]
    · simp only [if_neg hip]
      exact h ip
  · rw [heq]
    intro ip
    simp only [release, OrdMap.find?_erase]
    by_cases hip : ip = arp.senderIpAddress
    · simp [hip]
    · simp only [if_neg hip]
      exact h ip

/-- What waited for an address that a message brings into the cache is sent. -/
theorem recv_arp_sends {arp : ARPMessage} {src : EthernetAddress} {ip : UInt32}
    {w : InternetDatagram} (hfree : x.LearnsFreely arp) (hw : x.waitingList.find? ip = some w)
    (hnone : x.ipMacCache.find? ip = none)
    (hknown : (x.recvArp arp src).state.ipMacCache.find? ip ≠ none) :
    (x.recvArp arp src).state.emitted = x.emitted ++ [(ip, w)] := by
  -- only the sender's address can come into the cache
  rcases x.recv_arp_state arp src with ⟨frames, -, hreply, heq⟩ | ⟨w', frame, -, hw', -, -, heq⟩ |
      ⟨w', -, -, -, heq⟩
  · rw [heq] at hknown
    simp only [learn, OrdMap.find?_insert] at hknown
    split at hknown
    · rename_i hip
      rw [hip, hfree.waiting_none hreply] at hw
      cases hw
    · exact absurd hnone hknown
  · rw [heq] at hknown ⊢
    simp only [learn, OrdMap.find?_insert] at hknown ⊢
    split at hknown
    · rename_i hip
      subst hip
      cases hw'.symm.trans hw
      rfl
    · exact absurd hnone hknown
  · rw [heq] at hknown
    exact absurd hnone hknown

/-- A message that is not learned freely spoils it. -/
theorem learns_freely_of_apart {arp : ARPMessage} {src : EthernetAddress}
    (h : (x.recvArp arp src).state.Apart) : x.LearnsFreely arp := by
  intro hreply
  rcases x.recv_arp_state arp src with ⟨frames, -, -, heq⟩ | ⟨w, frame, hrep, -⟩ | ⟨w, hrep, -⟩
  · rw [heq] at h
    have hcache := (h arp.senderIpAddress).resolve_right
      (by simp [learn, OrdMap.find?_insert])
    exact hcache
  · exact absurd hrep hreply
  · exact absurd hrep hreply

end Calls

end NetworkInterface

namespace InterfaceSession

open NetworkInterface

/-- What waited for an address that is in the cache after the call was sent in it. -/
def SendsAwaiting (x : InterfaceSession) (u : InterfaceUse) : Prop :=
  ∀ ip w, x.interface.waitingList.find? ip = some w →
    (x.step u).interface.ipMacCache.find? ip ≠ none →
      (x.step u).interface.emitted = x.interface.emitted ++ [(ip, w)]

/-- Each ARP message that is heard is learned freely. -/
def HearsFreely (x : InterfaceSession) : InterfaceUse → Prop
  | .recvFrame frame => ∀ arp ∈ x.interface.heard frame, x.interface.LearnsFreely arp
  | .sendDatagram _ _ | .tick _ => True

instance (x : InterfaceSession) : (u : InterfaceUse) → Decidable (x.HearsFreely u)
  | .recvFrame frame => inferInstanceAs (Decidable
      (∀ arp ∈ x.interface.heard frame, x.interface.LearnsFreely arp))
  | .sendDatagram _ _ | .tick _ => .isTrue trivial

section Steps

variable {x : InterfaceSession} {u : InterfaceUse}

theorem apart_step (h : x.interface.Apart) (hu : x.HearsFreely u) :
    (x.step u).interface.Apart := by
  cases u with
  | sendDatagram dgram nextHop => exact h.send_datagram dgram nextHop
  | tick ms => exact h.tick ms
  | recvFrame frame =>
    simp only [step]
    rcases x.interface.recv_frame_heard frame with ⟨-, heq⟩ | ⟨arp, hh, heq⟩
    · rwa [heq]
    · rw [heq]
      exact h.recv_arp (hu arp hh) _

theorem hears_freely_of_apart (h : (x.step u).interface.Apart) : x.HearsFreely u := by
  cases u with
  | sendDatagram dgram nextHop => trivial
  | tick ms => trivial
  | recvFrame frame =>
    intro arp hh
    rcases x.interface.recv_frame_heard frame with ⟨hno, -⟩ | ⟨arp', hh', heq⟩
    · rw [hno] at hh
      cases hh
    · rw [hh', Option.mem_some_iff] at hh
      subst hh
      simp only [step, heq] at h
      exact learns_freely_of_apart h

theorem sends_awaiting_step (h : x.interface.Apart) (hu : x.HearsFreely u) :
    x.SendsAwaiting u := by
  intro ip w hw hknown
  have hnone : x.interface.ipMacCache.find? ip = none := (h ip).resolve_left (by simp [hw])
  cases u with
  | sendDatagram dgram nextHop =>
    have hsame := (same_cache_send_datagram x.interface dgram nextHop).cache
    simp only [step, hsame] at hknown
    exact absurd hnone hknown
  | tick ms => exact absurd (tick_cache_none hnone ms) hknown
  | recvFrame frame =>
    simp only [step] at hknown ⊢
    rcases x.interface.recv_frame_heard frame with ⟨-, heq⟩ | ⟨arp, hh, heq⟩
    · rw [heq] at hknown
      exact absurd hnone hknown
    rw [heq] at hknown ⊢
    exact recv_arp_sends (hu arp hh) hw hnone hknown

end Steps

/-- No datagram waits for an address in the cache, in any state of a run, and those that
waited for it have been sent, just when no ARP request comes from a host that a datagram
waits for. -/
theorem apart_iff_hears_freely (ethernetAddress : EthernetAddress) (ipAddress : Address)
    (us : List InterfaceUse) :
    (Run.Always step (fun x => x.interface.Apart) (new ethernetAddress ipAddress) us ∧
      Run.Along step SendsAwaiting (new ethernetAddress ipAddress) us) ↔
      Run.Along step HearsFreely (new ethernetAddress ipAddress) us := by
  have hnew : (new ethernetAddress ipAddress).interface.Apart := fun _ => .inl rfl
  constructor
  · intro h
    exact h.1.along (fun _ _ ha => hears_freely_of_apart ha)
  · intro h
    exact ⟨Run.always_of_invariant hnew h (fun _ _ ha hu => apart_step ha hu) (fun _ ha => ha),
      Run.along_of_invariant (I := fun x => x.interface.Apart) hnew h
        (fun _ _ ha hu => apart_step ha hu) (fun _ _ ha hu => sends_awaiting_step ha hu)⟩

/-- The host that a datagram waits for asks for an address of its own: its address is
learned, and the datagram goes on waiting. -/
theorem request_leaves_datagram_waiting :
    ¬ ∀ (ethernetAddress : EthernetAddress) (ipAddress : Address) (us : List InterfaceUse),
      Run.Always step (fun x => x.interface.Apart) (new ethernetAddress ipAddress) us := by
  intro h
  let request : EthernetFrame :=
    { header := { dst := ETHERNET_BROADCAST, type := EthernetHeader.TYPE_ARP }
      payload := ⟨[[0, 1, 8, 0, 6, 4, 0, 1, 7, 7, 7, 7, 7, 7, 0, 0, 0, 2,
        0, 0, 0, 0, 0, 0, 0, 0, 0, 1]]⟩ }
  have hlast := (h (.replicate 6 1) ⟨1⟩
    [.sendDatagram { header := { len := 20 } } ⟨2⟩, .recvFrame request]).final 2
  revert hlast
  decide +kernel

end InterfaceSession

end Sponge
