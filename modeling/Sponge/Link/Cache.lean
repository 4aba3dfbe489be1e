import Sponge.Link.Custody

namespace Sponge

namespace NetworkInterface

/-- The maps that belong together have the same keys. -/
structure Synced (x : NetworkInterface) : Prop where
  cache : x.ipMacCache.SameKeys x.timeSinceCache
  times : x.waitingList.SameKeys x.timeSinceReqSend
  reqs : x.waitingList.SameKeys x.reqs

section Tick

variable {x : NetworkInterface} {ms : UInt64} {ip : UInt32} {t : UInt32}

/-- What `tick` makes of the two maps of the cache, key by key. -/
theorem tick_unknown (ms : UInt64) (h : x.timeSinceCache.find? ip = none) :
    (x.tick ms).ipMacCache.find? ip = x.ipMacCache.find? ip ∧
      (x.tick ms).timeSinceCache.find? ip = none := by
  simp only [tick, OrdMap.find?_erase_all, OrdMap.mem_keys_iff, OrdMap.find?_map_values,
    OrdMap.find?_filter, h]
  simp

theorem tick_expired (h : x.timeSinceCache.find? ip = some t)
    (hold : t.toUInt64 + ms ≥ MAX_CACHE_TIME) :
    (x.tick ms).ipMacCache.find? ip = none ∧ (x.tick ms).timeSinceCache.find? ip = none := by
  simp only [tick, OrdMap.find?_erase_all, OrdMap.mem_keys_iff, OrdMap.find?_map_values,
    OrdMap.find?_filter, h]
  simp [hold]

theorem tick_kept (h : x.timeSinceCache.find? ip = some t)
    (hnew : t.toUInt64 + ms < MAX_CACHE_TIME) :
    (x.tick ms).ipMacCache.find? ip = x.ipMacCache.find? ip ∧
      (x.tick ms).timeSinceCache.find? ip = some (t.toUInt64 + ms).toUInt32 := by
  simp only [tick, OrdMap.find?_erase_all, OrdMap.mem_keys_iff, OrdMap.find?_map_values,
    OrdMap.find?_filter, h]
  simp [hnew]

/-- An address that is still in the cache was there before, and its age has grown by the
time that has passed: below 30 seconds the sum does not wrap. -/
theorem tick_age (hms : ms.toNat < 2 ^ 63)
    (hyoung : ∀ t₀, x.timeSinceCache.find? ip = some t₀ → t₀.toNat < 30000)
    (h : (x.tick ms).timeSinceCache.find? ip = some t) :
    ∃ t₀, x.timeSinceCache.find? ip = some t₀ ∧ t.toNat = t₀.toNat + ms.toNat ∧ t.toNat < 30000 ∧
      (x.tick ms).ipMacCache.find? ip = x.ipMacCache.find? ip := by
  cases ht₀ : x.timeSinceCache.find? ip with
  | none =>
    rw [(tick_unknown ms ht₀).2] at h
    cases h
  | some t₀ =>
    by_cases hold : t₀.toUInt64 + ms ≥ MAX_CACHE_TIME
    · rw [(tick_expired ht₀ hold).2] at h
      cases h
    · obtain ⟨hcache, hkept⟩ := tick_kept ht₀ (UInt64.not_le.mp hold)
      rw [hkept] at h
      cases h
      have hsmall := hyoung t₀ ht₀
      have hsum : (t₀.toUInt64 + ms).toNat = t₀.toNat + ms.toNat := by
        rw [UInt64.toNat_add, UInt32.toNat_toUInt64]
        omega
      have hlt : t₀.toNat + ms.toNat < 30000 := by
        rw [← hsum]
        exact UInt64.lt_iff_toNat_lt.mp (UInt64.not_le.mp hold)
      have hnat : (t₀.toUInt64 + ms).toUInt32.toNat = t₀.toNat + ms.toNat := by
        rw [UInt64.toNat_toUInt32, hsum]
        omega
      exact ⟨t₀, rfl, hnat, hnat.symm ▸ hlt, hcache⟩

end Tick

section Synced

variable {x : NetworkInterface}

theorem Synced.learn (h : x.Synced) (arp : ARPMessage) : (x.learn arp).Synced :=
  ⟨h.cache.insert _ _ _, h.times, h.reqs⟩

theorem Synced.release (h : x.Synced) (hop : UInt32) : (x.release hop).Synced :=
  ⟨h.cache, h.times.erase hop, h.reqs.erase hop⟩

theorem Synced.send_ip (h : x.Synced) (dgram : InternetDatagram) (hop : UInt32)
    (dst : EthernetAddress) : (x.sendIp dgram hop dst).state.Synced := by
  unfold sendIp
  split
  · exact h
  · exact ⟨h.cache, h.times, h.reqs⟩

theorem Synced.send_datagram (h : x.Synced) (dgram : InternetDatagram) (nextHop : Address) :
    (x.sendDatagram dgram nextHop).state.Synced := by
  rcases x.send_datagram_cases dgram nextHop with ⟨w, -, hw, heq⟩ | ⟨frame, -, -, -, -, heq⟩ |
      ⟨mac, -, heq⟩
  · rw [heq, Outcome.state_done, sendAgain]
    split
    · exact ⟨h.cache, h.times.assign (by rw [hw]; rfl) 0, h.reqs⟩
    · exact h
  · rw [heq]
    exact ⟨h.cache, h.times.insert _ _ _, h.reqs.insert _ _ _⟩
  · rw [heq]
    exact h.send_ip _ _ _

theorem Synced.recv_arp (h : x.Synced) (arp : ARPMessage) (src : EthernetAddress) :
    (x.recvArp arp src).state.Synced := by
  rcases x.recv_arp_cases arp src with ⟨frames, -, -, heq⟩ | ⟨w, -, -, heq⟩
  · rw [heq]
    exact ⟨h.cache.insert _ _ _, h.times, h.reqs⟩
  · rw [heq]
    exact Outcome.state_and_then ((h.release _).send_ip _ _ _) (fun _ _ hs => hs.learn arp)

theorem Synced.recv_frame (h : x.Synced) (frame : EthernetFrame) :
    (x.recvFrame frame).state.Synced :=
  recv_frame_state h frame h.recv_arp

theorem Synced.tick (h : x.Synced) (ms : UInt64) : (x.tick ms).Synced := by
  refine ⟨fun ip => ?_, h.times.map_values _, h.reqs⟩
  cases ht : x.timeSinceCache.find? ip with
  | none =>
    obtain ⟨hcache, hage⟩ := tick_unknown ms ht
    rw [hcache, hage, h.cache ip, ht]
  | some t =>
    by_cases hold : t.toUInt64 + ms ≥ MAX_CACHE_TIME
    · obtain ⟨hcache, hage⟩ := tick_expired ht hold
      rw [hcache, hage]
      rfl
    · obtain ⟨hcache, hage⟩ := tick_kept ht (UInt64.not_le.mp hold)
      rw [hcache, hage, h.cache ip, ht]
      rfl

end Synced

/-- The cache is left as it is. -/
structure SameCache (x y : NetworkInterface) : Prop where
  cache : y.ipMacCache = x.ipMacCache
  ages : y.timeSinceCache = x.timeSinceCache

theorem same_cache_send_ip (x : NetworkInterface) (dgram : InternetDatagram) (hop : UInt32)
    (dst : EthernetAddress) : SameCache x (x.sendIp dgram hop dst).state := by
  unfold sendIp
  split
  · exact ⟨rfl, rfl⟩
  · exact ⟨rfl, rfl⟩

theorem same_cache_send_datagram (x : NetworkInterface) (dgram : InternetDatagram)
    (nextHop : Address) : SameCache x (x.sendDatagram dgram nextHop).state := by
  rcases x.send_datagram_cases dgram nextHop with ⟨w, -, -, heq⟩ | ⟨frame, -, -, -, -, heq⟩ |
      ⟨mac, -, heq⟩
  · rw [heq, Outcome.state_done, sendAgain]
    split
    · exact ⟨rfl, rfl⟩
    · exact ⟨rfl, rfl⟩
  · rw [heq]
    exact ⟨rfl, rfl⟩
  · rw [heq]
    exact same_cache_send_ip x _ _ _

section Emission

/-- What is sent in a call, and that each IPv4 frame in it goes to an address that `P`
knows for its next hop. -/
def Emits (P : UInt32 → EthernetAddress → Prop) (x y : NetworkInterface) : Prop :=
  ∃ es frames, y.emitted = x.emitted ++ es ∧ y.framesOut = x.framesOut ++ frames ∧
    List.Forall₂ (fun e frame => P e.1 frame.header.dst) es
      (frames.filter (·.header.type = EthernetHeader.TYPE_IPv4))

variable {P : UInt32 → EthernetAddress → Prop} {x y : NetworkInterface}

/-- A call that emits no datagram. -/
theorem emits_others (frames : List EthernetFrame) (hemitted : y.emitted = x.emitted)
    (hframes : y.framesOut = x.framesOut ++ frames)
    (hother : ∀ f ∈ frames, f.header.type ≠ EthernetHeader.TYPE_IPv4) : Emits P x y := by
  refine ⟨[], frames, by rw [hemitted, List.append_nil], hframes, ?_⟩
  have hnone : frames.filter (·.header.type = EthernetHeader.TYPE_IPv4) = [] := by
    simpa [List.filter_eq_nil_iff] using hother
  rw [hnone]
  exact .nil

theorem emits_nothing (hemitted : y.emitted = x.emitted) (hframes : y.framesOut = x.framesOut) :
    Emits P x y :=
  emits_others [] hemitted (by rw [hframes, List.append_nil]) (by simp)

theorem emits_one {e : UInt32 × InternetDatagram} {frame : EthernetFrame}
    (hemitted : y.emitted = x.emitted ++ [e]) (hframes : y.framesOut = x.framesOut ++ [frame])
    (htype : frame.header.type = EthernetHeader.TYPE_IPv4) (hknown : P e.1 frame.header.dst) :
    Emits P x y := by
  refine ⟨[e], [frame], hemitted, hframes, ?_⟩
  rw [List.filter_cons_of_pos (by simp [htype]), List.filter_nil]
  exact .cons hknown .nil

theorem emits_send_ip {hop : UInt32} {dst : EthernetAddress} (hknown : P hop dst)
    (dgram : InternetDatagram) : Emits P x (x.sendIp dgram hop dst).state := by
  by_cases hs : dgram.Serializable
  · obtain ⟨frame, hdst, htype, -, heq⟩ := send_ip_done hs x hop dst
    rw [heq]
    exact emits_one rfl rfl htype (hdst.symm ▸ hknown)
  · obtain ⟨what, heq⟩ := send_ip_fail hs x hop dst
    rw [heq]
    exact emits_nothing rfl rfl

theorem emits_send_datagram (h : x.Framed) (dgram : InternetDatagram) (nextHop : Address)
    (hknown : ∀ mac, x.ipMacCache.find? nextHop.ipv4Numeric = some mac →
      P nextHop.ipv4Numeric mac) : Emits P x (x.sendDatagram dgram nextHop).state := by
  rcases x.send_datagram_cases dgram nextHop with ⟨w, -, -, heq⟩ | ⟨frame, -, -, htype, -, heq⟩ |
      ⟨mac, hmac, heq⟩
  · rw [heq, Outcome.state_done, sendAgain]
    split
    · exact emits_others [(x.reqs.find? _).getD {}] rfl rfl
        (List.forall_mem_singleton.mpr (h.request_other _))
    · exact emits_nothing rfl rfl
  · rw [heq]
    refine emits_others [frame] rfl rfl ?_
    simpa [htype] using arp_ne_ipv4
  · rw [heq]
    exact emits_send_ip (hknown mac hmac) dgram

/-- What was sent is behind what was there before. -/
theorem Emits.behind (h : Emits P x y) :
    List.Forall₂ P ((y.emitted.drop x.emitted.length).map (·.1))
      (((y.framesOut.drop x.framesOut.length).filter
        (·.header.type = EthernetHeader.TYPE_IPv4)).map (·.header.dst)) := by
  obtain ⟨es, frames, hes, hframes, hall⟩ := h
  rw [hes, hframes, List.drop_left, List.drop_left]
  exact List.forall₂_map_left_iff.mpr (List.forall₂_map_right_iff.mpr hall)

end Emission

end NetworkInterface

/-- An ARP message that named an address, and the milliseconds since it came. -/
structure Heard where
  mac : EthernetAddress
  ago : Nat
  deriving DecidableEq

/-- An interface in use, and the last message heard from each sender. -/
structure CacheSession where
  interface : NetworkInterface
  last : UInt32 → Option Heard := fun _ => none

namespace CacheSession

open NetworkInterface

def new (ethernetAddress : EthernetAddress) (ipAddress : Address) : CacheSession :=
  { interface := .new ethernetAddress ipAddress }

def step (x : CacheSession) : InterfaceUse → CacheSession
  | .sendDatagram dgram nextHop =>
    { x with interface := (x.interface.sendDatagram dgram nextHop).state }
  | .recvFrame frame =>
    { interface := (x.interface.recvFrame frame).state
      last := match x.interface.heard frame with
        | none => x.last
        | some arp => fun ip =>
          if ip = arp.senderIpAddress then some ⟨arp.senderEthernetAddress, 0⟩ else x.last ip }
  | .tick ms =>
    { interface := x.interface.tick ms
      last := fun ip => (x.last ip).map (fun h => { h with ago := h.ago + ms.toNat }) }

/-- The address is the one that was heard last, less than 30 seconds ago. -/
def Knows (x : CacheSession) (ip : UInt32) (mac : EthernetAddress) : Prop :=
  ∃ h, x.last ip = some h ∧ h.mac = mac ∧ h.ago < 30000

instance (x : CacheSession) (ip : UInt32) (mac : EthernetAddress) : Decidable (x.Knows ip mac) :=
  decidable_of_iff (∃ h ∈ (x.last ip).toList, h.mac = mac ∧ h.ago < 30000) (by simp [Knows])

/-- Every IPv4 frame of the call goes to an address that is known for its next hop. -/
def SendsRight (x : CacheSession) (u : InterfaceUse) : Prop :=
  Emits (x.step u).Knows x.interface (x.step u).interface

/-- What has to hold before a call: a frame can be read; and if a reply sets a datagram
free that cannot be written, so that the call ends before the address is learned, then no
other address is in the cache. -/
def Heeds (x : CacheSession) : InterfaceUse → Prop
  | .recvFrame frame => x.interface.Legible frame ∧
      ∀ arp ∈ x.interface.heard frame, arp.opcode = ARPMessage.OPCODE_REPLY →
        ∀ w ∈ x.interface.waitingList.find? arp.senderIpAddress, w.Serializable ∨
          ∀ mac ∈ x.interface.ipMacCache.find? arp.senderIpAddress,
            mac = arp.senderEthernetAddress
  | .sendDatagram _ _ | .tick _ => True

instance (x : CacheSession) : (u : InterfaceUse) → Decidable (x.Heeds u)
  | .recvFrame frame => inferInstanceAs (Decidable (x.interface.Legible frame ∧
      ∀ arp ∈ x.interface.heard frame, arp.opcode = ARPMessage.OPCODE_REPLY →
        ∀ w ∈ x.interface.waitingList.find? arp.senderIpAddress, w.Serializable ∨
          ∀ mac ∈ x.interface.ipMacCache.find? arp.senderIpAddress,
            mac = arp.senderEthernetAddress))
  | .sendDatagram _ _ | .tick _ => .isTrue trivial

/-- What is in the cache was heard last, no longer ago than the cache says. -/
structure Known (x : CacheSession) : Prop where
  framed : x.interface.Framed
  synced : x.interface.Synced
  heard : ∀ ip mac t, x.interface.ipMacCache.find? ip = some mac →
    x.interface.timeSinceCache.find? ip = some t →
      ∃ h, x.last ip = some h ∧ h.mac = mac ∧ h.ago ≤ t.toNat
  young : ∀ ip t, x.interface.timeSinceCache.find? ip = some t → t.toNat < 30000

theorem new_synced (ethernetAddress : EthernetAddress) (ipAddress : Address) :
    (new ethernetAddress ipAddress).interface.Synced :=
  ⟨fun _ => rfl, fun _ => rfl, fun _ => rfl⟩

theorem new_known (ethernetAddress : EthernetAddress) (ipAddress : Address) :
    (new ethernetAddress ipAddress).Known :=
  ⟨(InterfaceSession.new_accounted ethernetAddress ipAddress).framed,
    new_synced ethernetAddress ipAddress, nofun, nofun⟩

section Steps

variable {x : CacheSession} {u : InterfaceUse}

theorem synced_step (h : x.interface.Synced) (u : InterfaceUse) : (x.step u).interface.Synced := by
  cases u with
  | sendDatagram dgram nextHop => exact h.send_datagram dgram nextHop
  | recvFrame frame => exact h.recv_frame frame
  | tick ms => exact h.tick ms

/-- A call that leaves the cache and what was heard as they are. -/
theorem Known.same (h : x.Known) {y : CacheSession} (hlast : y.last = x.last)
    (hcache : SameCache x.interface y.interface) (hframed : y.interface.Framed)
    (hsynced : y.interface.Synced) : y.Known := by
  refine ⟨hframed, hsynced, ?_, ?_⟩
  · rw [hcache.cache, hcache.ages, hlast]
    exact h.heard
  · rw [hcache.ages]
    exact h.young

theorem Known.tick (h : x.Known) {ms : UInt64} (hms : ms.toNat < 2 ^ 63) :
    (x.step (.tick ms)).Known := by
  refine ⟨h.framed.keep rfl rfl (fun _ he => he), h.synced.tick ms, ?_, ?_⟩
  · intro ip mac t hmac ht
    obtain ⟨t₀, ht₀, hsum, -, hcache⟩ := tick_age hms (h.young ip) ht
    obtain ⟨m, hlast, hm, hago⟩ := h.heard ip mac t₀ (hcache ▸ hmac) ht₀
    refine ⟨{ m with ago := m.ago + ms.toNat }, ?_, hm, ?_⟩
    · simp only [step, hlast, Option.map_some]
    · rw [hsum]
      exact Nat.add_le_add_right hago _
  · intro ip t ht
    obtain ⟨t₀, -, -, hlt, -⟩ := tick_age hms (h.young ip) ht
    exact hlt

theorem Known.knows (h : x.Known) {ip : UInt32} {mac : EthernetAddress}
    (hmac : x.interface.ipMacCache.find? ip = some mac) : x.Knows ip mac := by
  obtain ⟨t, ht⟩ := h.synced.cache.find? hmac
  obtain ⟨m, hlast, hm, hago⟩ := h.heard ip mac t hmac ht
  exact ⟨m, hlast, hm, Nat.lt_of_le_of_lt hago (h.young ip t ht)⟩

/-- The message is the last one heard of its sender. -/
def Hears (x : CacheSession) (arp : ARPMessage) (y : CacheSession) : Prop :=
  y.last = fun ip =>
    if ip = arp.senderIpAddress then some ⟨arp.senderEthernetAddress, 0⟩ else x.last ip

section Arp

variable {arp : ARPMessage} {y : CacheSession} (h : x.Known) (hears : x.Hears arp y)
  (hframed : y.interface.Framed) (hsynced : y.interface.Synced)

include hears in
theorem Hears.knows : y.Knows arp.senderIpAddress arp.senderEthernetAddress :=
  ⟨⟨arp.senderEthernetAddress, 0⟩, by rw [hears]; exact if_pos rfl, rfl, (by decide : 0 < 30000)⟩

include h hears hframed hsynced

/-- The message is learned. -/
theorem Known.learn {z : NetworkInterface} (hy : y.interface = z.learn arp)
    (hcache : SameCache x.interface z) : y.Known := by
  have hmacs : ∀ ip, y.interface.ipMacCache.find? ip =
      if ip = arp.senderIpAddress then some arp.senderEthernetAddress
      else x.interface.ipMacCache.find? ip := by
    intro ip
    rw [hy, NetworkInterface.learn, OrdMap.find?_insert, hcache.cache]
  have hages : ∀ ip, y.interface.timeSinceCache.find? ip =
      if ip = arp.senderIpAddress then some 0 else x.interface.timeSinceCache.find? ip := by
    intro ip
    rw [hy, NetworkInterface.learn, OrdMap.find?_insert, hcache.ages]
  refine ⟨hframed, hsynced, ?_, ?_⟩
  · intro ip mac t hmac ht
    rw [hmacs] at hmac
    rw [hages] at ht
    rw [hears]
    by_cases hip : ip = arp.senderIpAddress
    · rw [if_pos hip] at hmac
      cases hmac
      exact ⟨⟨arp.senderEthernetAddress, 0⟩, if_pos hip, rfl, Nat.zero_le _⟩
    · rw [if_neg hip] at hmac ht
      simp only [if_neg hip]
      exact h.heard ip mac t hmac ht
  · intro ip t ht
    rw [hages] at ht
    split at ht
    · cases ht
      decide
    · exact h.young ip t ht

/-- The message is heard but not learned; it says nothing new of an address in the cache. -/
theorem Known.miss (hcache : SameCache x.interface y.interface)
    (hold : ∀ mac ∈ x.interface.ipMacCache.find? arp.senderIpAddress,
      mac = arp.senderEthernetAddress) : y.Known := by
  refine ⟨hframed, hsynced, ?_, ?_⟩
  · rw [hcache.cache, hcache.ages, hears]
    intro ip mac t hmac ht
    by_cases hip : ip = arp.senderIpAddress
    · subst hip
      exact ⟨⟨arp.senderEthernetAddress, 0⟩, if_pos rfl, (hold mac hmac).symm, Nat.zero_le _⟩
    · simp only [if_neg hip]
      exact h.heard ip mac t hmac ht
  · rw [hcache.ages]
    exact h.young

/-- The message is learned, after the datagram that waited for it has been sent; or the call
ends before that. -/
theorem Known.recv_arp {src : EthernetAddress}
    (hstate : y.interface = (x.interface.recvArp arp src).state)
    (hu : arp.opcode = ARPMessage.OPCODE_REPLY →
      ∀ w ∈ x.interface.waitingList.find? arp.senderIpAddress, w.Serializable ∨
        ∀ mac ∈ x.interface.ipMacCache.find? arp.senderIpAddress,
          mac = arp.senderEthernetAddress) :
    y.Known ∧ Emits y.Knows x.interface y.interface := by
  rcases x.interface.recv_arp_state arp src with ⟨frames, htype, -, heq⟩ |
      ⟨w, frame, -, -, hdst, htype, heq⟩ | ⟨w, hreply, hw, hs, heq⟩
  · rw [heq] at hstate
    refine ⟨h.learn hears hframed hsynced hstate ⟨rfl, rfl⟩, ?_⟩
    refine emits_others frames (by rw [hstate]; rfl) (by rw [hstate]; rfl) (fun f hf => ?_)
    rw [(htype f hf).1]
    exact arp_ne_ipv4
  · rw [heq] at hstate
    refine ⟨h.learn hears hframed hsynced hstate ⟨rfl, rfl⟩, ?_⟩
    exact emits_one (by rw [hstate]; rfl) (by rw [hstate]; rfl) htype (hdst.symm ▸ hears.knows)
  · rw [heq] at hstate
    have hold := (hu hreply w hw).resolve_left hs
    refine ⟨h.miss hears hframed hsynced (hstate.symm ▸ ⟨rfl, rfl⟩) hold, ?_⟩
    exact emits_nothing (by rw [hstate]; rfl) (by rw [hstate]; rfl)

end Arp

/-- A frame that can be read tells nothing, or brings a message. -/
theorem Known.recv_frame (h : x.Known) {frame : EthernetFrame} (hu : x.Heeds (.recvFrame frame)) :
    (x.step (.recvFrame frame)).Known ∧ x.SendsRight (.recvFrame frame) := by
  have hframed := h.framed.recv_frame frame
  have hsynced := h.synced.recv_frame frame
  rcases x.interface.recv_frame_cases frame with ⟨hno, -⟩ | ⟨-, hh, heq⟩ | ⟨arp, -, hh, -, heq⟩
  · exact absurd hu.1 hno
  · have hstate : (x.step (.recvFrame frame)).interface = x.interface := by
      rw [step, heq]
      rfl
    have hlast : (x.step (.recvFrame frame)).last = x.last := by simp only [step, hh]
    exact ⟨h.same hlast (hstate.symm ▸ ⟨rfl, rfl⟩) hframed hsynced,
      emits_nothing (by rw [hstate]) (by rw [hstate])⟩
  · have hstate : (x.step (.recvFrame frame)).interface =
        (x.interface.recvArp arp frame.header.src).state := by
      rw [step, heq]
      exact Outcome.state_and_then_same _ (fun _ _ => rfl)
    have hears : x.Hears arp (x.step (.recvFrame frame)) := by simp only [Hears, step, hh]
    exact h.recv_arp hears hframed hsynced hstate (hu.2 arp hh)

theorem Known.step_right (h : x.Known) (hu : x.Heeds u)
    (hms : ∀ ms, u = .tick ms → ms.toNat < 2 ^ 63) : (x.step u).Known ∧ x.SendsRight u := by
  cases u with
  | sendDatagram dgram nextHop =>
    exact ⟨h.same rfl (same_cache_send_datagram _ dgram nextHop)
      (h.framed.send_datagram dgram nextHop) (h.synced.send_datagram dgram nextHop),
      emits_send_datagram h.framed dgram nextHop (fun mac hmac => h.knows hmac)⟩
  | recvFrame frame => exact h.recv_frame hu
  | tick ms => exact ⟨h.tick (hms ms rfl), emits_nothing rfl rfl⟩

end Steps

/-- The maps are in step in every run. Every IPv4 frame goes to the address heard last of
its next hop, less than 30 seconds before, as long as no reply is kept from being learned
by a datagram that cannot be written while the cache has another address. -/
theorem cache_sound (ethernetAddress : EthernetAddress) (ipAddress : Address)
    (us : List InterfaceUse) (hms : ∀ ms, .tick ms ∈ us → ms.toNat < 2 ^ 63) :
    Run.Always step (fun x => x.interface.Synced) (new ethernetAddress ipAddress) us ∧
    (Run.Along step Heeds (new ethernetAddress ipAddress) us →
      Run.Along step SendsRight (new ethernetAddress ipAddress) us) := by
  constructor
  · exact Run.always_of_invariant (I := fun x : CacheSession => x.interface.Synced)
      (P := fun _ _ => True) (new_synced ethernetAddress ipAddress)
      (Run.along_of_forall (fun _ _ => trivial) _ us) (fun x u hx _ => synced_step hx u)
      (fun _ hx => hx)
  · intro hheeds
    have hcond := hheeds.and_mem (R := fun u => ∀ ms, u = .tick ms → ms.toNat < 2 ^ 63)
      (fun u hu ms heq => hms ms (heq ▸ hu))
    exact Run.along_of_invariant (new_known ethernetAddress ipAddress) hcond
      (fun x u hx hu => (hx.step_right hu.1 hu.2).1) (fun x u hx hu => (hx.step_right hu.1 hu.2).2)

/-- A datagram waits for the reply, one is sent with the cache, and one after the host has
moved to another interface. -/
theorem cache_sound_moved :
    let arp : UInt8 → UInt8 → EthernetFrame := fun opcode mac =>
      { header := { dst := ETHERNET_BROADCAST, type := EthernetHeader.TYPE_ARP }
        payload := ⟨[[0, 1, 8, 0, 6, 4, 0, opcode, mac, mac, mac, mac, mac, mac, 0, 0, 0, 2,
          0, 0, 0, 0, 0, 0, 0, 0, 0, 1]]⟩ }
    let dgram : InternetDatagram := { header := { len := 20 } }
    let us := [.sendDatagram dgram ⟨2⟩, .recvFrame (arp 2 7), .tick 29999, .sendDatagram dgram ⟨2⟩,
      .recvFrame (arp 1 8), .sendDatagram dgram ⟨2⟩]
    (Run.final step (new (.replicate 6 1) ⟨1⟩) us).interface.emitted.length = 3 ∧
      Run.Always step (fun x => x.interface.Synced) (new (.replicate 6 1) ⟨1⟩) us ∧
      Run.Along step SendsRight (new (.replicate 6 1) ⟨1⟩) us := by
  intro arp dgram us
  have hsound := cache_sound (.replicate 6 1) ⟨1⟩ us (by simp [us])
  exact ⟨by decide +kernel, hsound.1, hsound.2 (by decide +kernel)⟩

/-- The host asks from one interface and replies from another; the reply sets free a
datagram that cannot be written, so its address is not learned, and the next datagram goes
to the old one. -/
theorem reply_not_learned :
    ¬ ∀ (ethernetAddress : EthernetAddress) (ipAddress : Address) (us : List InterfaceUse),
      (∀ ms, .tick ms ∈ us → ms.toNat < 2 ^ 63) →
      Run.Along step SendsRight (new ethernetAddress ipAddress) us := by
  intro h
  let arp : UInt8 → UInt8 → EthernetFrame := fun opcode mac =>
    { header := { dst := ETHERNET_BROADCAST, type := EthernetHeader.TYPE_ARP }
      payload := ⟨[[0, 1, 8, 0, 6, 4, 0, opcode, mac, mac, mac, mac, mac, mac, 0, 0, 0, 2,
        0, 0, 0, 0, 0, 0, 0, 0, 0, 1]]⟩ }
  obtain ⟨-, -, -, hlast, -⟩ := h (.replicate 6 1) ⟨1⟩
    [.sendDatagram { header := { len := 20, hlen := 4 } } ⟨2⟩, .recvFrame (arp 1 7),
      .recvFrame (arp 2 8), .sendDatagram { header := { len := 20 } } ⟨2⟩] (by simp)
  have hsent := hlast.behind
  revert hsent
  decide +kernel

end CacheSession

end Sponge
