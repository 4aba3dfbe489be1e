import Sponge.Link.Cache

namespace Sponge

/-- Two requests for the same address are five seconds apart. -/
def Spaced (asked : List (Nat × UInt32)) : Prop :=
  asked.Pairwise (fun d e => d.2 = e.2 → d.1 + 5000 ≤ e.1)

instance (asked : List (Nat × UInt32)) : Decidable (Spaced asked) :=
  inferInstanceAs (Decidable (asked.Pairwise _))

namespace NetworkInterface

/-- What the interface still knows of a request for `hop`: no time it keeps for it is ahead
of the clock, and if it keeps none the request is five seconds old. -/
structure Rested (x : NetworkInterface) (clock : Nat) (hop : UInt32) (sent : Nat) : Prop where
  past : sent ≤ clock
  since : ∀ t, x.timeSinceReqSend.find? hop = some t → sent + t.toNat ≤ clock
  age : ∀ t, x.timeSinceCache.find? hop = some t → sent + t.toNat ≤ clock
  free : x.timeSinceReqSend.find? hop = none → x.timeSinceCache.find? hop = none →
    sent + 5000 ≤ clock

section Rested

variable {x : NetworkInterface} {clock sent : Nat} {hop : UInt32}

theorem Rested.same (h : x.Rested clock hop sent) {y : NetworkInterface}
    (htimes : y.timeSinceReqSend.find? hop = x.timeSinceReqSend.find? hop)
    (hages : y.timeSinceCache.find? hop = x.timeSinceCache.find? hop) :
    y.Rested clock hop sent := by
  refine ⟨h.past, ?_, ?_, ?_⟩
  · rw [htimes]
    exact h.since
  · rw [hages]
    exact h.age
  · rw [htimes, hages]
    exact h.free

/-- The time of the request starts again. -/
theorem Rested.restart (h : x.Rested clock hop sent) {y : NetworkInterface} {k : UInt32}
    (htimes : y.timeSinceReqSend = x.timeSinceReqSend.insert k 0)
    (hages : y.timeSinceCache = x.timeSinceCache) : y.Rested clock hop sent := by
  by_cases hk : hop = k
  · subst hk
    have hzero : y.timeSinceReqSend.find? hop = some 0 := by
      rw [htimes, OrdMap.find?_insert, if_pos rfl]
    refine ⟨h.past, ?_, hages.symm ▸ h.age, by simp [hzero]⟩
    intro t ht
    rw [hzero] at ht
    cases ht
    exact h.past
  · refine h.same ?_ (by rw [hages])
    rw [htimes, OrdMap.find?_insert, if_neg hk]

/-- A message of the hop is learned. -/
theorem Rested.learn (h : x.Rested clock hop sent) (arp : ARPMessage) :
    (x.learn arp).Rested clock hop sent := by
  have hages : (x.learn arp).timeSinceCache.find? hop =
      if hop = arp.senderIpAddress then some 0 else x.timeSinceCache.find? hop := by
    rw [NetworkInterface.learn, OrdMap.find?_insert]
  by_cases hip : hop = arp.senderIpAddress
  · rw [if_pos hip] at hages
    refine ⟨h.past, h.since, ?_, by simp [hages]⟩
    intro t ht
    rw [hages] at ht
    cases ht
    exact h.past
  · rw [if_neg hip] at hages
    exact h.same rfl hages

/-- A request is forgotten, and its hop learned. -/
theorem Rested.release_learn (h : x.Rested clock hop sent) (arp : ARPMessage) :
    ((x.release arp.senderIpAddress).learn arp).Rested clock hop sent := by
  by_cases hip : hop = arp.senderIpAddress
  · have hl := h.learn arp
    have hages : ((x.release arp.senderIpAddress).learn arp).timeSinceCache.find? hop = some 0 := by
      rw [NetworkInterface.learn, OrdMap.find?_insert, if_pos hip]
    refine ⟨h.past, ?_, hl.age, by simp [hages]⟩
    simp [NetworkInterface.learn, release, OrdMap.find?_erase, hip]
  · refine (h.learn arp).same ?_ rfl
    simp only [NetworkInterface.learn, release, OrdMap.find?_erase, if_neg hip]

/-- A request is forgotten and its hop not learned: it has to be in the cache, or the
request be old. -/
theorem Rested.release (h : x.Rested clock hop sent) {k : UInt32}
    (hold : x.timeSinceCache.find? k = none →
      ∃ t, x.timeSinceReqSend.find? k = some t ∧ 5000 ≤ t.toNat) :
    (x.release k).Rested clock hop sent := by
  by_cases hk : hop = k
  · subst hk
    refine ⟨h.past, by simp [NetworkInterface.release, OrdMap.find?_erase], h.age, ?_⟩
    intro _ hnone
    obtain ⟨t, ht, h5⟩ := hold hnone
    have := h.since t ht
    omega
  · refine h.same ?_ rfl
    simp only [NetworkInterface.release, OrdMap.find?_erase, if_neg hk]

/-- A sum that wraps is not above the true one. -/
theorem time_add_le (t : UInt32) (ms : UInt64) :
    (t.toUInt64 + ms).toUInt32.toNat ≤ (t.toUInt64 + ms).toNat ∧
      (t.toUInt64 + ms).toNat ≤ t.toNat + ms.toNat := by
  rw [UInt64.toNat_toUInt32, UInt64.toNat_add, UInt32.toNat_toUInt64]
  exact ⟨Nat.mod_le _ _, Nat.mod_le _ _⟩

/-- The times grow no faster than the clock, and an address leaves the cache after 30
seconds. -/
theorem Rested.tick (h : x.Rested clock hop sent) (ms : UInt64) :
    (x.tick ms).Rested (clock + ms.toNat) hop sent := by
  have htimes : (x.tick ms).timeSinceReqSend.find? hop =
      (x.timeSinceReqSend.find? hop).map (fun t => (t.toUInt64 + ms).toUInt32) :=
    OrdMap.find?_map_values _ _ _
  have hpast : sent ≤ clock + ms.toNat := Nat.le_add_right_of_le h.past
  have hsince : ∀ t, (x.tick ms).timeSinceReqSend.find? hop = some t →
      sent + t.toNat ≤ clock + ms.toNat := by
    intro t ht
    rw [htimes, Option.map_eq_some_iff] at ht
    obtain ⟨t₀, ht₀, rfl⟩ := ht
    have hlow := h.since t₀ ht₀
    have hsum := time_add_le t₀ ms
    omega
  have hfree : (x.tick ms).timeSinceReqSend.find? hop = none →
      x.timeSinceCache.find? hop = none → sent + 5000 ≤ clock + ms.toNat := by
    intro hnone hunknown
    rw [htimes, Option.map_eq_none_iff] at hnone
    exact Nat.le_add_right_of_le (h.free hnone hunknown)
  cases hage : x.timeSinceCache.find? hop with
  | none =>
    have hgone := (tick_unknown ms hage).2
    exact ⟨hpast, hsince, by simp [hgone], fun hnone _ => hfree hnone hage⟩
  | some t =>
    have hlow := h.age t hage
    have hsum := time_add_le t ms
    by_cases hold : t.toUInt64 + ms ≥ MAX_CACHE_TIME
    · have hgone := (tick_expired hage hold).2
      have h30 : 30000 ≤ (t.toUInt64 + ms).toNat := UInt64.le_iff_toNat_le.mp hold
      exact ⟨hpast, hsince, by simp [hgone], fun _ _ => by omega⟩
    · have hkept := (tick_kept hage (UInt64.not_le.mp hold)).2
      refine ⟨hpast, hsince, ?_, by simp [hkept]⟩
      intro t' ht'
      rw [hkept] at ht'
      cases ht'
      omega

end Rested

/-- What a call sends, and the addresses it asks for. -/
def Asks (hops : List UInt32) (x y : NetworkInterface) : Prop :=
  ∃ frames, y.framesOut = x.framesOut ++ frames ∧ frames.filterMap EthernetFrame.asksFor = hops

/-- The requests sent so far, with their times, agree with what the interface keeps. -/
structure Paced (x : NetworkInterface) (clock : Nat) (asked : List (Nat × UInt32)) : Prop where
  synced : x.Synced
  reqs : ∀ hop frame, x.reqs.find? hop = some frame → frame.asksFor = some hop
  spaced : Spaced asked
  rested : ∀ e ∈ asked, x.Rested clock e.2 e.1

section Calls

variable {x y : NetworkInterface} {clock : Nat} {asked : List (Nat × UInt32)} {hop : UInt32}

theorem asks_nothing (h : y.framesOut = x.framesOut) : Asks [] x y :=
  ⟨[], by rw [h, List.append_nil], rfl⟩

theorem asks_one {frame : EthernetFrame} (h : frame.asksFor = some hop)
    (hframes : y.framesOut = x.framesOut ++ [frame]) : Asks [hop] x y :=
  ⟨[frame], hframes, by simp [h]⟩

theorem asks_others {frames : List EthernetFrame} (h : ∀ f ∈ frames, f.asksFor = none)
    (hframes : y.framesOut = x.framesOut ++ frames) : Asks [] x y :=
  ⟨frames, hframes, List.filterMap_eq_nil_iff.mpr h⟩

theorem asks_datagram {frame : EthernetFrame} (h : frame.header.type = EthernetHeader.TYPE_IPv4)
    (hframes : y.framesOut = x.framesOut ++ [frame]) : Asks [] x y := by
  refine asks_others (List.forall_mem_singleton.mpr ?_) hframes
  exact EthernetFrame.asks_for_other (h ▸ arp_ne_ipv4.symm)

/-- A call without a request. -/
theorem Paced.quiet (h : x.Paced clock asked) (hsynced : y.Synced)
    (hreqs : ∀ hop frame, y.reqs.find? hop = some frame → x.reqs.find? hop = some frame)
    {clock' : Nat} (hrested : ∀ hop sent, x.Rested clock hop sent → y.Rested clock' hop sent) :
    y.Paced clock' asked :=
  ⟨hsynced, fun hop frame hf => h.reqs hop frame (hreqs hop frame hf), h.spaced,
    fun e he => hrested _ _ (h.rested e he)⟩

/-- A request for a hop that is not in the cache: those before it have to be old. -/
theorem Paced.ask (h : x.Paced clock asked) (hsynced : y.Synced)
    (hreqs : ∀ hop frame, y.reqs.find? hop = some frame → frame.asksFor = some hop)
    (htimes : y.timeSinceReqSend = x.timeSinceReqSend.insert hop 0)
    (hages : y.timeSinceCache = x.timeSinceCache) (hunknown : x.timeSinceCache.find? hop = none)
    (hold : ∀ sent, x.Rested clock hop sent → sent + 5000 ≤ clock) :
    y.Paced clock (asked ++ [(clock, hop)]) := by
  refine ⟨hsynced, hreqs, ?_, ?_⟩
  · refine List.pairwise_append.mpr ⟨h.spaced, List.pairwise_singleton _ _, ?_⟩
    intro d hd e he hsame
    cases List.mem_singleton.mp he
    have hrested := h.rested d hd
    rw [hsame] at hrested
    exact hold _ hrested
  · intro e he
    rcases List.mem_append.mp he with he | he
    · exact (h.rested e he).restart htimes hages
    · cases List.mem_singleton.mp he
      have hzero : y.timeSinceReqSend.find? hop = some 0 := by
        rw [htimes, OrdMap.find?_insert, if_pos rfl]
      exact ⟨le_refl clock, by simp [hzero], by simp [hages, hunknown], by simp [hzero]⟩

theorem Paced.send_ip (h : x.Paced clock asked) (dgram : InternetDatagram) (hop : UInt32)
    (dst : EthernetAddress) : Asks [] x (x.sendIp dgram hop dst).state ∧
      (x.sendIp dgram hop dst).state.Paced clock asked := by
  have hsynced := h.synced.send_ip dgram hop dst
  by_cases hs : dgram.Serializable
  · obtain ⟨frame, -, htype, -, heq⟩ := send_ip_done hs x hop dst
    rw [heq] at hsynced ⊢
    exact ⟨asks_datagram htype rfl, h.quiet hsynced (fun _ _ hf => hf)
      (fun _ _ hr => hr.same rfl rfl)⟩
  · obtain ⟨what, heq⟩ := send_ip_fail hs x hop dst
    rw [heq]
    exact ⟨asks_nothing rfl, h⟩

/-- The request is sent again once its time says five seconds. -/
theorem Paced.send_again (h : x.Paced clock asked) {w : InternetDatagram}
    (hnone : x.ipMacCache.find? hop = none) (hw : x.waitingList.find? hop = some w)
    (hsynced : (x.sendAgain hop).Synced) :
    ∃ hops, Asks hops x (x.sendAgain hop) ∧
      (x.sendAgain hop).Paced clock (asked ++ hops.map (clock, ·)) := by
  obtain ⟨t, ht⟩ := h.synced.times.find? hw
  obtain ⟨frame, hframe⟩ := h.synced.reqs.find? hw
  have hunknown : x.timeSinceCache.find? hop = none := by
    simpa [hnone] using h.synced.cache hop
  unfold sendAgain at hsynced ⊢
  rw [ht, hframe, Option.getD_some, Option.getD_some] at hsynced ⊢
  split
  · rename_i h5
    have h5 : 5000 ≤ t.toNat := UInt32.le_iff_toNat_le.mp h5
    rw [if_pos ‹_›] at hsynced
    refine ⟨[hop], asks_one (h.reqs hop frame hframe) rfl, ?_⟩
    refine h.ask hsynced h.reqs rfl rfl hunknown (fun sent hr => ?_)
    have := hr.since t ht
    omega
  · exact ⟨[], asks_nothing rfl, by rwa [List.map_nil, List.append_nil]⟩

theorem Paced.send_datagram (h : x.Paced clock asked) (dgram : InternetDatagram)
    (nextHop : Address) : ∃ hops, Asks hops x (x.sendDatagram dgram nextHop).state ∧
      (x.sendDatagram dgram nextHop).state.Paced clock (asked ++ hops.map (clock, ·)) := by
  have hsynced := h.synced.send_datagram dgram nextHop
  rcases x.send_datagram_cases dgram nextHop with ⟨w, hnone, hw, heq⟩ |
      ⟨frame, hnone, hw, -, hasks, heq⟩ | ⟨mac, -, heq⟩
  · rw [heq] at hsynced ⊢
    exact h.send_again hnone hw hsynced
  · rw [heq] at hsynced ⊢
    have hunknown : x.timeSinceCache.find? nextHop.ipv4Numeric = none := by
      simpa [hnone] using h.synced.cache nextHop.ipv4Numeric
    have hidle : x.timeSinceReqSend.find? nextHop.ipv4Numeric = none := by
      simpa [hw] using h.synced.times nextHop.ipv4Numeric
    refine ⟨[nextHop.ipv4Numeric], asks_one hasks rfl, ?_⟩
    refine h.ask hsynced ?_ rfl rfl hunknown (fun sent hr => hr.free hidle hunknown)
    intro hop f hf
    simp only [Outcome.state_done, OrdMap.find?_insert] at hf
    split at hf
    · rename_i hip
      cases hf
      exact hip ▸ hasks
    · exact h.reqs hop f hf
  · rw [heq]
    obtain ⟨hasks, hpaced⟩ := h.send_ip dgram nextHop.ipv4Numeric mac
    exact ⟨[], hasks, by rwa [List.map_nil, List.append_nil]⟩

/-- The datagram that a reply sets free can be written, so that its sender is learned; or
the sender is in the cache, or the request for it is five seconds old. -/
def Settles (x : NetworkInterface) (arp : ARPMessage) : Prop :=
  arp.opcode = ARPMessage.OPCODE_REPLY → ∀ w ∈ x.waitingList.find? arp.senderIpAddress,
    w.Serializable ∨ (x.ipMacCache.find? arp.senderIpAddress).isSome = true ∨
      (x.timeSinceReqSend.find? arp.senderIpAddress).getD 0 ≥ MAX_REQ_TIME

instance (x : NetworkInterface) (arp : ARPMessage) : Decidable (x.Settles arp) :=
  inferInstanceAs (Decidable (_ → ∀ w ∈ x.waitingList.find? arp.senderIpAddress, _ ∨ _ ∨ _))

/-- A message that is not learned leaves a sender that is known, or an old request. -/
theorem Settles.old {arp : ARPMessage} (h : x.Settles arp) (hsynced : x.Synced)
    {w : InternetDatagram} (hreply : arp.opcode = ARPMessage.OPCODE_REPLY)
    (hw : x.waitingList.find? arp.senderIpAddress = some w) (hs : ¬ w.Serializable)
    (hunknown : x.timeSinceCache.find? arp.senderIpAddress = none) :
    ∃ t, x.timeSinceReqSend.find? arp.senderIpAddress = some t ∧ 5000 ≤ t.toNat := by
  obtain ⟨t, ht⟩ := hsynced.times.find? hw
  rcases h hreply w hw with hcan | hknown | hlong
  · exact absurd hcan hs
  · rw [hsynced.cache, hunknown] at hknown
    cases hknown
  · rw [ht, Option.getD_some] at hlong
    exact ⟨t, ht, UInt32.le_iff_toNat_le.mp hlong⟩

theorem Paced.recv_arp (h : x.Paced clock asked) {arp : ARPMessage} (harp : x.Settles arp)
    (src : EthernetAddress) : Asks [] x (x.recvArp arp src).state ∧
      (x.recvArp arp src).state.Paced clock asked := by
  have hsynced := h.synced.recv_arp arp src
  have hreqs : ∀ hop frame, (x.release arp.senderIpAddress).reqs.find? hop = some frame →
      x.reqs.find? hop = some frame := by
    intro hop frame hf
    simp only [release, OrdMap.find?_erase] at hf
    split at hf
    · cases hf
    · exact hf
  rcases x.recv_arp_state arp src with ⟨frames, hframes, -, heq⟩ |
      ⟨w, frame, -, -, -, htype, heq⟩ | ⟨w, hreply, hw, hs, heq⟩
  · rw [heq] at hsynced ⊢
    refine ⟨asks_others (fun f hf => (hframes f hf).2) rfl, ?_⟩
    exact h.quiet hsynced (fun _ _ hf => hf) (fun _ _ hr => (hr.learn arp).same rfl rfl)
  · rw [heq] at hsynced ⊢
    exact ⟨asks_datagram htype rfl,
      h.quiet hsynced hreqs (fun _ _ hr => (hr.release_learn arp).same rfl rfl)⟩
  · rw [heq] at hsynced ⊢
    exact ⟨asks_nothing rfl,
      h.quiet hsynced hreqs (fun _ _ hr => hr.release (harp.old h.synced hreply hw hs))⟩

theorem Paced.recv_frame (h : x.Paced clock asked) {frame : EthernetFrame}
    (hframe : ∀ arp ∈ x.heard frame, x.Settles arp) : Asks [] x (x.recvFrame frame).state ∧
      (x.recvFrame frame).state.Paced clock asked := by
  rcases x.recv_frame_heard frame with ⟨-, heq⟩ | ⟨arp, hh, heq⟩
  · rw [heq]
    exact ⟨asks_nothing rfl, h⟩
  · rw [heq]
    exact h.recv_arp (hframe arp hh) frame.header.src

theorem Paced.tick (h : x.Paced clock asked) (ms : UInt64) :
    (x.tick ms).Paced (clock + ms.toNat) asked :=
  h.quiet (h.synced.tick ms) (fun _ _ hf => hf) (fun _ _ hr => hr.tick ms)

end Calls

end NetworkInterface

/-- An interface in use, the milliseconds so far, and the frames it has sent, each with
the time at which it was sent. -/
structure RequestSession where
  interface : NetworkInterface
  clock : Nat := 0
  log : List (Nat × EthernetFrame) := []

namespace RequestSession

open NetworkInterface

def new (ethernetAddress : EthernetAddress) (ipAddress : Address) : RequestSession :=
  { interface := .new ethernetAddress ipAddress }

/-- The frames that are new in the queue go into the log. -/
def record (x : RequestSession) (interface : NetworkInterface) : RequestSession :=
  { x with
    interface
    log := x.log ++ (interface.framesOut.drop x.interface.framesOut.length).map (x.clock, ·) }

def step (x : RequestSession) : InterfaceUse → RequestSession
  | .sendDatagram dgram nextHop => x.record (x.interface.sendDatagram dgram nextHop).state
  | .recvFrame frame => x.record (x.interface.recvFrame frame).state
  | .tick ms => { x with interface := x.interface.tick ms, clock := x.clock + ms.toNat }

/-- The addresses asked for, each with its time. -/
def asked (x : RequestSession) : List (Nat × UInt32) :=
  x.log.filterMap fun e => e.2.asksFor.map (e.1, ·)

/-- The log has all frames of the queue, and its requests are spaced. -/
def Limited (x : RequestSession) : Prop :=
  x.log.map (·.2) = x.interface.framesOut ∧ Spaced x.asked

/-- Each ARP message that is heard settles what waits for it. -/
def Settling (x : RequestSession) : InterfaceUse → Prop
  | .recvFrame frame => ∀ arp ∈ x.interface.heard frame, x.interface.Settles arp
  | .sendDatagram _ _ | .tick _ => True

instance (x : RequestSession) : (u : InterfaceUse) → Decidable (x.Settling u)
  | .recvFrame frame =>
    inferInstanceAs (Decidable (∀ arp ∈ x.interface.heard frame, x.interface.Settles arp))
  | .sendDatagram _ _ | .tick _ => .isTrue trivial

structure Kept (x : RequestSession) : Prop where
  logged : x.log.map (·.2) = x.interface.framesOut
  paced : x.interface.Paced x.clock x.asked

theorem Kept.record {x : RequestSession} (h : x.Kept) {y : NetworkInterface} {hops : List UInt32}
    (hasks : Asks hops x.interface y)
    (hpaced : y.Paced x.clock (x.asked ++ hops.map (x.clock, ·))) : (x.record y).Kept := by
  obtain ⟨frames, hframes, hhops⟩ := hasks
  have hlog : (x.record y).log = x.log ++ frames.map (x.clock, ·) := by
    rw [RequestSession.record, hframes, List.drop_left]
  constructor
  · rw [hlog, List.map_append, List.map_map, h.logged]
    simp only [RequestSession.record, hframes, Function.comp_def, List.map_id']
  · have hasked : (x.record y).asked = x.asked ++ hops.map (x.clock, ·) := by
      rw [asked, hlog, List.filterMap_append, List.filterMap_map, ← hhops, List.map_filterMap]
      rfl
    rw [hasked]
    exact hpaced

theorem Kept.step {x : RequestSession} (h : x.Kept) {u : InterfaceUse} (hu : x.Settling u) :
    (x.step u).Kept := by
  cases u with
  | sendDatagram dgram nextHop =>
    obtain ⟨hops, hasks, hpaced⟩ := h.paced.send_datagram dgram nextHop
    exact h.record hasks hpaced
  | recvFrame frame =>
    obtain ⟨hasks, hpaced⟩ := h.paced.recv_frame hu
    exact h.record hasks (by rwa [List.map_nil, List.append_nil])
  | tick ms => exact ⟨h.logged, h.paced.tick ms⟩

theorem new_kept (ethernetAddress : EthernetAddress) (ipAddress : Address) :
    (new ethernetAddress ipAddress).Kept :=
  ⟨rfl, CacheSession.new_synced ethernetAddress ipAddress, nofun, .nil, nofun⟩

/-- The requests for an address are five seconds apart in every run, as long as each reply
settles what waits for it. -/
theorem requests_limited (ethernetAddress : EthernetAddress) (ipAddress : Address)
    {us : List InterfaceUse} (h : Run.Along step Settling (new ethernetAddress ipAddress) us) :
    Run.Always step Limited (new ethernetAddress ipAddress) us :=
  Run.always_of_invariant (new_kept ethernetAddress ipAddress) h (fun _ _ hx hu => hx.step hu)
    (fun _ hx => ⟨hx.logged, hx.paced.spaced⟩)

/-- A request is sent again after five seconds, and once more when the answer has left the
cache. -/
theorem requests_limited_three :
    let reply : EthernetFrame :=
      { header := { dst := ETHERNET_BROADCAST, type := EthernetHeader.TYPE_ARP }
        payload := ⟨[[0, 1, 8, 0, 6, 4, 0, 2, 7, 7, 7, 7, 7, 7, 0, 0, 0, 2,
          0, 0, 0, 0, 0, 0, 0, 0, 0, 1]]⟩ }
    let dgram : InternetDatagram := { header := { len := 20 } }
    let us := [.sendDatagram dgram ⟨2⟩, .tick 4999, .sendDatagram dgram ⟨2⟩, .tick 1,
      .sendDatagram dgram ⟨2⟩, .recvFrame reply, .tick 30000, .sendDatagram dgram ⟨2⟩]
    (Run.final step (new (.replicate 6 1) ⟨1⟩) us).asked = [(0, 2), (5000, 2), (35000, 2)] ∧
      Run.Always step Limited (new (.replicate 6 1) ⟨1⟩) us := by
  intro reply dgram us
  exact ⟨by decide +kernel, requests_limited (.replicate 6 1) ⟨1⟩ (by decide +kernel)⟩

/-- The reply sets free a datagram that cannot be written: the request is forgotten and the
address is not learned, so the next datagram asks again at once. -/
theorem request_sent_at_once :
    ¬ ∀ (ethernetAddress : EthernetAddress) (ipAddress : Address) (us : List InterfaceUse),
      (∀ ms, .tick ms ∈ us → ms.toNat < 2 ^ 31) →
      Run.Always step (fun x => Spaced x.asked) (new ethernetAddress ipAddress) us := by
  intro h
  let reply : EthernetFrame :=
    { header := { dst := ETHERNET_BROADCAST, type := EthernetHeader.TYPE_ARP }
      payload := ⟨[[0, 1, 8, 0, 6, 4, 0, 2, 7, 7, 7, 7, 7, 7, 0, 0, 0, 2,
        0, 0, 0, 0, 0, 0, 0, 0, 0, 1]]⟩ }
  have hlast := (h (.replicate 6 1) ⟨1⟩
    [.sendDatagram { header := { len := 20, hlen := 4 } } ⟨2⟩, .recvFrame reply,
      .sendDatagram { header := { len := 20 } } ⟨2⟩] (by simp)).final
  revert hlast
  decide +kernel

end RequestSession

end Sponge
