import Sponge.Lib.Run
import Sponge.Router.Model
import Sponge.Wire.Acceptance

namespace Sponge

namespace NetworkInterface

/-- Every datagram that waits can be written. -/
def WaitsWell (x : NetworkInterface) : Prop := ∀ e ∈ x.waitingList.entries, e.2.Serializable

section Calls

variable {x : NetworkInterface}

theorem WaitsWell.send_ip (h : x.WaitsWell) {dgram : InternetDatagram} (hd : dgram.Serializable)
    (hop : UInt32) (dst : EthernetAddress) :
    (x.sendIp dgram hop dst).Returns fun _ y => y.WaitsWell := by
  obtain ⟨frame, -, -, -, heq⟩ := send_ip_done hd x hop dst
  rw [heq]
  exact Outcome.returns_done h

theorem WaitsWell.send_datagram (h : x.WaitsWell) {dgram : InternetDatagram}
    (hd : dgram.Serializable) (nextHop : Address) :
    (x.sendDatagram dgram nextHop).Returns fun _ y => y.WaitsWell := by
  rcases x.send_datagram_cases dgram nextHop with ⟨w, -, -, heq⟩ | ⟨frame, -, -, -, -, heq⟩ |
      ⟨mac, -, heq⟩
  · rw [heq, sendAgain]
    refine Outcome.returns_done ?_
    split <;> exact h
  · rw [heq]
    refine Outcome.returns_done ?_
    intro e he
    rcases OrdMap.mem_insert.mp he with rfl | ⟨he, -⟩
    · exact hd
    · exact h e he
  · rw [heq]
    exact h.send_ip hd _ _

theorem WaitsWell.recv_arp (h : x.WaitsWell) (arp : ARPMessage) (src : EthernetAddress) :
    (x.recvArp arp src).Returns fun _ y => y.WaitsWell := by
  rcases x.recv_arp_cases arp src with ⟨frames, -, -, heq⟩ | ⟨w, -, hw, heq⟩
  · rw [heq]
    exact Outcome.returns_done h
  · rw [heq]
    have hfree : (x.release arp.senderIpAddress).WaitsWell :=
      fun e he => h e (OrdMap.mem_erase.mp he).1
    exact (hfree.send_ip (h _ (OrdMap.mem_of_find? hw)) _ _).and_then
      fun _ _ hy => Outcome.returns_done hy

theorem WaitsWell.recv_frame (h : x.WaitsWell) {frame : EthernetFrame} (hl : x.Legible frame) :
    (x.recvFrame frame).Returns fun res y => res = x.brought frame ∧ y.WaitsWell := by
  rcases x.recv_frame_cases frame with ⟨hno, -, -⟩ | ⟨-, -, heq⟩ | ⟨arp, -, -, hnone, heq⟩
  · exact absurd hl hno
  · rw [heq]
    exact Outcome.returns_done ⟨rfl, h⟩
  · rw [heq, hnone]
    exact (h.recv_arp arp frame.header.src).and_then fun _ _ hy => Outcome.returns_done ⟨rfl, hy⟩

/-- What the bytes of a frame have to be for the datagram in it to be one that can be
written. -/
theorem brought_serializable_iff (x : NetworkInterface) (b : Bytes) :
    (∀ d ∈ x.brought (({} : EthernetFrame).parse b).2, d.Serializable) ↔
      (EthernetHeader.LENGTH ≤ b.length → NetParser.wordAt b 12 = EthernetHeader.TYPE_IPv4 →
        addressAt b 0 = ETHERNET_BROADCAST ∨ addressAt b 0 = x.ethernetAddress →
          IPv4Datagram.Mild (b.drop EthernetHeader.LENGTH)) := by
  by_cases h : b.length < EthernetHeader.LENGTH
  · have htype : ({} : EthernetHeader).type ≠ EthernetHeader.TYPE_IPv4 := by decide
    rw [parse_frame_short h, brought, if_neg (fun hto => htype hto.2)]
    exact iff_of_true (by simp) (fun hle => absurd h (Nat.not_lt.mpr hle))
  have h14 := Nat.not_lt.mp h
  rw [parse_frame h14, brought]
  unfold Addressed
  by_cases hto : (addressAt b 0 = ETHERNET_BROADCAST ∨ addressAt b 0 = x.ethernetAddress) ∧
      NetParser.wordAt b 12 = EthernetHeader.TYPE_IPv4
  · rw [if_pos hto, ← IPv4Datagram.taken_serializable_iff]
    simp only [h14, hto.1, hto.2, forall_const]
    by_cases hok : (({} : IPv4Datagram).parse (b.drop EthernetHeader.LENGTH)).1 = .noError
    · simp [hok]
    · simp [hok]
  · rw [if_neg hto]
    refine iff_of_true (by simp) (fun _ htype haddr => absurd ⟨haddr, htype⟩ hto)

end Calls

end NetworkInterface

theorem AsyncNetworkInterface.recv_frame_returns {a : AsyncNetworkInterface}
    (h : a.toNetworkInterface.WaitsWell) (b : Bytes) :
    (a.recvFrame (({} : EthernetFrame).parse b).2).Returns fun _ a' =>
      a'.datagramsOut =
          a.datagramsOut ++ (a.toNetworkInterface.brought (({} : EthernetFrame).parse b).2).toList ∧
        a'.toNetworkInterface.WaitsWell := by
  -- a parsed frame has its payload in one buffer
  have hl : a.toNetworkInterface.Legible (({} : EthernetFrame).parse b).2 :=
    fun _ _ => List.cons_ne_nil _ _
  obtain ⟨res, hres, hb, hw⟩ := h.recv_frame hl
  rw [AsyncNetworkInterface.recvFrame]
  simp only [hres]
  exact Outcome.returns_done ⟨by rw [hb], hw⟩

/-- What happens to a router: bytes arrive at an interface, the queues are routed, or time
passes for an interface. -/
inductive RouterUse where
  | deliver (i : Nat) (bytes : Bytes)
  | route
  | tick (i : Nat) (ms : UInt64)
  deriving DecidableEq, Repr

/-- The use is of one of `n` interfaces. -/
def RouterUse.Within (n : Nat) : RouterUse → Prop
  | .deliver i _ | .tick i _ => i < n
  | .route => True

instance (n : Nat) : (u : RouterUse) → Decidable (u.Within n)
  | .deliver i _ | .tick i _ => inferInstanceAs (Decidable (i < n))
  | .route => .isTrue trivial

namespace Router

open IPv4Datagram NetParser

/-- Bytes that are taken as a frame are passed to `recv_frame` of the interface. -/
def call (r : Router) : RouterUse → Outcome Fault Router Unit
  | .deliver i bytes =>
    match r.interfaces[i]? with
    | none => .fail r .outOfRange
    | some a =>
      let parsed := ({} : EthernetFrame).parse bytes
      if parsed.1 = .noError then
        let o := a.recvFrame parsed.2
        ⟨o.result, { r with interfaces := r.interfaces.set i o.state }⟩
      else .done r ()
  | .route => r.route
  | .tick i ms =>
    match r.interfaces[i]? with
    | none => .fail r .outOfRange
    | some a =>
      let a := { a with toNetworkInterface := a.toNetworkInterface.tick ms }
      .done { r with interfaces := r.interfaces.set i a } ()

def step (r : Router) (u : RouterUse) : Router := (r.call u).state

/-- A router with `n` interfaces: the routes name interfaces that exist, and what waits
can be written. -/
structure Steady (n : Nat) (r : Router) : Prop where
  size : r.interfaces.length = n
  routes : ∀ e ∈ r.routingTable, e.interfaceNum < n
  waiting : ∀ a ∈ r.interfaces, a.toNetworkInterface.WaitsWell

/-- Every datagram that is to be routed can be written. -/
def QueuesWell (r : Router) : Prop :=
  ∀ a ∈ r.interfaces, ∀ d ∈ a.datagramsOut, d.Serializable

section Steps

variable {n : Nat} {r : Router}

theorem longest_match_mem {table : List RoutingTableEntry} {destIp : UInt32}
    {entry : RoutingTableEntry} (h : longestMatch table destIp = some entry) : entry ∈ table := by
  have hfold : ∀ (rest : List RoutingTableEntry) (found : Option RoutingTableEntry),
      rest.foldl (better destIp) found = some entry → found = some entry ∨ entry ∈ rest := by
    intro rest
    induction rest with
    | nil => exact fun found hf => .inl hf
    | cons next rest ih =>
      intro found hf
      rcases ih _ hf with hnext | hmem
      · have hcases : better destIp found next = found ∨ better destIp found next = some next := by
          unfold better
          split
          · cases found with
            | none => exact .inr rfl
            | some e =>
              simp only
              split
              · exact .inr rfl
              · exact .inl rfl
          · exact .inl rfl
        rcases hcases with hold | hnew
        · exact .inl (hold ▸ hnext)
        · rw [hnew] at hnext
          exact .inr (List.mem_cons.mpr (.inl (Option.some.inj hnext).symm))
      · exact .inr (List.mem_cons_of_mem _ hmem)
  rcases hfold table none h with hnone | hmem
  · cases hnone
  · exact hmem

/-- One interface is replaced. -/
theorem Steady.set (h : r.Steady n) (i : Nat) {a : AsyncNetworkInterface}
    (ha : a.toNetworkInterface.WaitsWell) :
    ({ r with interfaces := r.interfaces.set i a } : Router).Steady n := by
  refine ⟨by simpa using h.size, h.routes, ?_⟩
  intro b hb
  rcases List.mem_or_eq_of_mem_set hb with hb | rfl
  · exact h.waiting b hb
  · exact ha

theorem QueuesWell.set (h : r.QueuesWell) (i : Nat) {a : AsyncNetworkInterface}
    (ha : ∀ d ∈ a.datagramsOut, d.Serializable) :
    ({ r with interfaces := r.interfaces.set i a } : Router).QueuesWell := by
  intro b hb
  rcases List.mem_or_eq_of_mem_set hb with hb | rfl
  · exact h b hb
  · exact ha

/-- The queue of an interface is replaced. -/
theorem set_queue_mem {i : Nat} {queue : List InternetDatagram} {b : AsyncNetworkInterface}
    (hb : b ∈ (r.setQueue i queue).interfaces) :
    b ∈ r.interfaces ∨ ∃ a ∈ r.interfaces, b = { a with datagramsOut := queue } := by
  obtain ⟨j, hj⟩ := List.mem_iff_getElem?.mp hb
  rw [setQueue, List.getElem?_modify] at hj
  obtain ⟨a, ha, rfl⟩ := Option.map_eq_some_iff.mp hj
  have hmem := List.mem_of_getElem? ha
  split
  · exact .inr ⟨a, hmem, rfl⟩
  · exact .inl hmem

theorem Steady.set_queue (h : r.Steady n) (i : Nat) (queue : List InternetDatagram) :
    (r.setQueue i queue).Steady n := by
  refine ⟨by simpa [setQueue] using h.size, h.routes, ?_⟩
  intro b hb
  rcases set_queue_mem hb with hb | ⟨a, ha, rfl⟩
  · exact h.waiting b hb
  · exact h.waiting a ha

theorem QueuesWell.set_queue (h : r.QueuesWell) (i : Nat) {queue : List InternetDatagram}
    (hq : ∀ d ∈ queue, d.Serializable) : (r.setQueue i queue).QueuesWell := by
  intro b hb
  rcases set_queue_mem hb with hb | ⟨a, ha, rfl⟩
  · exact h b hb
  · exact hq

theorem Steady.interface (h : r.Steady n) {i : Nat} (hi : i < n) :
    ∃ a ∈ r.interfaces, r.interfaces[i]? = some a := by
  have hlt : i < r.interfaces.length := h.size ▸ hi
  exact ⟨r.interfaces[i], List.getElem_mem hlt, List.getElem?_eq_getElem hlt⟩

/-- A datagram that can be written is sent on an interface that exists. -/
theorem send_on_returns (hs : r.Steady n) (hq : r.QueuesWell) {i : Nat} (hi : i < n)
    (dgram : InternetDatagram) (hd : dgram.Serializable) (nextHop : Address) :
    (r.sendOn i dgram nextHop).Returns fun _ r' => r'.Steady n ∧ r'.QueuesWell := by
  obtain ⟨a, hmem, hget⟩ := hs.interface hi
  obtain ⟨u, hu, hwait⟩ := (hs.waiting a hmem).send_datagram hd nextHop
  rw [sendOn, hget]
  exact ⟨u, hu, hs.set i hwait, hq.set i (hq a hmem)⟩

theorem route_one_returns (hs : r.Steady n) (hq : r.QueuesWell) {dgram : InternetDatagram}
    (hd : dgram.Serializable) :
    (r.routeOneDatagram dgram).Returns fun _ s => s.1.Steady n ∧ s.1.QueuesWell := by
  unfold routeOneDatagram
  split
  · exact Outcome.returns_done ⟨hs, hq⟩
  split
  · exact Outcome.returns_done ⟨hs, hq⟩
  · rename_i entry hentry
    have hi := hs.routes entry (longest_match_mem hentry)
    -- neither check of `serialize` looks at the TTL
    obtain ⟨u, hu, hnext⟩ := send_on_returns hs hq hi
      { dgram with header := { dgram.header with ttl := dgram.header.ttl - 1 } } hd
      (entry.nextHop.getD ⟨dgram.header.dst⟩)
    exact ⟨u, hu, hnext⟩

theorem route_queue_returns (i : Nat) {queue : List InternetDatagram}
    (hd : ∀ d ∈ queue, d.Serializable) (hs : r.Steady n) (hq : r.QueuesWell) :
    (routeQueue i queue r).Returns fun _ r' => r'.Steady n ∧ r'.QueuesWell := by
  induction queue generalizing r with
  | nil => exact Outcome.returns_done ⟨hs, hq⟩
  | cons dgram queue ih =>
    obtain ⟨hfirst, hrest⟩ := List.forall_mem_cons.mp hd
    obtain ⟨u, hu, hs', hq'⟩ := route_one_returns hs hq hfirst
    rw [routeQueue]
    simp only [hu]
    exact ih hrest (hs'.set_queue i queue) (hq'.set_queue i hrest)

theorem route_from_returns (is : List Nat) (hs : r.Steady n) (hq : r.QueuesWell) :
    (routeFrom is r).Returns fun _ r' => r'.Steady n ∧ r'.QueuesWell := by
  induction is generalizing r with
  | nil => exact Outcome.returns_done ⟨hs, hq⟩
  | cons i is ih =>
    refine (route_queue_returns i ?_ hs hq).and_then fun _ _ h => ih h.1 h.2
    intro d hd
    cases hget : r.interfaces[i]? with
    | none => simp [hget] at hd
    | some a =>
      rw [hget] at hd
      exact hq a (List.mem_of_getElem? hget) d hd

end Steps

/-- The call returns, and every datagram that is to be routed can be written. -/
def Serves (r : Router) (u : RouterUse) : Prop :=
  (r.call u).result = .ok () ∧ (r.step u).QueuesWell

/-- An IPv4 frame for the interface has a payload that is refused, or that has version 4
and a header length of at least five words. -/
def Harmless (r : Router) : RouterUse → Prop
  | .deliver i b => ∀ a ∈ r.interfaces[i]?,
      EthernetHeader.LENGTH ≤ b.length → wordAt b 12 = EthernetHeader.TYPE_IPv4 →
        addressAt b 0 = ETHERNET_BROADCAST ∨ addressAt b 0 = a.ethernetAddress →
          Mild (b.drop EthernetHeader.LENGTH)
  | .route | .tick _ _ => True

section Calls

variable {n : Nat} {r : Router}

/-- From a router in good order a delivery returns, and what it leaves in the queue is
what the frame brings. -/
theorem deliver_serves_iff (hs : r.Steady n) (hq : r.QueuesWell) {i : Nat} (hi : i < n)
    (b : Bytes) : (r.step (.deliver i b)).Steady n ∧
      (r.Serves (.deliver i b) ↔ r.Harmless (.deliver i b)) := by
  obtain ⟨a, hmem, hget⟩ := hs.interface hi
  obtain ⟨u, hu, hout, hwait⟩ := AsyncNetworkInterface.recv_frame_returns (hs.waiting a hmem) b
  have hcall : r.call (.deliver i b) =
      ⟨.ok (), { r with interfaces :=
        r.interfaces.set i (a.recvFrame (({} : EthernetFrame).parse b).2).state }⟩ := by
    rw [call, hget]
    simp only [EthernetFrame.parse_no_error, ↓reduceIte, hu]
  have hnew : (∀ d ∈ (a.recvFrame (({} : EthernetFrame).parse b).2).state.datagramsOut,
      d.Serializable) ↔ r.Harmless (.deliver i b) := by
    rw [hout, Harmless, hget, List.forall_mem_append, and_iff_right (hq a hmem)]
    simp only [← NetworkInterface.brought_serializable_iff, Option.mem_toList, Option.mem_def,
      Option.some.injEq, forall_eq']
  rw [step, Serves, step, hcall]
  refine ⟨hs.set i hwait, ?_⟩
  rw [← hnew]
  constructor
  · rintro ⟨-, hwell⟩
    exact hwell _ (List.mem_set (hs.size ▸ hi) _)
  · exact fun hd => ⟨rfl, hq.set i hd⟩

instance (r : Router) : (u : RouterUse) → Decidable (r.Harmless u)
  | .deliver i b => inferInstanceAs (Decidable (∀ a ∈ r.interfaces[i]?,
      EthernetHeader.LENGTH ≤ b.length → wordAt b 12 = EthernetHeader.TYPE_IPv4 →
        addressAt b 0 = ETHERNET_BROADCAST ∨ addressAt b 0 = a.ethernetAddress →
          Mild (b.drop EthernetHeader.LENGTH)))
  | .route | .tick _ _ => .isTrue trivial

theorem serves_iff_harmless (hs : r.Steady n) (hq : r.QueuesWell) {u : RouterUse}
    (hu : u.Within n) : (r.step u).Steady n ∧ (r.Serves u ↔ r.Harmless u) := by
  cases u with
  | deliver i b => exact deliver_serves_iff hs hq hu b
  | route =>
    obtain ⟨v, hv, hs', hq'⟩ := route_from_returns (List.range r.interfaces.length) hs hq
    exact ⟨hs', iff_of_true ⟨hv, hq'⟩ trivial⟩
  | tick i ms =>
    obtain ⟨a, hmem, hget⟩ := hs.interface hu
    rw [step, Serves, step, call, hget]
    exact ⟨hs.set i (hs.waiting a hmem), iff_of_true ⟨rfl, hq.set i (hq a hmem)⟩ trivial⟩

end Calls

/-- A router whose routes name interfaces that exist, and that holds no datagram that
cannot be written: no call throws, and every datagram that comes to be routed can be
written, just when every IPv4 frame delivered is harmless. -/
theorem serves_iff_all_harmless (r : Router) (hs : r.Steady r.interfaces.length)
    (hq : r.QueuesWell) {us : List RouterUse} (hus : ∀ u ∈ us, u.Within r.interfaces.length) :
    Run.Along step Serves r us ↔ Run.Along step Harmless r us := by
  refine Run.along_congr (I := fun r' => r'.Steady r.interfaces.length ∧ r'.QueuesWell) ⟨hs, hq⟩
    ?_ ?_
  · rintro x u hu ⟨hs, hq⟩
    exact (serves_iff_harmless hs hq (hus u hu)).2
  · rintro x u hu ⟨hs, hq⟩ hserves
    exact ⟨(serves_iff_harmless hs hq (hus u hu)).1, hserves.2⟩

/-- A router with one interface, and a default route behind it. -/
def oneArmed : Router :=
  (({} : Router).addInterface (.new (.replicate 6 1) ⟨1⟩)).addRoute 0 0 (some ⟨2⟩) 0

theorem one_armed_steady : oneArmed.Steady 1 ∧ oneArmed.QueuesWell := by
  refine ⟨⟨rfl, ?_, ?_⟩, ?_⟩ <;> simp [oneArmed, addRoute, addInterface,
    AsyncNetworkInterface.new, NetworkInterface.new, NetworkInterface.WaitsWell, QueuesWell]

/-- An Ethernet frame to everyone. -/
def frameBytes (type : UInt8) (payload : Bytes) : Bytes :=
  [255, 255, 255, 255, 255, 255, 2, 2, 2, 2, 2, 2, 8, type] ++ payload

/-- An ARP request of the host with address 2. -/
def requestBytes : Bytes :=
  frameBytes 6 [0, 1, 8, 0, 6, 4, 0, 1, 2, 2, 2, 2, 2, 2, 0, 0, 0, 2, 0, 0, 0, 0, 0, 0, 0, 0, 0, 9]

/-- A datagram of twenty bytes that begins with this one. -/
def datagramBytes (first : UInt8) : Bytes :=
  frameBytes 0 [first, 0, 0, 20, 0, 0, 0, 0, 64, 6, 0, 0, 0, 0, 0, 3, 0, 0, 0, 4]

/-- A datagram is passed on, bytes that are no frame and one that is cut off are not. -/
theorem serves_iff_all_harmless_forward :
    Run.Along step Serves oneArmed [.deliver 0 requestBytes, .deliver 0 (datagramBytes 0x45),
      .deliver 0 [1, 2, 3], .deliver 0 ((datagramBytes 0x45).take 30), .route, .tick 0 30000,
      .deliver 0 (datagramBytes 0x45), .route] :=
  (serves_iff_all_harmless oneArmed one_armed_steady.1 one_armed_steady.2 (by decide)).mpr
    (by decide +kernel)

/-- A datagram of version 6 is taken, and passing it on throws. -/
theorem malformed_datagram_throws :
    ¬ ∀ (r : Router) (us : List RouterUse), r.Steady r.interfaces.length → r.QueuesWell →
      (∀ u ∈ us, u.Within r.interfaces.length) →
        Run.Along step (fun r u => (r.call u).result = .ok ()) r us := by
  intro h
  have hlast := h oneArmed [.deliver 0 requestBytes, .deliver 0 (datagramBytes 0x65), .route]
    one_armed_steady.1 one_armed_steady.2 (by decide)
  revert hlast
  decide +kernel

end Router

end Sponge
