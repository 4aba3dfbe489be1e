import Sponge.Adapter
import Sponge.Link.Delivery
import Sponge.Router.Forwarding

namespace Sponge

/-- A kind of datagrams that stays the same under all that happens to a datagram on its way: it
is written into a frame and parsed again, and routers lower its TTL. -/
structure Transit (P : InternetDatagram → Prop) : Prop where
  regular : ∀ d, P d → d.Regular
  copy : ∀ d d' : InternetDatagram, d'.CopyOf d → P d → P d'
  ttl : ∀ (d : InternetDatagram) (ttl : UInt8), P d → P { d with header := { d.header with ttl } }

namespace NetworkInterface

/-- All frames of the interface that carry a datagram carry one of this kind. -/
structure Carrier (P : InternetDatagram → Prop) (x : NetworkInterface) : Prop where
  framed : x.Framed
  held : Held P x

theorem new_carrier (P : InternetDatagram → Prop) (ethernetAddress : EthernetAddress)
    (ipAddress : Address) : Carrier P (new ethernetAddress ipAddress) :=
  ⟨(InterfaceSession.new_accounted ethernetAddress ipAddress).framed,
    by simp [new, OrdMap.empty], by simp [new]⟩

section Carrier

variable {P : InternetDatagram → Prop} {x sender : NetworkInterface}

theorem Carrier.mono {P' : InternetDatagram → Prop} (h : Carrier P x) (hp : ∀ d, P d → P' d) :
    Carrier P' x :=
  ⟨h.framed, h.held.mono hp⟩

theorem Carrier.tick (h : Carrier P x) (ms : UInt64) : Carrier P (x.tick ms) :=
  ⟨h.framed.keep rfl rfl (fun _ he => he), h.held.waiting, h.held.emitted⟩

theorem Carrier.waits_well (h : Carrier P x) (hp : Transit P) : x.WaitsWell :=
  fun e he => (hp.regular _ (h.held.waiting e he)).serializable

theorem Carrier.send_datagram (h : Carrier P x) (hp : Transit P) {dgram : InternetDatagram}
    (hd : P dgram) (nextHop : Address) :
    (x.sendDatagram dgram nextHop).Returns fun _ y => Carrier P y :=
  ⟨(), send_datagram_ok (hp.regular dgram hd).serializable x nextHop,
    h.framed.send_datagram dgram nextHop, h.held.send_datagram hd nextHop⟩

/-- What comes out of a frame of such an interface is of the kind again, and in one piece. -/
theorem Carrier.brought (h : Carrier P sender) (hp : Transit P) {frame : EthernetFrame}
    (hframe : frame ∈ sender.framesOut) {d : InternetDatagram}
    (hd : x.brought (({} : EthernetFrame).parse frame.serialize.concatenate).2 = some d) :
    P d ∧ d.payload = ⟨[d.payload.concatenate]⟩ := by
  have hparse : (({} : EthernetFrame).parse frame.serialize.concatenate).2 =
      { header := frame.header, payload := ⟨[frame.payload.concatenate]⟩ } := by
    have hrelayed := frame.relayed_eq
    rw [EthernetFrame.relayed, if_pos (EthernetFrame.parse_no_error _)] at hrelayed
    exact Option.some.inj hrelayed
  rw [hparse] at hd
  obtain ⟨htype, rfl⟩ := brought_relayed hd
  obtain ⟨e, he, hser⟩ := h.framed.carries hframe htype
  have hpe := h.held.emitted e he
  refine ⟨hp.copy e.2 _ ((hp.regular _ hpe).parse_copy hser {}) hpe, ?_⟩
  unfold IPv4Datagram.parse
  simp only
  split <;> simp [BufferList.concatenate]

/-- A frame of such an interface is taken in by another. -/
theorem Carrier.recv_frame (h : Carrier P x) (hs : Carrier P sender) (hp : Transit P)
    {frame : EthernetFrame} (hframe : frame ∈ sender.framesOut) :
    (x.recvFrame (({} : EthernetFrame).parse frame.serialize.concatenate).2).Returns fun res y =>
      Carrier P y ∧ ∀ d, res = some d → P d ∧ d.payload = ⟨[d.payload.concatenate]⟩ := by
  -- a parsed frame has its payload in one buffer
  have hlegible : x.Legible (({} : EthernetFrame).parse frame.serialize.concatenate).2 :=
    fun _ _ => List.cons_ne_nil _ _
  obtain ⟨res, hres, hbrought, -⟩ := (h.waits_well hp).recv_frame hlegible
  refine ⟨res, hres, ⟨h.framed.recv_frame _, h.held.recv_frame _⟩, fun d hd => ?_⟩
  exact hs.brought hp hframe (hbrought.symm.trans hd)

end Carrier

end NetworkInterface

namespace Router

open NetworkInterface

/-- A router that has only datagrams of this kind, and whose routes name interfaces that
exist. -/
structure Carrier (P : InternetDatagram → Prop) (r : Router) : Prop where
  routes : r.RoutesWell
  interfaces : ∀ a ∈ r.interfaces, NetworkInterface.Carrier P a.toNetworkInterface
  queues : ∀ a ∈ r.interfaces, ∀ d ∈ a.datagramsOut, P d

section Carrier

variable {P : InternetDatagram → Prop} {r : Router}

theorem Carrier.mono {P' : InternetDatagram → Prop} (h : r.Carrier P) (hp : ∀ d, P d → P' d) :
    r.Carrier P' :=
  ⟨h.routes, fun a ha => (h.interfaces a ha).mono hp, fun a ha d hd => hp d (h.queues a ha d hd)⟩

theorem Carrier.set (h : r.Carrier P) (i : Nat) {a : AsyncNetworkInterface}
    (ha : NetworkInterface.Carrier P a.toNetworkInterface) (hq : ∀ d ∈ a.datagramsOut, P d) :
    ({ r with interfaces := r.interfaces.set i a } : Router).Carrier P := by
  refine ⟨by simpa [RoutesWell] using h.routes, ?_, ?_⟩
  · intro b hb
    rcases List.mem_or_eq_of_mem_set hb with hb | rfl
    · exact h.interfaces b hb
    · exact ha
  · intro b hb
    rcases List.mem_or_eq_of_mem_set hb with hb | rfl
    · exact h.queues b hb
    · exact hq

theorem Carrier.set_queue (h : r.Carrier P) (i : Nat) {queue : List InternetDatagram}
    (hq : ∀ d ∈ queue, P d) : (r.setQueue i queue).Carrier P := by
  refine ⟨h.routes.set_queue i queue, ?_, ?_⟩
  · intro b hb
    rcases set_queue_mem hb with hb | ⟨a, ha, rfl⟩
    · exact h.interfaces b hb
    · exact h.interfaces a ha
  · intro b hb
    rcases set_queue_mem hb with hb | ⟨a, ha, rfl⟩
    · exact h.queues b hb
    · exact hq

theorem Carrier.send_on (h : r.Carrier P) (hp : Transit P) {i : Nat}
    (hi : i < r.interfaces.length) {dgram : InternetDatagram} (hd : P dgram) (nextHop : Address) :
    (r.sendOn i dgram nextHop).Returns fun _ r' => r'.Carrier P := by
  have hget : r.interfaces[i]? = some r.interfaces[i] := List.getElem?_eq_getElem hi
  have hmem := List.getElem_mem hi
  obtain ⟨u, hu, hcarrier⟩ := (h.interfaces _ hmem).send_datagram hp hd nextHop
  have hqueue := h.queues _ hmem
  rw [sendOn, hget]
  exact ⟨u, hu, h.set i hcarrier hqueue⟩

theorem Carrier.route_one (h : r.Carrier P) (hp : Transit P) {dgram : InternetDatagram}
    (hd : P dgram) : (r.routeOneDatagram dgram).Returns fun _ s => s.1.Carrier P := by
  unfold routeOneDatagram
  split
  · exact Outcome.returns_done h
  split
  · exact Outcome.returns_done h
  · rename_i entry hentry
    obtain ⟨u, hu, hnext⟩ := h.send_on hp (h.routes entry (longest_match_mem hentry))
      (hp.ttl dgram (dgram.header.ttl - 1) hd) (entry.nextHop.getD ⟨dgram.header.dst⟩)
    exact ⟨u, hu, hnext⟩

theorem Carrier.route_queue (h : r.Carrier P) (hp : Transit P) (i : Nat)
    {queue : List InternetDatagram} (hq : ∀ d ∈ queue, P d) :
    (routeQueue i queue r).Returns fun _ r' => r'.Carrier P := by
  induction queue generalizing r with
  | nil => exact Outcome.returns_done h
  | cons dgram queue ih =>
    obtain ⟨hfirst, hrest⟩ := List.forall_mem_cons.mp hq
    obtain ⟨u, hu, hnext⟩ := h.route_one hp hfirst
    rw [routeQueue]
    simp only [hu]
    exact ih (hnext.set_queue i hrest) hrest

theorem Carrier.route_from (h : r.Carrier P) (hp : Transit P) (is : List Nat) :
    (routeFrom is r).Returns fun _ r' => r'.Carrier P := by
  induction is generalizing r with
  | nil => exact Outcome.returns_done h
  | cons i is ih =>
    refine (h.route_queue hp i ?_).and_then fun _ _ hnext => ih hnext
    intro d hd
    cases hget : r.interfaces[i]? with
    | none =>
      rw [hget] at hd
      cases hd
    | some a =>
      rw [hget] at hd
      exact h.queues a (List.mem_of_getElem? hget) d hd

/-- The bytes of a frame of such an interface arrive. -/
theorem Carrier.deliver (h : r.Carrier P) (hp : Transit P) {sender : NetworkInterface}
    (hs : NetworkInterface.Carrier P sender) {frame : EthernetFrame}
    (hframe : frame ∈ sender.framesOut) {i : Nat} (hi : i < r.interfaces.length) :
    (r.call (.deliver i frame.serialize.concatenate)).Returns fun _ r' => r'.Carrier P := by
  have hget : r.interfaces[i]? = some r.interfaces[i] := List.getElem?_eq_getElem hi
  have hmem := List.getElem_mem hi
  obtain ⟨res, hres, hcarrier, hkind⟩ := (h.interfaces _ hmem).recv_frame hs hp hframe
  rw [call, hget]
  simp only [EthernetFrame.parse_no_error, ↓reduceIte, AsyncNetworkInterface.recvFrame, hres]
  refine ⟨(), rfl, h.set i hcarrier ?_⟩
  intro d hd
  rcases List.mem_append.mp hd with hd | hd
  · exact h.queues _ hmem d hd
  · exact (hkind d (Option.mem_toList.mp hd)).1

theorem Carrier.tick (h : r.Carrier P) {i : Nat} (hi : i < r.interfaces.length) (ms : UInt64) :
    (r.call (.tick i ms)).Returns fun _ r' => r'.Carrier P := by
  have hget : r.interfaces[i]? = some r.interfaces[i] := List.getElem?_eq_getElem hi
  have hmem := List.getElem_mem hi
  have hqueue := h.queues _ hmem
  rw [call, hget]
  exact Outcome.returns_done (h.set i ((h.interfaces _ hmem).tick ms) hqueue)

end Carrier

end Router

end Sponge
