import Sponge.Connection.Shape
import Sponge.Internet.Ends
import Sponge.Network.Delivery

namespace Sponge

/-- An adapter with an interface of its own. The frames in `frames_out()` are what
`send_pending` has written to the device, and what is read from the device is an argument. -/
structure TCPOverIPv4OverEthernetAdapter extends TCPOverIPv4Adapter where
  interface : NetworkInterface
  nextHop : Address

namespace TCPOverIPv4OverEthernetAdapter

def read (a : TCPOverIPv4OverEthernetAdapter) (bytes : Bytes) :
    Outcome Fault TCPOverIPv4OverEthernetAdapter (Option TCPSegment) :=
  let parsed := ({} : EthernetFrame).parse bytes
  if parsed.1 ≠ .noError then .done a none
  else
    ((a.interface.recvFrame parsed.2).into fun interface => { a with interface }).andThen
      fun ipDgram a =>
        match ipDgram with
        | none => .done a none
        | some ipDgram =>
          (a.toTCPOverIPv4Adapter.unwrapTcpInIp ipDgram).into
            fun adapter => { a with toTCPOverIPv4Adapter := adapter }

def tick (a : TCPOverIPv4OverEthernetAdapter) (ms : UInt64) : TCPOverIPv4OverEthernetAdapter :=
  { a with interface := a.interface.tick ms }

def write (a : TCPOverIPv4OverEthernetAdapter) (seg : TCPSegment) :
    Outcome Fault TCPOverIPv4OverEthernetAdapter Unit :=
  match (a.toTCPOverIPv4Adapter.wrapTcpInIp seg).result with
  | .error e => .fail a e
  | .ok ipDgram =>
    (a.interface.sendDatagram ipDgram a.nextHop).into fun interface => { a with interface }

end TCPOverIPv4OverEthernetAdapter

/-- A connection with its adapter, as the event loop of a socket drives them: `popped` of the
segments in `segments_out()` have been given to the adapter. -/
structure Host where
  endpoint : Endpoint
  adapter : TCPOverIPv4OverEthernetAdapter
  popped : Nat := 0

/-- What happens to a host besides the arrival of frames. -/
inductive HostUse where
  | connect
  | write (data : Bytes)
  | endInputStream
  | read (len : Nat)
  | tick (ms : UInt64)
  | send
  deriving DecidableEq, Repr

/-- The use of the connection that an action comes to. -/
theorem Endpoint.act_conn (e : Endpoint) (sent : List TCPSegment) (u : Act) :
    (e.act sent u).conn = e.conn ∨ ∃ v, (e.act sent u).conn = e.conn.use v := by
  cases u with
  | connect => exact .inr ⟨.connect, rfl⟩
  | write data => exact .inr ⟨.write data, rfl⟩
  | endInputStream => exact .inr ⟨.endInputStream, rfl⟩
  | tick ms => exact .inr ⟨.tick ms, rfl⟩
  | read len => exact .inr ⟨.read len, rfl⟩
  | deliver k =>
    simp only [act]
    split
    · rename_i seg _
      exact .inr ⟨.segmentReceived seg, rfl⟩
    · exact .inl rfl

/-- What the owner does, it does whatever has been sent to it. -/
theorem Endpoint.act_nil (e : Endpoint) (sent : List TCPSegment) (u : Act) :
    e.act [] u = e ∨ e.act [] u = e.act sent u := by
  cases u with
  | deliver k => exact .inl rfl
  | connect => exact .inr rfl
  | write data => exact .inr rfl
  | endInputStream => exact .inr rfl
  | tick ms => exact .inr rfl
  | read len => exact .inr rfl

namespace Host

/-- A call of the owner. -/
def act (h : Host) (u : Act) : Host := { h with endpoint := h.endpoint.act [] u }

/-- A segment that the adapter returns goes to the connection. -/
def receive (h : Host) (bytes : Bytes) : Outcome Fault Host Unit :=
  ((h.adapter.read bytes).into fun adapter => { h with adapter }).andThen fun seg h =>
    match seg with
    | none => .done h ()
    | some seg =>
      .done { h with endpoint := { h.endpoint with conn := h.endpoint.conn.segmentReceived seg } } ()

/-- Segments are given to the adapter one by one; each is popped after that. -/
def sendAll : List TCPSegment → Host → Outcome Fault Host Unit
  | [], h => .done h ()
  | seg :: rest, h =>
    ((h.adapter.write seg).into fun adapter => { h with adapter }).andThen fun _ h =>
      sendAll rest { h with popped := h.popped + 1 }

def send (h : Host) : Outcome Fault Host Unit :=
  sendAll (h.endpoint.conn.segmentsOut.drop h.popped) h

/-- Time passes for a connection that is alive, and for its adapter. -/
def tick (h : Host) (ms : UInt64) : Host :=
  if h.endpoint.conn.active then { h.act (.tick ms.toNat) with adapter := h.adapter.tick ms } else h

def call (h : Host) : HostUse → Outcome Fault Host Unit
  | .connect => .done (h.act .connect) ()
  | .write data => .done (h.act (.write data)) ()
  | .endInputStream => .done (h.act .endInputStream) ()
  | .read len => .done (h.act (.read len)) ()
  | .tick ms => .done (h.tick ms) ()
  | .send => h.send

/-- The datagram was sent by the host, at some time. -/
def Sends (h : Host) (d : InternetDatagram) : Prop :=
  ∃ seg ∈ h.endpoint.conn.segmentsOut, ∃ ends, d.Brings seg ends ∧ h.adapter.Owns ends

/-- What was sent by one of two hosts. -/
def Genuine (h p : Host) (d : InternetDatagram) : Prop := h.Sends d ∨ p.Sends d

theorem Sends.copy {h : Host} {d d' : InternetDatagram} (hd : h.Sends d) (hc : d'.CopyOf d) :
    h.Sends d' := by
  obtain ⟨seg, hseg, ends, hbrings, howns⟩ := hd
  exact ⟨seg, hseg, ends, hbrings.copy hc, howns⟩

theorem Sends.ttl {h : Host} {d : InternetDatagram} (hd : h.Sends d) (ttl : UInt8) :
    h.Sends { d with header := { d.header with ttl } } := by
  obtain ⟨seg, hseg, ends, hbrings, howns⟩ := hd
  exact ⟨seg, hseg, ends, hbrings.ttl ttl, howns⟩

theorem Sends.regular {h : Host} {d : InternetDatagram} (hd : h.Sends d) : d.Regular := by
  obtain ⟨seg, -, ends, hbrings, -⟩ := hd
  exact hbrings.regular

theorem genuine_transit (h p : Host) : Transit (Genuine h p) where
  regular := fun _ hd => hd.elim Sends.regular Sends.regular
  copy := fun _ _ hc hd => hd.imp (fun hd => hd.copy hc) (fun hd => hd.copy hc)
  ttl := fun _ ttl hd => hd.imp (fun hd => hd.ttl ttl) (fun hd => hd.ttl ttl)

/-- `h'` is a later state of the host: it has sent all that `h` has. -/
structure Follows (h h' : Host) : Prop where
  out : ∀ seg ∈ h.endpoint.conn.segmentsOut, seg ∈ h'.endpoint.conn.segmentsOut
  owns : ∀ ends, h.adapter.Owns ends → h'.adapter.Owns ends

section Follows

variable {h h' p : Host} {d : InternetDatagram}

theorem Follows.refl (h : Host) : Follows h h := ⟨fun _ hg => hg, fun _ ho => ho⟩

theorem Follows.sends (hf : Follows h h') (hd : h.Sends d) : h'.Sends d := by
  obtain ⟨seg, hseg, ends, hbrings, howns⟩ := hd
  exact ⟨seg, hf.out seg hseg, ends, hbrings, hf.owns ends howns⟩

theorem Follows.genuine (hf : Follows h h') (hd : Genuine h p d) : Genuine h' p d :=
  hd.imp_left hf.sends

theorem Genuine.symm (hd : Genuine h p d) : Genuine p h d := Or.symm hd

end Follows

/-- A host in good order, with the host at the other end. -/
structure Sound (h p : Host) : Prop where
  link : h.endpoint.LinkTo p.endpoint
  shaped : h.endpoint.conn.Shaped
  apart : h.adapter.Apart
  carrier : NetworkInterface.Carrier (Genuine h p) h.adapter.interface

/-- Two hosts in good order, where the first has gone on from an earlier state. -/
structure Goes (p h h' : Host) : Prop where
  near : Sound h' p
  far : Sound p h'
  follows : Follows h h'

section Steps

variable {h p : Host} (hh : Sound h p) (hp : Sound p h)
include hh hp

/-- The host has done something to its connection, and both directions are in order still. -/
theorem Sound.goes {e : Endpoint} (hlinks : e.LinkTo p.endpoint ∧ p.endpoint.LinkTo e)
    (hconn : e.conn = h.endpoint.conn ∨ ∃ u, e.conn = h.endpoint.conn.use u) :
    Goes p h { h with endpoint := e } := by
  have hshaped : e.conn.Shaped ∧ ∀ g ∈ h.endpoint.conn.segmentsOut, g ∈ e.conn.segmentsOut := by
    cases hconn with
    | inl hsame =>
      rw [hsame]
      exact ⟨hh.shaped, fun _ hg => hg⟩
    | inr huse =>
      obtain ⟨u, huse⟩ := huse
      rw [huse]
      exact ⟨hh.shaped.use u, h.endpoint.conn.use_out u⟩
  have hfollows : Follows h { h with endpoint := e } := ⟨hshaped.2, fun _ ho => ho⟩
  refine ⟨⟨hlinks.1, hshaped.1, hh.apart, hh.carrier.mono fun _ hd => hfollows.genuine hd⟩,
    ⟨hlinks.2, hp.shaped, hp.apart, ?_⟩, hfollows⟩
  exact hp.carrier.mono fun _ hd => (hfollows.genuine hd.symm).symm

theorem Sound.act (hs : h.endpoint.Short p.endpoint) (hs' : p.endpoint.Short h.endpoint) (u : Act) :
    Goes p h (h.act u) := by
  refine hh.goes hp ?_ (h.endpoint.act_conn [] u)
  cases h.endpoint.act_nil p.endpoint.conn.segmentsOut u with
  | inl hsame =>
    rw [hsame]
    exact ⟨hh.link, hp.link⟩
  | inr hsame =>
    rw [hsame]
    exact Endpoint.links_act u hh.link hp.link hs hs'

/-- The interface has done something, with datagrams of the two hosts only. -/
theorem Sound.interface {interface : NetworkInterface}
    (hc : NetworkInterface.Carrier (Genuine h p) interface) (popped : Nat) :
    Goes p h { h with adapter := { h.adapter with interface }, popped } :=
  ⟨⟨hh.link, hh.shaped, hh.apart, hc⟩, ⟨hp.link, hp.shaped, hp.apart, hp.carrier⟩,
    fun _ hg => hg, fun _ ho => ho⟩

theorem Sound.tick (hs : h.endpoint.Short p.endpoint) (hs' : p.endpoint.Short h.endpoint)
    (ms : UInt64) : Goes p h (h.tick ms) := by
  unfold Host.tick
  split
  · have hact := hh.act hp hs hs' (.tick ms.toNat)
    obtain ⟨hnear, hfar, -⟩ := hact.near.interface hact.far (hact.near.carrier.tick ms) h.popped
    exact ⟨hnear, hfar, hact.follows.out, hact.follows.owns⟩
  · exact ⟨hh, hp, .refl h⟩

/-- A segment of the connection is wrapped and sent. -/
theorem Sound.write {seg : TCPSegment} (hseg : seg ∈ h.endpoint.conn.segmentsOut) :
    (h.adapter.write seg).Returns fun _ adapter =>
      Goes p h { h with adapter, popped := h.popped + 1 } := by
  -- the payload is that of a segment the sender has made
  obtain ⟨e, he, hcopy⟩ := hh.link.copies seg hseg
  have hsmall : seg.payload.length ≤ 65495 := by
    rw [hcopy.payload]
    exact Nat.le_trans (hh.link.taped.sent e he).small (by decide)
  obtain ⟨dgram, hwrap, hbrings⟩ := TCPOverIPv4Adapter.wrap_brings
    (a := h.adapter.toTCPOverIPv4Adapter) (hh.shaped.out seg hseg) hsmall
  have hgenuine : Genuine h p dgram := .inl ⟨seg, hseg, _, hbrings, hh.apart.owns⟩
  obtain ⟨u, hu, hcarrier⟩ :=
    hh.carrier.send_datagram (genuine_transit h p) hgenuine h.adapter.nextHop
  unfold TCPOverIPv4OverEthernetAdapter.write
  rw [hwrap]
  exact ⟨u, hu, hh.interface hp hcarrier _⟩

end Steps

theorem Goes.trans {p h h' h'' : Host} (hg : Goes p h h') (hg' : Goes p h' h'') : Goes p h h'' :=
  ⟨hg'.near, hg'.far, fun g hmem => hg'.follows.out g (hg.follows.out g hmem),
    fun ends ho => hg'.follows.owns ends (hg.follows.owns ends ho)⟩

theorem Sound.send_all {h p : Host} (hh : Sound h p) (hp : Sound p h) {segs : List TCPSegment}
    (hsegs : ∀ seg ∈ segs, seg ∈ h.endpoint.conn.segmentsOut) :
    (sendAll segs h).Returns fun _ h' => Goes p h h' := by
  induction segs generalizing h with
  | nil => exact Outcome.returns_done ⟨hh, hp, .refl h⟩
  | cons seg rest ih =>
    obtain ⟨hfirst, hrest⟩ := List.forall_mem_cons.mp hsegs
    obtain ⟨u, hu, hgoes⟩ := hh.write hp hfirst
    rw [sendAll, Outcome.into_and_then_ok hu]
    obtain ⟨v, hv, hlast⟩ :=
      ih hgoes.near hgoes.far fun g hg => hgoes.follows.out g (hrest g hg)
    exact ⟨v, hv, hgoes.trans hlast⟩

theorem Sound.send {h p : Host} (hh : Sound h p) (hp : Sound p h) :
    h.send.Returns fun _ h' => Goes p h h' :=
  hh.send_all hp fun _ hg => List.mem_of_mem_drop hg

/-- No call of the owner throws, and all is in order after it. -/
theorem Sound.call {h p : Host} (hh : Sound h p) (hp : Sound p h)
    (hs : h.endpoint.Short p.endpoint) (hs' : p.endpoint.Short h.endpoint) (u : HostUse) :
    (h.call u).Returns fun _ h' => Goes p h h' := by
  cases u with
  | connect => exact Outcome.returns_done (hh.act hp hs hs' .connect)
  | write data => exact Outcome.returns_done (hh.act hp hs hs' (.write data))
  | endInputStream => exact Outcome.returns_done (hh.act hp hs hs' .endInputStream)
  | read len => exact Outcome.returns_done (hh.act hp hs hs' (.read len))
  | tick ms => exact Outcome.returns_done (hh.tick hp hs hs' ms)
  | send => exact hh.send hp

/-- The adapter takes a segment from the other host, and the connection receives it. -/
theorem Sound.take {h p : Host} (hh : Sound h p) (hp : Sound p h)
    (hs : h.endpoint.Short p.endpoint) (hs' : p.endpoint.Short h.endpoint) {seg : TCPSegment}
    (hseg : seg ∈ p.endpoint.conn.segmentsOut) {ends : SocketAddress × SocketAddress}
    (hne : ends.1 ≠ ends.2) {a' : TCPOverIPv4Adapter} (hquiet : a'.listening = false)
    (hends : ends = (a'.cfg.destination, a'.cfg.source))
    (hport : a'.cfg.source.port = h.adapter.cfg.source.port)
    (hkeep : h.adapter.listening = false → a' = h.adapter.toTCPOverIPv4Adapter) :
    Goes p h { h with
      endpoint := { h.endpoint with conn := h.endpoint.conn.segmentReceived seg }
      adapter := { h.adapter with toTCPOverIPv4Adapter := a' } } := by
  obtain ⟨k, hk⟩ := List.mem_iff_getElem?.mp hseg
  have hact : h.endpoint.act p.endpoint.conn.segmentsOut (.deliver k) =
      { h.endpoint with conn := h.endpoint.conn.segmentReceived seg } := by
    simp only [Endpoint.act, hk]
  have hlinks := Endpoint.links_act (.deliver k) hh.link hp.link hs hs'
  rw [hact] at hlinks
  obtain ⟨hnear, hfar, hout, -⟩ := hh.goes hp hlinks (.inr ⟨.segmentReceived seg, rfl⟩)
  have hfollows : Follows h { h with
      endpoint := { h.endpoint with conn := h.endpoint.conn.segmentReceived seg }
      adapter := { h.adapter with toTCPOverIPv4Adapter := a' } } :=
    ⟨hout, fun _ ho => ho.taken hport hkeep⟩
  have hapart : a'.Apart := by
    refine ⟨?_, fun hl => ?_⟩
    · intro heq
      rw [hends] at hne
      exact hne heq.symm
    · rw [hquiet] at hl
      cases hl
  refine ⟨⟨hnear.link, hnear.shaped, hapart, ?_⟩, ⟨hfar.link, hfar.shaped, hfar.apart, ?_⟩, hfollows⟩
  · exact hh.carrier.mono fun _ hd => hfollows.genuine hd
  · exact hp.carrier.mono fun _ hd => (hfollows.genuine hd.symm).symm

/-- A frame arrives that carries a datagram of one of the two hosts, if any. Nothing is
thrown, and what comes to the connection is a segment of the other host. -/
theorem Sound.receive {h p : Host} (hh : Sound h p) (hp : Sound p h)
    (hs : h.endpoint.Short p.endpoint) (hs' : p.endpoint.Short h.endpoint)
    {sender : NetworkInterface} (hsender : NetworkInterface.Carrier (Genuine h p) sender)
    {frame : EthernetFrame} (hframe : frame ∈ sender.framesOut) :
    (h.receive frame.serialize.concatenate).Returns fun _ h' => Goes p h h' := by
  obtain ⟨res, hres, hcarrier, hkind⟩ :=
    hh.carrier.recv_frame hsender (genuine_transit h p) hframe
  have hstart := hh.interface hp hcarrier h.popped
  unfold Host.receive TCPOverIPv4OverEthernetAdapter.read
  simp only [EthernetFrame.parse_no_error, ne_eq, not_true_eq_false, ↓reduceIte]
  rw [Outcome.into_and_then_ok hres]
  cases res with
  | none => exact Outcome.returns_done hstart
  | some d =>
    obtain ⟨hgenuine, hone⟩ := hkind d rfl
    have hcase : ∃ seg ends, d.Brings seg ends ∧
        (h.adapter.Owns ends ∨ ends.1 ≠ ends.2 ∧ seg ∈ p.endpoint.conn.segmentsOut) := by
      rcases hgenuine with ⟨seg, -, ends, hbrings, howns⟩ | ⟨seg, hseg, ends, hbrings, howns⟩
      · exact ⟨seg, ends, hbrings, .inl howns⟩
      · exact ⟨seg, ends, hbrings, .inr ⟨howns.ne, hseg⟩⟩
    obtain ⟨seg, ends, hbrings, hwhose⟩ := hcase
    rcases TCPOverIPv4Adapter.unwrap_brings hbrings h.adapter.toTCPOverIPv4Adapter hone with
      hpass | ⟨a', k, htake, hquiet, hends, hport, hkeep⟩
    · simp only [hpass]
      exact Outcome.returns_done hstart
    · simp only [htake]
      rcases hwhose with howns | ⟨hne, hseg⟩
      · exact absurd (howns.not_taken hends hport hkeep) id
      · have htaken := hstart.near.take hstart.far hs hs' hseg hne hquiet hends hport hkeep
        exact Outcome.returns_done (hstart.trans htaken)

end Host

end Sponge
