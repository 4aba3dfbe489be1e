import Sponge.Lib.Outcome
import Sponge.Lib.Run
import Sponge.Wire.RoundTrip

namespace Sponge

/-- An address with its port. -/
structure SocketAddress extends Address where
  port : UInt16 := 0
  deriving DecidableEq, Repr

structure FdAdapterConfig where
  source : SocketAddress := ⟨⟨0⟩, 0⟩
  destination : SocketAddress := ⟨⟨0⟩, 0⟩
  lossRateDn : UInt16 := 0
  lossRateUp : UInt16 := 0
  deriving DecidableEq, Repr

/-- A converter between TCP segments and IPv4 datagrams; the fields are those of
`FdAdapterBase`. -/
structure TCPOverIPv4Adapter where
  cfg : FdAdapterConfig := {}
  listen : Bool := false
  deriving DecidableEq, Repr

namespace TCPOverIPv4Adapter

def listening (a : TCPOverIPv4Adapter) : Bool := a.listen

/-- From now on the adapter is for the peer that sent this segment, under the address it
sent it to. -/
def lockOn (a : TCPOverIPv4Adapter) (ipDgram : InternetDatagram) (tcpSeg : TCPSegment) :
    TCPOverIPv4Adapter :=
  { cfg := { a.cfg with
      source := ⟨⟨ipDgram.header.dst⟩, a.cfg.source.port⟩
      destination := ⟨⟨ipDgram.header.src⟩, tcpSeg.header.sport⟩ }
    listen := false }

/-- What is done with a segment that was parsed. -/
def accept (a : TCPOverIPv4Adapter) (ipDgram : InternetDatagram) (tcpSeg : TCPSegment) :
    Outcome Fault TCPOverIPv4Adapter (Option TCPSegment) :=
  if tcpSeg.header.dport ≠ a.cfg.source.port then .done a none
  else if a.listening ∧ ¬ (tcpSeg.header.syn ∧ ¬ tcpSeg.header.rst) then .done a none
  else
    let a := if a.listening then a.lockOn ipDgram tcpSeg else a
    if tcpSeg.header.sport ≠ a.cfg.destination.port then .done a none
    else .done a (some tcpSeg)

/-- The payload has to be in one piece: otherwise the conversion to a `Buffer` throws. -/
def unwrapTcpInIp (a : TCPOverIPv4Adapter) (ipDgram : InternetDatagram) :
    Outcome Fault TCPOverIPv4Adapter (Option TCPSegment) :=
  if ¬ a.listening ∧ ipDgram.header.dst ≠ a.cfg.source.ipv4Numeric then .done a none
  else if ¬ a.listening ∧ ipDgram.header.src ≠ a.cfg.destination.ipv4Numeric then .done a none
  else if ipDgram.header.proto ≠ IPv4Header.PROTO_TCP then .done a none
  else
    match ipDgram.payload.toBuffer with
    | .error e => .fail a e
    | .ok buffer =>
      let parsed := ({} : TCPSegment).parse buffer ipDgram.header.pseudoCksum
      if parsed.1 ≠ .noError then .done a none else a.accept ipDgram parsed.2

/-- The port numbers of the segment. -/
def setPorts (a : TCPOverIPv4Adapter) (seg : TCPSegment) : TCPSegment :=
  { seg with
    header := { seg.header with sport := a.cfg.source.port, dport := a.cfg.destination.port } }

/-- A new datagram's header with addresses and length. -/
def ipHeader (a : TCPOverIPv4Adapter) (seg : TCPSegment) : IPv4Header :=
  { src := a.cfg.source.ipv4Numeric
    dst := a.cfg.destination.ipv4Numeric
    len := UInt16.ofNat (({} : IPv4Header).hlen.toNat * 4 + seg.header.doff.toNat * 4 +
      seg.payload.length) }

/-- The segment is passed by reference: what becomes of it is the state. -/
def wrapTcpInIp (a : TCPOverIPv4Adapter) (seg : TCPSegment) :
    Outcome Fault TCPSegment InternetDatagram :=
  let seg := a.setPorts seg
  let header := a.ipHeader seg
  match seg.serialize header.pseudoCksum with
  | .error e => .fail seg e
  | .ok payload => .done seg { header, payload }

section Inverse

variable {a b : TCPOverIPv4Adapter} {seg : TCPSegment}

/-- What a segment that fits is wrapped in: a regular datagram whose payload is parsed to
the segment again. -/
theorem wrapped (h5 : seg.header.doff = 5) (hlen : seg.payload.length ≤ 65495) :
    ∃ k dgram, (a.wrapTcpInIp seg).result = .ok dgram ∧ dgram.Regular ∧
      dgram.header = a.ipHeader (a.setPorts seg) ∧
      ∀ t : TCPSegment, t.parse dgram.payload.concatenate dgram.header.pseudoCksum = (.noError,
        { header := { (a.setPorts seg).header with cksum := k }, payload := seg.payload }) := by
  have hdoff : (a.setPorts seg).header.doff.toNat = 5 := congrArg UInt8.toNat h5
  have hfive : 5 ≤ (a.setPorts seg).header.doff := UInt8.le_of_eq h5.symm
  have hstart : TCPSegment.Start (a.ipHeader (a.setPorts seg)).pseudoCksum := .inr ⟨_, rfl⟩
  have h15 : (a.setPorts seg).header.doff.toNat ≤ 15 := by omega
  have hfit : 4 * (a.setPorts seg).header.doff.toNat + seg.payload.length ≤ 65535 := by omega
  obtain ⟨k, hout, hmax, hvalid⟩ := TCPSegment.serialize_valid hfive h15 hfit hstart
  have hsize : { (a.setPorts seg).header with cksum := k }.padded.length = 20 := by
    rw [TCPHeader.length_padded (h := { (a.setPorts seg).header with cksum := k }) hfive, hdoff]
  refine ⟨k, ⟨a.ipHeader (a.setPorts seg),
    ⟨[{ (a.setPorts seg).header with cksum := k }.padded, seg.payload]⟩⟩, ?_, ?_, rfl, ?_⟩
  · rw [wrapTcpInIp, hout]
    rfl
  · refine ⟨rfl, Nat.le_refl 5, (by decide : 5 ≤ 15), (by decide : 0 < 2 ^ 13), ?_⟩
    have hpayload : (a.setPorts seg).payload.length = seg.payload.length := rfl
    simp only [ipHeader, BufferList.size, List.map_cons, List.map_nil, List.sum_cons, List.sum_nil,
      hsize, hdoff, hpayload, UInt16.toNat_ofNat', UInt8.reduceToNat]
    omega
  · intro t
    simp only [BufferList.concatenate, List.flatten_cons, List.flatten_nil, List.append_nil]
    exact TCPSegment.parse_padded (h := { (a.setPorts seg).header with cksum := k }) hfive h15 hmax
      hstart hvalid t

/-- The payload of a datagram that was parsed is in one piece. -/
theorem unwrap_taken {h : IPv4Header} {buffer : Bytes} {tcpSeg : TCPSegment}
    (hb : b.listening = false) (hdst : h.dst = b.cfg.source.ipv4Numeric)
    (hsrc : h.src = b.cfg.destination.ipv4Numeric) (hproto : h.proto = IPv4Header.PROTO_TCP)
    (hparse : ({} : TCPSegment).parse buffer h.pseudoCksum = (.noError, tcpSeg))
    (hdport : tcpSeg.header.dport = b.cfg.source.port)
    (hsport : tcpSeg.header.sport = b.cfg.destination.port) :
    b.unwrapTcpInIp ⟨h, ⟨[buffer]⟩⟩ = .done b (some tcpSeg) := by
  simp [unwrapTcpInIp, accept, BufferList.toBuffer, hb, hdst, hsrc, hproto, hparse, hdport, hsport]

/-- What one adapter wraps, its mirror image on the other side of the link unwraps. -/
theorem adapters_inverse {a b : TCPOverIPv4Adapter} (hb : b.listening = false)
    (hsource : b.cfg.source = a.cfg.destination) (hdestination : b.cfg.destination = a.cfg.source)
    {seg : TCPSegment} (h5 : seg.header.doff = 5) (hlen : seg.payload.length ≤ 65495) :
    ∃ dgram out dgram' k, (a.wrapTcpInIp seg).result = .ok dgram ∧ dgram.serialize = .ok out ∧
      (∀ t : IPv4Datagram, t.parse out.concatenate = (.noError, dgram')) ∧
      b.unwrapTcpInIp dgram' = .done b (some { seg with header := { seg.header with
        sport := a.cfg.source.port, dport := a.cfg.destination.port, cksum := k } }) := by
  obtain ⟨k, dgram, hwrap, hreg, hhead, hparse⟩ := wrapped (a := a) h5 hlen
  obtain ⟨k', hout, hformed, -⟩ := hreg.written
  refine ⟨dgram, _, ⟨{ dgram.header with cksum := k' }, ⟨[dgram.payload.concatenate]⟩⟩, k, hwrap,
    hout, fun t => ?_, ?_⟩
  · exact IPv4Datagram.parse_padded (h := { dgram.header with cksum := k' }) hreg.ver hreg.hlen_ge
      hreg.hlen_le hreg.offset hformed t
  · apply unwrap_taken hb
    · rw [hhead, hsource]
      rfl
    · rw [hhead, hdestination]
      rfl
    · rw [hhead]
      rfl
    · exact hparse {}
    · rw [hsource]
    · rw [hdestination]

/-- The longest payload, on a link between two loopback ports. -/
theorem adapters_inverse_longest :
    let near : TCPOverIPv4Adapter := { cfg := { source := ⟨⟨1⟩, 80⟩, destination := ⟨⟨2⟩, 90⟩ } }
    let far : TCPOverIPv4Adapter := { cfg := { source := ⟨⟨2⟩, 90⟩, destination := ⟨⟨1⟩, 80⟩ } }
    let seg : TCPSegment := { header := { ack := true }, payload := List.replicate 65495 7 }
    ∃ dgram out dgram' k, (near.wrapTcpInIp seg).result = .ok dgram ∧ dgram.serialize = .ok out ∧
      (∀ t : IPv4Datagram, t.parse out.concatenate = (.noError, dgram')) ∧
      far.unwrapTcpInIp dgram' = .done far (some { seg with header := { seg.header with
        sport := 80, dport := 90, cksum := k } }) :=
  adapters_inverse rfl rfl rfl rfl (Nat.le_of_eq List.length_replicate)

end Inverse

section Peer

/-- Where a segment comes from and where it goes to. -/
def ends (ipDgram : InternetDatagram) (tcpSeg : TCPSegment) : SocketAddress × SocketAddress :=
  (⟨⟨ipDgram.header.src⟩, tcpSeg.header.sport⟩, ⟨⟨ipDgram.header.dst⟩, tcpSeg.header.dport⟩)

/-- A call that returns this segment and leaves the adapter with the segment's two ends. -/
structure Takes (a : TCPOverIPv4Adapter) (ipDgram : InternetDatagram)
    (o : Outcome Fault TCPOverIPv4Adapter (Option TCPSegment)) (tcpSeg : TCPSegment) : Prop where
  result : o.result = .ok (some tcpSeg)
  quiet : o.state.listening = false
  ends : ends ipDgram tcpSeg = (o.state.cfg.destination, o.state.cfg.source)
  opens : a.listening = true → tcpSeg.header.syn = true ∧ tcpSeg.header.rst = false
  keeps : a.listening = false → o.state = a

/-- A call that returns no segment, and so leaves the adapter as it is. -/
structure Passes (a : TCPOverIPv4Adapter)
    (o : Outcome Fault TCPOverIPv4Adapter (Option TCPSegment)) : Prop where
  result : ∀ tcpSeg, o.result ≠ .ok (some tcpSeg)
  keeps : o.state = a

theorem passes_done (a : TCPOverIPv4Adapter) : Passes a (.done a none) :=
  ⟨fun _ => nofun, rfl⟩

/-- The addresses are compared before the call comes here, unless the adapter listens. -/
theorem accept_cases (a : TCPOverIPv4Adapter) (ipDgram : InternetDatagram) (tcpSeg : TCPSegment)
    (hdst : a.listening = false → ipDgram.header.dst = a.cfg.source.ipv4Numeric)
    (hsrc : a.listening = false → ipDgram.header.src = a.cfg.destination.ipv4Numeric) :
    Passes a (a.accept ipDgram tcpSeg) ∨ Takes a ipDgram (a.accept ipDgram tcpSeg) tcpSeg := by
  by_cases hport : tcpSeg.header.dport = a.cfg.source.port
  swap
  · left
    rw [accept, if_pos hport]
    exact passes_done a
  rw [accept, if_neg (not_not_intro hport)]
  cases hl : a.listening with
  | true =>
    cases hsyn : tcpSeg.header.syn with
    | false => exact .inl (by simpa using passes_done a)
    | true =>
      cases hrst : tcpSeg.header.rst with
      | true => exact .inl (by simpa using passes_done a)
      | false =>
        -- the sender's port has just been written, so the last comparison cannot fail
        right
        refine ⟨?_, ?_, ?_, fun _ => ⟨hsyn, hrst⟩, fun h => ?_⟩
        · simp [lockOn]
        · simp [lockOn, listening]
        · simp [lockOn, TCPOverIPv4Adapter.ends, hport]
        · rw [hl] at h
          cases h
  | false =>
    by_cases hsport : tcpSeg.header.sport = a.cfg.destination.port
    · right
      refine ⟨?_, ?_, ?_, fun h => ?_, fun _ => ?_⟩
      · simp [hsport]
      · simpa [hsport] using hl
      · simp [hsport, TCPOverIPv4Adapter.ends, hdst hl, hsrc hl, hport]
      · rw [hl] at h
        cases h
      · simp [hsport]
    · exact .inl (by simpa [hsport] using passes_done a)

/-- All that a call can do. -/
theorem unwrap_cases (a : TCPOverIPv4Adapter) (ipDgram : InternetDatagram) :
    Passes a (a.unwrapTcpInIp ipDgram) ∨
      ∃ tcpSeg, Takes a ipDgram (a.unwrapTcpInIp ipDgram) tcpSeg := by
  rw [unwrapTcpInIp]
  split
  · exact .inl (passes_done a)
  rename_i hdst
  split
  · exact .inl (passes_done a)
  rename_i hsrc
  split
  · exact .inl (passes_done a)
  cases ipDgram.payload.toBuffer with
  | error e => exact .inl ⟨fun _ => nofun, rfl⟩
  | ok buffer =>
    dsimp only
    split
    · exact .inl (passes_done a)
    · have hcases := accept_cases a ipDgram
        (({} : TCPSegment).parse buffer ipDgram.header.pseudoCksum).2
        (fun hl => by simpa [hl] using hdst) (fun hl => by simpa [hl] using hsrc)
      cases hcases with
      | inl h => exact .inl h
      | inr h => exact .inr ⟨_, h⟩

end Peer

end TCPOverIPv4Adapter

/-- An adapter that is given one datagram after another, with the segments it has returned
and the datagrams they came in, the first one first. -/
structure AdapterSession where
  adapter : TCPOverIPv4Adapter
  taken : List (InternetDatagram × TCPSegment) := []
  deriving DecidableEq

namespace AdapterSession

open TCPOverIPv4Adapter

def step (s : AdapterSession) (ipDgram : InternetDatagram) : AdapterSession :=
  let o := s.adapter.unwrapTcpInIp ipDgram
  { adapter := o.state
    taken := match o.result with
      | .ok (some tcpSeg) => s.taken ++ [(ipDgram, tcpSeg)]
      | _ => s.taken }

/-- One peer: the adapter listens until a first segment is returned, and is for that
segment's two ends from then on. -/
def OnePeer (s : AdapterSession) : Prop :=
  match s.taken with
  | [] => s.adapter.listening = true
  | first :: rest => s.adapter.listening = false ∧
      first.2.header.syn = true ∧ first.2.header.rst = false ∧
      ends first.1 first.2 = (s.adapter.cfg.destination, s.adapter.cfg.source) ∧
      ∀ later ∈ rest, ends later.1 later.2 = ends first.1 first.2

theorem step_passes {s : AdapterSession} {ipDgram : InternetDatagram}
    (h : Passes s.adapter (s.adapter.unwrapTcpInIp ipDgram)) : s.step ipDgram = s := by
  rw [step, h.keeps]
  cases hr : (s.adapter.unwrapTcpInIp ipDgram).result with
  | error e => rfl
  | ok seg =>
    cases seg with
    | none => rfl
    | some tcpSeg => exact absurd hr (h.result tcpSeg)

theorem one_peer_step {s : AdapterSession} (hs : s.OnePeer) (ipDgram : InternetDatagram) :
    (s.step ipDgram).OnePeer := by
  cases unwrap_cases s.adapter ipDgram with
  | inl h => rwa [step_passes h]
  | inr h =>
    obtain ⟨tcpSeg, h⟩ := h
    obtain ⟨a, taken⟩ := s
    cases taken with
    | nil =>
      obtain ⟨hsyn, hrst⟩ := h.opens hs
      simp only [OnePeer, step, h.result, List.nil_append]
      exact ⟨h.quiet, hsyn, hrst, h.ends, fun _ hl => by cases hl⟩
    | cons first rest =>
      obtain ⟨hquiet, hsyn, hrst, hends, hrest⟩ := hs
      have hsame := h.ends
      rw [h.keeps hquiet] at hsame
      simp only [OnePeer, step, h.result, List.cons_append, h.keeps hquiet]
      refine ⟨hquiet, hsyn, hrst, hends, fun later hl => ?_⟩
      cases List.mem_append.mp hl with
      | inl hl => exact hrest later hl
      | inr hl =>
        rw [List.mem_singleton.mp hl]
        exact hsame.trans hends.symm

/-- An adapter that listens is for the peer whose segment it returns first, and a datagram
that yields no segment, the ones the call throws on included, changes nothing. -/
theorem listener_locks_on {a : TCPOverIPv4Adapter} (ha : a.listening = true)
    (dgrams : List InternetDatagram) :
    Run.Along step (fun s ipDgram =>
      (∀ tcpSeg, (s.adapter.unwrapTcpInIp ipDgram).result ≠ .ok (some tcpSeg)) →
        (s.step ipDgram).adapter = s.adapter) { adapter := a } dgrams ∧
    ∀ first rest, (Run.final step { adapter := a } dgrams).taken = first :: rest →
      first.2.header.syn = true ∧ first.2.header.rst = false ∧
      ∀ later ∈ rest, ends later.1 later.2 = ends first.1 first.2 := by
  constructor
  · apply Run.along_of_forall
    intro s ipDgram hnone
    cases unwrap_cases s.adapter ipDgram with
    | inl h => rw [step_passes h]
    | inr h =>
      obtain ⟨tcpSeg, h⟩ := h
      exact absurd h.result (hnone tcpSeg)
  · intro first rest htaken
    have hpeer : (Run.final step { adapter := a } dgrams).OnePeer :=
      Run.invariant_of_mem ha (fun s ipDgram _ hs => one_peer_step hs ipDgram)
    rw [OnePeer, htaken] at hpeer
    obtain ⟨-, hsyn, hrst, -, hrest⟩ := hpeer
    exact ⟨hsyn, hrst, hrest⟩

/-- A SYN from host 2 is taken, one from host 3 is not, and host 2 is heard again. -/
theorem listener_locks_on_two_hosts :
    let a : TCPOverIPv4Adapter := { cfg := { source := ⟨⟨0⟩, 80⟩ }, listen := true }
    let syn : UInt32 → UInt8 → InternetDatagram := fun src cksum =>
      { header := { src, dst := 1, len := 40 }
        payload := ⟨[[0, 90, 0, 80, 0, 0, 0, 0, 0, 0, 0, 0, 0x50, 2, 0, 0, 0xaf, cksum, 0, 0]]⟩ }
    let last := Run.final step { adapter := a } [syn 2 0x36, syn 3 0x35, syn 2 0x36]
    last.taken.map (fun t => t.1.header.src) = [2, 2] ∧
    ∀ first rest, last.taken = first :: rest →
      first.2.header.syn = true ∧ first.2.header.rst = false ∧
      ∀ later ∈ rest, ends later.1 later.2 = ends first.1 first.2 :=
  ⟨by decide +kernel, (listener_locks_on rfl _).2⟩

end AdapterSession

end Sponge
