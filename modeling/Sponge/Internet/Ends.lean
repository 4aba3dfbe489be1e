import Sponge.Internet.Transit

namespace Sponge

section Segments

/-- The datagram brings a segment from the first of two ends to the second, whatever has become
of its TTL, its checksum and the pieces of its payload. -/
structure IPv4Datagram.Brings (seg : TCPSegment) (ends : SocketAddress × SocketAddress)
    (d : IPv4Datagram) : Prop where
  regular : d.Regular
  proto : d.header.proto = IPv4Header.PROTO_TCP
  src : d.header.src = ends.1.ipv4Numeric
  dst : d.header.dst = ends.2.ipv4Numeric
  parsed : ∃ k, ∀ t : TCPSegment, t.parse d.payload.concatenate d.header.pseudoCksum = (.noError,
    { seg with header := { seg.header with sport := ends.1.port, dport := ends.2.port, cksum := k } })

variable {seg : TCPSegment} {ends : SocketAddress × SocketAddress} {d d' : IPv4Datagram}

theorem IPv4Datagram.Brings.copy (h : d.Brings seg ends) (hc : d'.CopyOf d) :
    d'.Brings seg ends := by
  obtain ⟨hheader, hpayload⟩ := hc
  have hsize : d'.payload.size = d.payload.size := by
    rw [← BufferList.length_concatenate, hpayload, BufferList.length_concatenate]
  obtain ⟨hver, hge, hle, hoffset, hlen⟩ := h.regular
  have hproto := h.proto
  have hsrc := h.src
  have hdst := h.dst
  obtain ⟨k, hparsed⟩ := h.parsed
  rw [← hheader] at hver hge hle hoffset hlen hproto hsrc hdst hparsed
  refine ⟨⟨hver, hge, hle, hoffset, ?_⟩, hproto, hsrc, hdst, k, ?_⟩
  · rw [hsize]
    exact hlen
  · rw [hpayload]
    exact hparsed

theorem IPv4Datagram.Brings.ttl (h : d.Brings seg ends) (ttl : UInt8) :
    { d with header := { d.header with ttl } }.Brings seg ends :=
  ⟨⟨h.regular.ver, h.regular.hlen_ge, h.regular.hlen_le, h.regular.offset, h.regular.len⟩, h.proto,
    h.src, h.dst, h.parsed⟩

end Segments

namespace TCPOverIPv4Adapter

/-- The two ends are not the same, and a listening adapter would not take its own SYN for one
from outside. -/
def Apart (a : TCPOverIPv4Adapter) : Prop :=
  a.cfg.source ≠ a.cfg.destination ∧
    (a.listening = true → a.cfg.destination.port ≠ a.cfg.source.port)

instance (a : TCPOverIPv4Adapter) : Decidable a.Apart := inferInstanceAs (Decidable (_ ∧ (_ → _)))

/-- The two ends of a datagram that the adapter has wrapped at some time. -/
structure Owns (a : TCPOverIPv4Adapter) (ends : SocketAddress × SocketAddress) : Prop where
  port : ends.1.port = a.cfg.source.port
  ne : ends.1 ≠ ends.2
  other : ends.2.port ≠ ends.1.port ∨
    a.listening = false ∧ ends = (a.cfg.source, a.cfg.destination)

section Ends

variable {a : TCPOverIPv4Adapter} {seg : TCPSegment} {ends : SocketAddress × SocketAddress}
  {d : InternetDatagram}

theorem Apart.owns (h : a.Apart) : a.Owns (a.cfg.source, a.cfg.destination) where
  port := rfl
  ne := h.1
  other := by
    cases hl : a.listening with
    | true => exact .inl (h.2 hl)
    | false => exact .inr ⟨rfl, rfl⟩

/-- A segment without options that is not too long is wrapped. -/
theorem wrap_brings (h5 : seg.header.doff = 5) (hlen : seg.payload.length ≤ 65495) :
    ∃ dgram, (a.wrapTcpInIp seg).result = .ok dgram ∧
      dgram.Brings seg (a.cfg.source, a.cfg.destination) := by
  obtain ⟨k, dgram, hwrap, hregular, hheader, hparsed⟩ := wrapped (a := a) h5 hlen
  refine ⟨dgram, hwrap, hregular, ?_, ?_, ?_, k, hparsed⟩
  · rw [hheader]
    rfl
  · rw [hheader]
    rfl
  · rw [hheader]
    rfl

/-- A segment is taken or not, and the own port stays. -/
theorem accept_result (a : TCPOverIPv4Adapter) (d : InternetDatagram) (seg : TCPSegment) :
    ((a.accept d seg).result = .ok none ∨ (a.accept d seg).result = .ok (some seg)) ∧
      (a.accept d seg).state.cfg.source.port = a.cfg.source.port := by
  have hport : (if a.listening = true then a.lockOn d seg else a).cfg.source.port =
      a.cfg.source.port := by
    split <;> rfl
  unfold accept
  split
  · exact ⟨.inl rfl, rfl⟩
  split
  · exact ⟨.inl rfl, rfl⟩
  dsimp only
  generalize (if a.listening = true then a.lockOn d seg else a) = b at hport
  split
  · exact ⟨.inl rfl, hport⟩
  · exact ⟨.inr rfl, hport⟩

/-- With the payload in one piece nothing is thrown, and a segment that is taken is the one in
the payload. -/
theorem unwrap_result (a : TCPOverIPv4Adapter) {buffer : Bytes} (h : d.payload = ⟨[buffer]⟩) :
    ((a.unwrapTcpInIp d).result = .ok none ∨ (a.unwrapTcpInIp d).result =
        .ok (some (({} : TCPSegment).parse buffer d.header.pseudoCksum).2)) ∧
      (a.unwrapTcpInIp d).state.cfg.source.port = a.cfg.source.port := by
  have hone : d.payload.toBuffer = .ok buffer := by rw [h]; rfl
  unfold unwrapTcpInIp
  split
  · exact ⟨.inl rfl, rfl⟩
  split
  · exact ⟨.inl rfl, rfl⟩
  split
  · exact ⟨.inl rfl, rfl⟩
  rw [hone]
  dsimp only
  split
  · exact ⟨.inl rfl, rfl⟩
  · exact accept_result a d _

/-- What an adapter does with a datagram that brings a segment: it passes over it, or it takes
the segment, and is for the two ends of it then. -/
theorem unwrap_brings (h : d.Brings seg ends) (a : TCPOverIPv4Adapter)
    (hone : d.payload = ⟨[d.payload.concatenate]⟩) :
    a.unwrapTcpInIp d = .done a none ∨
      ∃ a' k, a.unwrapTcpInIp d = .done a' (some { seg with header := { seg.header with
          sport := ends.1.port, dport := ends.2.port, cksum := k } }) ∧
        a'.listening = false ∧ ends = (a'.cfg.destination, a'.cfg.source) ∧
        a'.cfg.source.port = a.cfg.source.port ∧ (a.listening = false → a' = a) := by
  obtain ⟨hresult, hport⟩ := unwrap_result a hone
  obtain ⟨k, hparsed⟩ := h.parsed
  rw [hparsed] at hresult
  have hwhole : ∀ res, (a.unwrapTcpInIp d).result = .ok res →
      a.unwrapTcpInIp d = .done (a.unwrapTcpInIp d).state res := by
    intro res hres
    rw [Outcome.done, ← hres]
  rcases unwrap_cases a d with hpasses | ⟨tcpSeg, htakes⟩
  · cases hresult with
    | inl hnone =>
      have hdone := hwhole none hnone
      rw [hpasses.keeps] at hdone
      exact .inl hdone
    | inr hsome => exact absurd hsome (hpasses.result _)
  · cases hresult with
    | inl hnone =>
      have hres := htakes.result
      rw [hnone] at hres
      cases hres
    | inr hsome =>
      have hends := htakes.ends
      have hseg := htakes.result
      rw [hsome] at hseg
      cases hseg
      have hsame : TCPOverIPv4Adapter.ends d { seg with header := { seg.header with
          sport := ends.1.port, dport := ends.2.port, cksum := k } } = ends := by
        unfold TCPOverIPv4Adapter.ends
        rw [h.src, h.dst]
      rw [hsame] at hends
      exact .inr ⟨_, k, hwhole _ hsome, htakes.quiet, hends, hport, htakes.keeps⟩

/-- An adapter does not take back what it has sent. -/
theorem Owns.not_taken {a' : TCPOverIPv4Adapter} (h : a.Owns ends)
    (hends : ends = (a'.cfg.destination, a'.cfg.source))
    (hport : a'.cfg.source.port = a.cfg.source.port) (hkeep : a.listening = false → a' = a) :
    False := by
  cases h.other with
  | inl hne =>
    have htwo : ends.2.port = a.cfg.source.port := by rw [hends, hport]
    exact hne (htwo.trans h.port.symm)
  | inr hquiet =>
    obtain ⟨hl, hown⟩ := hquiet
    rw [hkeep hl] at hends
    have hsame : ends.1 = ends.2 := by
      have hfirst : ends.1 = a.cfg.source := by rw [hown]
      have hsecond : ends.2 = a.cfg.source := by rw [hends]
      rw [hfirst, hsecond]
    exact h.ne hsame

/-- What the adapter owns it goes on to own when it has locked on to a peer. -/
theorem Owns.taken {a' : TCPOverIPv4Adapter} (h : a.Owns ends)
    (hport : a'.cfg.source.port = a.cfg.source.port) (hkeep : a.listening = false → a' = a) :
    a'.Owns ends := by
  refine ⟨h.port.trans hport.symm, h.ne, h.other.imp_right fun hquiet => ?_⟩
  rw [hkeep hquiet.1]
  exact hquiet

end Ends

end TCPOverIPv4Adapter

end Sponge
