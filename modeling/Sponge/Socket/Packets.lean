import Sponge.Socket.Adapter

namespace Sponge

/-- `g` is the segment with the ports and the checksum that it has on its way. -/
def TCPSegment.OnWire (seg g : TCPSegment) : Prop :=
  ∃ sport dport cksum, g = { seg with header := { seg.header with sport, dport, cksum } }

/-- The segment that a string on the wire stands for, if any. -/
abbrev Format := Bytes → Option TCPSegment

/-- Segments in IPv4 datagrams, as a TUN device has them. -/
def ipFormat : Format := fun bytes =>
  let ipDgram := ({} : InternetDatagram).parse bytes
  if ipDgram.1 ≠ .noError then none
  else
    match ipDgram.2.payload.toBuffer with
    | .error _ => none
    | .ok buffer =>
      let seg := ({} : TCPSegment).parse buffer ipDgram.2.header.pseudoCksum
      if seg.1 ≠ .noError then none else some seg.2

/-- Segments as the payloads of UDP datagrams. -/
def udpFormat : Format := fun bytes =>
  let seg := ({} : TCPSegment).parse bytes 0
  if seg.1 ≠ .noError then none else some seg.2

/-- An adapter that writes segments to a wire and reads them from it: the strings that it has
got from there and put there. A segment that it returns comes from a string that it has just got;
and what it puts on the wire for a segment stands for this segment, unless the kernel has cut it
to pieces that stand for none. -/
class Packets (α : Type) [FdAdapter α] (decode : outParam Format) where
  received : α → List Bytes
  sent : α → List Bytes
  fresh : ∀ a cfg, sent (FdAdapter.setConfig a cfg) = sent a ∧
    sent (FdAdapter.setListening a true) = sent a
  read : ∀ a, (FdAdapter.read a).Leaves
    (fun seg a' => sent a' = sent a ∧ ∃ new, received a' = received a ++ new ∧
      ∀ g, seg = some g → ∃ str ∈ new, decode str = some g)
    (fun _ a' => sent a' = sent a ∧ ∃ new, received a' = received a ++ new)
  write : ∀ a seg, let a' := (FdAdapter.write a seg).state
    received a' = received a ∧ ∃ new, sent a' = sent a ++ new ∧
      (seg.header.doff = 5 → seg.payload.length ≤ 65495 → (∀ str ∈ new, (decode str).isSome) →
        ∀ str ∈ new, ∃ g, decode str = some g ∧ seg.OnWire g)
  tick : ∀ a ms, let a' := (FdAdapter.tick a ms).state
    received a' = received a ∧ sent a' = sent a

section Cut

open IPv4Datagram

theorem byte_at_prefix {c b : Bytes} (h : c <+: b) {k : Nat} (hk : k < c.length) :
    NetParser.byteAt c k = NetParser.byteAt b k := by
  obtain ⟨rest, rfl⟩ := h
  rw [NetParser.byteAt, NetParser.byteAt, List.getD_append _ _ _ _ hk]

/-- A datagram without options that was cut short is refused. -/
theorem whole_of_taken {b c : Bytes} (hb : Formed b) (h5 : headerLength b = 5) (hc : c <+: b)
    (htaken : (({} : IPv4Datagram).parse c).1 = .noError) : c = b := by
  have hlong : IPv4Header.LENGTH ≤ c.length := by
    by_contra hshort
    rw [parse_fresh_short (Nat.not_le.mp hshort)] at htaken
    cases htaken
  have h20 : 20 ≤ c.length := hlong
  have hbyte : ∀ k < 20, NetParser.byteAt c k = NetParser.byteAt b k := fun k hk =>
    byte_at_prefix hc (by omega)
  have hsame : headerLength c = 5 ∧ totalLength c = b.length := by
    rw [headerLength, totalLength, hbyte 0 (by decide), hbyte 2 (by decide), hbyte 3 (by decide)]
    exact ⟨h5, hb.2.2.2⟩
  have hle := hc.length_le
  refine hc.eq_of_length_le ?_
  by_cases hf : Formed c
  · exact Nat.le_of_eq (hsame.2.symm.trans hf.2.2.2)
  · rw [parse_unformed {} hlong hf] at htaken
    have hm : Measured c := by
      by_contra hno
      rw [if_neg hno] at htaken
      cases htaken
    have hmax := (IPv4Header.fieldsOf b).len.toNat_lt
    rw [len_fields_of, hb.2.2.2] at hmax
    rw [Measured, hsame.1, hsame.2, IPv4Header.LENGTH] at hm
    omega

/-- What the kernel has made of a datagram that it was given: all in one piece, or something that
is refused. -/
theorem pieces_whole {b : Bytes} {chunks : List Bytes} (hb : Formed b) (h5 : headerLength b = 5)
    (hin : chunks.flatten <+: b) (htaken : ∀ c ∈ chunks, (ipFormat c).isSome) :
    ∀ c ∈ chunks, c = b := by
  have hparsed : ∀ c, (ipFormat c).isSome → (({} : IPv4Datagram).parse c).1 = .noError := by
    intro c hc
    by_contra hno
    rw [ipFormat] at hc
    simp [hno] at hc
  cases chunks with
  | nil => simp
  | cons c rest =>
    obtain ⟨hfirst, hrest⟩ := List.forall_mem_cons.mp htaken
    have hprefix : c <+: b := (List.prefix_append c rest.flatten).trans hin
    obtain rfl := whole_of_taken hb h5 hprefix (hparsed c hfirst)
    have hnone : rest.flatten = [] := by
      have hlen := hin.length_le
      rw [List.flatten_cons, List.length_append] at hlen
      exact List.length_eq_zero_iff.mp (by omega)
    intro d hd
    rcases List.mem_cons.mp hd with rfl | hd
    · rfl
    · have hempty : d = [] := List.flatten_eq_nil_iff.mp hnone d hd
      have hno := hparsed d (hrest d hd)
      rw [hempty, parse_fresh_short (by decide)] at hno
      cases hno

end Cut

section Tun

open IPv4Datagram

variable {seg : TCPSegment}

theorem ip_format_of {bytes buffer : Bytes} {header : IPv4Header} {g : TCPSegment}
    (hparse : ({} : IPv4Datagram).parse bytes = (.noError, { header, payload := ⟨[buffer]⟩ }))
    (hseg : ({} : TCPSegment).parse buffer header.pseudoCksum = (.noError, g)) :
    ipFormat bytes = some g := by
  have hone : (⟨[buffer]⟩ : BufferList).toBuffer = .ok buffer := rfl
  simp [ipFormat, hparse, hone, hseg]

/-- What is written to the device for a segment. -/
theorem TCPOverIPv4Adapter.wrap_on_wire (a : TCPOverIPv4Adapter) (h5 : seg.header.doff = 5)
    (hlen : seg.payload.length ≤ 65495) :
    ∃ out g, (a.wrapTcpInIp seg).result.bind IPv4Datagram.serialize = .ok out ∧
      Formed out.concatenate ∧ headerLength out.concatenate = 5 ∧
      ipFormat out.concatenate = some g ∧ seg.OnWire g := by
  obtain ⟨k, dgram, hwrap, hregular, hheader, hparsed⟩ := wrapped (a := a) h5 hlen
  obtain ⟨cksum, hout, hformed, -⟩ := hregular.written
  generalize hh : { dgram.header with cksum } = header at hout hformed
  obtain ⟨hver, hge, hle, hoffset, -⟩ := hregular
  have hfields : header.ver = 4 ∧ 5 ≤ header.hlen.toNat ∧ header.hlen.toNat ≤ 15 ∧
      header.offset.toNat < 2 ^ 13 ∧ header.hlen = 5 := by
    rw [← hh]
    exact ⟨hver, hge, hle, hoffset, by rw [hheader]; rfl⟩
  obtain ⟨hver, hge, hle, hoffset, hfive⟩ := hfields
  have hcat : (⟨header.padded :: dgram.payload.buffers⟩ : BufferList).concatenate =
      header.padded ++ dgram.payload.concatenate := rfl
  have hpseudo : header.pseudoCksum = dgram.header.pseudoCksum := by
    rw [← hh]
    rfl
  have hdecode := ip_format_of (parse_padded hver hge hle hoffset hformed {})
    (by rw [hpseudo]; exact hparsed {})
  refine ⟨⟨header.padded :: dgram.payload.buffers⟩, _, by rw [hwrap]; exact hout, ?_, ?_, ?_,
    a.cfg.source.port, a.cfg.destination.port, k, rfl⟩
  · rw [hcat]
    exact hformed
  · rw [hcat, ← hlen_fields_of, IPv4Header.fields_of_padded hver hle hoffset, hfive]
    rfl
  · rw [hcat]
    exact hdecode

/-- A segment that is taken out of a datagram is the one in it. -/
theorem TCPOverIPv4Adapter.unwrap_on_wire (a : TCPOverIPv4Adapter) {bytes : Bytes}
    (hparse : (({} : InternetDatagram).parse bytes).1 = .noError) {g : TCPSegment}
    (hg : (a.unwrapTcpInIp (({} : InternetDatagram).parse bytes).2).result = .ok (some g)) :
    ipFormat bytes = some g := by
  rw [ipFormat]
  generalize ({} : InternetDatagram).parse bytes = parsed at hparse hg
  simp only [hparse, ne_eq, not_true_eq_false, ↓reduceIte]
  unfold unwrapTcpInIp at hg
  split at hg
  · cases hg
  split at hg
  · cases hg
  split at hg
  · cases hg
  cases hone : parsed.2.payload.toBuffer with
  | error e =>
    rw [hone] at hg
    cases hg
  | ok buffer =>
    simp only [hone] at hg ⊢
    split at hg
    · cases hg
    · rename_i hok
      rw [if_neg hok]
      rcases (accept_result a parsed.2 _).1 with hnone | hsome
      · rw [hnone] at hg
        cases hg
      · rw [hsome] at hg
        cases hg
        rfl

/-- All that a read of the device comes to: one string more, and the segment in it. -/
theorem TCPOverIPv4OverTunFdAdapter.read_packets (a : TCPOverIPv4OverTunFdAdapter) :
    a.read.Leaves
      (fun seg a' => a'.tun.put = a.tun.put ∧ ∃ new, a'.tun.got = a.tun.got ++ new ∧
        ∀ g, seg = some g → ∃ str ∈ new, ipFormat str = some g)
      (fun _ a' => a'.tun.put = a.tun.put ∧ ∃ new, a'.tun.got = a.tun.got ++ new) := by
  unfold read
  rcases a.tun.read_cases FileDescriptor.noLimit with
    ⟨f', e, hrun, -, honly, hnew⟩ | ⟨f', str, hrun, honly, -, hgot, -⟩
  · rw [hrun, Outcome.into_and_then_error rfl]
    exact Outcome.leaves_fail ⟨honly.put_eq, hnew⟩
  · rw [hrun, Outcome.into_and_then_ok rfl]
    dsimp only [Outcome.state_done]
    split
    · exact Outcome.leaves_done ⟨honly.put_eq, [str], hgot, by simp⟩
    · rename_i hparse
      have hok : (({} : InternetDatagram).parse str).1 = .noError := not_not.mp hparse
      refine Outcome.Leaves.map_fault (Outcome.Leaves.into ?_)
      cases hr : (a.toTCPOverIPv4Adapter.unwrapTcpInIp (({} : InternetDatagram).parse str).2).result with
      | error e =>
        rw [Outcome.Leaves, hr]
        exact ⟨honly.put_eq, [str], hgot⟩
      | ok seg =>
        rw [Outcome.Leaves, hr]
        refine ⟨honly.put_eq, [str], hgot, ?_⟩
        rintro g rfl
        exact ⟨str, List.mem_singleton_self _, a.unwrap_on_wire hok hr⟩

theorem TCPOverIPv4OverTunFdAdapter.write_packets (a : TCPOverIPv4OverTunFdAdapter)
    (seg : TCPSegment) :
    let a' := (a.write seg).state
    a'.tun.got = a.tun.got ∧ ∃ new, a'.tun.put = a.tun.put ++ new ∧
      (seg.header.doff = 5 → seg.payload.length ≤ 65495 → (∀ str ∈ new, (ipFormat str).isSome) →
        ∀ str ∈ new, ∃ g, ipFormat str = some g ∧ seg.OnWire g) := by
  unfold write
  cases hout : (a.wrapTcpInIp seg).result.bind IPv4Datagram.serialize with
  | error e => exact ⟨rfl, [], (List.append_nil _).symm, by simp⟩
  | ok out =>
    obtain ⟨chunks, hw⟩ := a.tun.write_list_written out true
    dsimp only
    rw [Outcome.state_and_then_same _ fun _ _ => rfl]
    refine ⟨hw.others.got_eq, chunks, hw.put, fun h5 hlen htaken str hstr => ?_⟩
    obtain ⟨out', g, hout', hformed, hfive, hdecode, hwire⟩ := a.wrap_on_wire h5 hlen
    obtain rfl : out = out' := Except.ok.inj (hout.symm.trans hout')
    rw [pieces_whole hformed hfive hw.inOrder htaken str hstr]
    exact ⟨g, hdecode, hwire⟩

instance : Packets TCPOverIPv4OverTunFdAdapter ipFormat where
  received := (·.tun.got)
  sent := (·.tun.put)
  fresh := fun _ _ => ⟨rfl, rfl⟩
  read := (·.read_packets)
  write := (·.write_packets)
  tick := fun _ _ => ⟨rfl, rfl⟩

end Tun

section Udp

theorem TCPOverUDPSocketAdapter.read_packets (a : TCPOverUDPSocketAdapter) :
    a.read.Leaves
      (fun seg a' => a'.sock.sentTo = a.sock.sentTo ∧ ∃ new, a'.sock.gotFrom = a.sock.gotFrom ++ new ∧
        ∀ g, seg = some g → ∃ d ∈ new, udpFormat d.payload = some g)
      (fun _ a' => a'.sock.sentTo = a.sock.sentTo ∧
        ∃ new, a'.sock.gotFrom = a.sock.gotFrom ++ new) := by
  unfold read UDPSocket.recv
  cases a.sock.recvAnswers.head with
  | error e => exact Outcome.leaves_fail ⟨rfl, [], (List.append_nil _).symm⟩
  | ok answer =>
    obtain ⟨datagram, -⟩ := answer
    dsimp only
    split
    · exact Outcome.leaves_fail ⟨rfl, [datagram], rfl⟩
    rw [Outcome.into_and_then_ok rfl]
    dsimp only [Outcome.state_done]
    split
    · exact Outcome.leaves_done ⟨rfl, [datagram], rfl, by simp⟩
    split
    · exact Outcome.leaves_done ⟨rfl, [datagram], rfl, by simp⟩
    · rename_i hparse
      have hdecode : udpFormat datagram.payload =
          some (({} : TCPSegment).parse datagram.payload 0).2 := by
        rw [udpFormat]
        exact if_neg hparse
      have htaken : ∀ g, some (({} : TCPSegment).parse datagram.payload 0).2 = some g →
          ∃ d ∈ [datagram], udpFormat d.payload = some g := by
        rintro g ⟨⟩
        exact ⟨datagram, List.mem_singleton_self _, hdecode⟩
      split
      · split
        · exact Outcome.leaves_done ⟨rfl, [datagram], rfl, htaken⟩
        · exact Outcome.leaves_done ⟨rfl, [datagram], rfl, by simp⟩
      · exact Outcome.leaves_done ⟨rfl, [datagram], rfl, htaken⟩

/-- What a segment is written as. -/
theorem TCPSegment.serialize_on_wire (seg : TCPSegment) (h5 : seg.header.doff = 5)
    (hlen : seg.payload.length ≤ 65495) :
    ∃ out g, seg.serialize 0 = .ok out ∧ udpFormat out.concatenate = some g ∧ seg.OnWire g := by
  have hfive : seg.header.doff.toNat = 5 := congrArg UInt8.toNat h5
  have hge : 5 ≤ seg.header.doff := UInt8.le_of_eq h5.symm
  have hstart : Start 0 := .inl rfl
  obtain ⟨k, hout, hmax, hvalid⟩ := serialize_valid hge (by omega) (by omega) hstart
  have hparse := parse_padded (h := { seg.header with cksum := k }) hge (by rw [hfive]; decide) hmax
    hstart hvalid {}
  refine ⟨_, { header := { seg.header with cksum := k }, payload := seg.payload }, hout, ?_,
    seg.header.sport, seg.header.dport, k, rfl⟩
  simp [udpFormat, BufferList.concatenate, hparse]

theorem TCPOverUDPSocketAdapter.write_packets (a : TCPOverUDPSocketAdapter) (seg : TCPSegment) :
    let a' := (a.write seg).state
    a'.sock.gotFrom = a.sock.gotFrom ∧ ∃ new, a'.sock.sentTo = a.sock.sentTo ++ new ∧
      (seg.header.doff = 5 → seg.payload.length ≤ 65495 →
        ∀ d ∈ new, ∃ g, udpFormat d.2 = some g ∧ seg.OnWire g) := by
  unfold write
  dsimp only
  cases hout : ({ seg with header := { seg.header with
      sport := a.cfg.source.port, dport := a.cfg.destination.port } } : TCPSegment).serialize 0 with
  | error e => exact ⟨rfl, [], (List.append_nil _).symm, by simp⟩
  | ok out =>
    have hnew : seg.header.doff = 5 → seg.payload.length ≤ 65495 →
        ∀ d ∈ [(a.cfg.destination, out.concatenate)],
          ∃ g, udpFormat d.2 = some g ∧ seg.OnWire g := by
      intro h5 hlen d hd
      obtain ⟨out', g, hout', hdecode, sport, dport, cksum, hg⟩ :=
        TCPSegment.serialize_on_wire { seg with header := { seg.header with
          sport := a.cfg.source.port, dport := a.cfg.destination.port } } h5 hlen
      obtain rfl : out = out' := Except.ok.inj (hout.symm.trans hout')
      rw [List.mem_singleton.mp hd]
      exact ⟨g, hdecode, sport, dport, cksum, hg⟩
    unfold UDPSocket.sendto
    cases a.sock.sendAnswers.head with
    | error e => exact ⟨rfl, [], (List.append_nil _).symm, by simp⟩
    | ok bytesSent =>
      dsimp only
      split
      · exact ⟨rfl, _, rfl, hnew⟩
      · exact ⟨rfl, _, rfl, hnew⟩

instance : Packets TCPOverUDPSocketAdapter udpFormat where
  received a := a.sock.gotFrom.map ReceivedDatagram.payload
  sent a := a.sock.sentTo.map Prod.snd
  fresh := fun _ _ => ⟨rfl, rfl⟩
  read := by
    intro a
    refine a.read_packets.mono ?_ ?_
    · rintro seg a' ⟨hsent, new, hnew, htaken⟩
      refine ⟨by rw [hsent], new.map ReceivedDatagram.payload, by rw [hnew, List.map_append], ?_⟩
      intro g hg
      obtain ⟨d, hd, hdecode⟩ := htaken g hg
      exact ⟨d.payload, List.mem_map_of_mem hd, hdecode⟩
    · rintro e a' ⟨hsent, new, hnew⟩
      exact ⟨by rw [hsent], new.map ReceivedDatagram.payload, by rw [hnew, List.map_append]⟩
  write := by
    intro a seg
    obtain ⟨hgot, new, hnew, hwire⟩ := a.write_packets seg
    refine ⟨congrArg _ hgot, new.map Prod.snd, ?_, fun h5 hlen _ => ?_⟩
    · exact (congrArg _ hnew).trans List.map_append
    · exact List.forall_mem_map.mpr (hwire h5 hlen)
  tick := fun _ _ => ⟨rfl, rfl⟩

end Udp

section Lossy

variable {α : Type} [FdAdapter α] {decode : Format} [Packets α decode]

open Packets (received sent)

/-- What is dropped has been read from the wire. -/
theorem LossyFdAdapter.read_packets (a : LossyFdAdapter α) :
    a.read.Leaves
      (fun seg a' => sent a'.adapter = sent a.adapter ∧
        ∃ new, received a'.adapter = received a.adapter ++ new ∧
          ∀ g, seg = some g → ∃ str ∈ new, decode str = some g)
      (fun _ a' => sent a'.adapter = sent a.adapter ∧
        ∃ new, received a'.adapter = received a.adapter ++ new) := by
  have hread : ((FdAdapter.read a.adapter).into fun adapter => { a with adapter }).Leaves
      (fun seg a' => sent a'.adapter = sent a.adapter ∧
        ∃ new, received a'.adapter = received a.adapter ++ new ∧
          ∀ g, seg = some g → ∃ str ∈ new, decode str = some g)
      (fun _ a' => sent a'.adapter = sent a.adapter ∧
        ∃ new, received a'.adapter = received a.adapter ++ new) :=
    Outcome.Leaves.into (Packets.read a.adapter)
  refine hread.and_then fun ret b hb => Outcome.leaves_done ?_
  obtain ⟨hsent, new, hnew, htaken⟩ := hb
  rw [should_drop_adapter]
  refine ⟨hsent, new, hnew, fun g hg => htaken g ?_⟩
  split at hg
  · cases hg
  · exact hg

theorem LossyFdAdapter.write_packets (a : LossyFdAdapter α) (seg : TCPSegment) :
    let a' := (a.write seg).state
    received a'.adapter = received a.adapter ∧
      ∃ new, sent a'.adapter = sent a.adapter ++ new ∧
        (seg.header.doff = 5 → seg.payload.length ≤ 65495 → (∀ str ∈ new, (decode str).isSome) →
          ∀ str ∈ new, ∃ g, decode str = some g ∧ seg.OnWire g) := by
  have hkeep := a.should_drop_adapter true
  unfold write
  dsimp only
  split
  · rw [Outcome.state_done, hkeep]
    exact ⟨rfl, [], (List.append_nil _).symm, by simp⟩
  · have hwrite := Packets.write (a.shouldDrop true).2.adapter seg
    rw [hkeep] at hwrite ⊢
    exact hwrite

instance : Packets (LossyFdAdapter α) decode where
  received a := received a.adapter
  sent a := sent a.adapter
  fresh := fun a cfg => Packets.fresh a.adapter cfg
  read := (·.read_packets)
  write := (·.write_packets)
  tick := fun a ms => Packets.tick a.adapter ms

end Lossy

end Sponge
