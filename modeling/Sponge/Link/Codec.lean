import Sponge.Link.Frame

namespace Sponge

open NetParser NetUnparser

namespace EthernetAddress

theorem write_eq (ret : Bytes) (address : EthernetAddress) :
    write ret address = ret ++ address.toList := by
  have hfold : ∀ (l : Bytes) (ret : Bytes), l.foldl NetUnparser.u8 ret = ret ++ l := by
    intro l
    induction l with
    | nil => simp
    | cons a l ih =>
      intro ret
      rw [List.foldl_cons, ih, u8_eq, List.append_assoc, List.singleton_append]
  exact hfold _ ret

/-- An address is six bytes. -/
theorem address_bytes (address : EthernetAddress) :
    ∃ a b c d e f, address = ⟨#[a, b, c, d, e, f], rfl⟩ := by
  obtain ⟨⟨l⟩, hl⟩ := address
  match l, hl with
  | [a, b, c, d, e, f], _ => exact ⟨a, b, c, d, e, f, rfl⟩

theorem address_at_bytes {b : Bytes} {k : Nat} (h : k + 6 ≤ b.length) :
    (addressAt b k).toList = (b.drop k).take 6 := by
  rw [take_byte (by omega), take_byte (by omega), take_byte (by omega), take_byte (by omega),
    take_byte (by omega), take_byte (by omega), List.take_zero]
  rfl

end EthernetAddress

namespace EthernetHeader

/-- The bytes of a header. -/
def written (h : EthernetHeader) : Bytes := h.dst.toList ++ h.src.toList ++ word h.type

theorem serialize_eq (h : EthernetHeader) : h.serialize = h.written := by
  simp only [serialize, written, EthernetAddress.write_eq, u16_eq, List.nil_append]

/-- The header that is read is the one that was written. -/
theorem fields_of_written (h : EthernetHeader) (rest : Bytes) :
    ({ dst := addressAt (h.written ++ rest) 0, src := addressAt (h.written ++ rest) 6,
       type := wordAt (h.written ++ rest) 12 } : EthernetHeader) = h := by
  obtain ⟨dst, src, type⟩ := h
  obtain ⟨a, b, c, d, e, f, rfl⟩ := dst.address_bytes
  obtain ⟨a', b', c', d', e', f', rfl⟩ := src.address_bytes
  simp only [written, addressAt, wordAt, word, Vector.toList, List.cons_append, List.nil_append,
    Nat.reduceAdd, byte_at_zero, byte_at_succ, word_join]

theorem length_written (h : EthernetHeader) : h.written.length = LENGTH := by
  simp [written, word, LENGTH]

/-- The header of a string is written as the bytes it was read from. -/
theorem written_fields {b : Bytes} (h : LENGTH ≤ b.length) :
    ({ dst := addressAt b 0, src := addressAt b 6, type := wordAt b 12 } : EthernetHeader).written =
      b.take LENGTH := by
  have h14 : 14 ≤ b.length := h
  simp only [written, LENGTH]
  rw [EthernetAddress.address_at_bytes (by omega), EthernetAddress.address_at_bytes (by omega),
    word_word_at (by omega), List.drop_zero, ← List.take_add, ← List.take_add]

end EthernetHeader

namespace EthernetFrame

theorem concatenate_serialize (f : EthernetFrame) :
    f.serialize.concatenate = f.header.written ++ f.payload.concatenate := by
  simp [serialize, BufferList.append, BufferList.concatenate, EthernetHeader.serialize_eq]

/-- A frame comes back as it was sent, with its payload in one piece. -/
theorem parse_serialize (f f' : EthernetFrame) :
    f'.parse f.serialize.concatenate =
      (.noError, { header := f.header, payload := ⟨[f.payload.concatenate]⟩ }) := by
  have hlen := f.header.length_written
  rw [concatenate_serialize, parse_frame (by rw [List.length_append, hlen]; omega),
    EthernetHeader.fields_of_written, ← hlen, List.drop_left]

/-- What parsing a string should do: take it if a header fits in, and then hold its bytes. -/
def ParsedRight (f : EthernetFrame) (b : Bytes) : Prop :=
  ((f.parse b).1 = .noError ↔ EthernetHeader.LENGTH ≤ b.length) ∧
    ((f.parse b).1 = .noError → (f.parse b).2.serialize.concatenate = b)

/-- A string is parsed rightly just when a header fits in: a shorter one is taken too. What
has been written comes back. -/
theorem frame_parsed_right_iff (f : EthernetFrame) :
    (∀ b, f.ParsedRight b ↔ EthernetHeader.LENGTH ≤ b.length) ∧
      ∀ g : EthernetFrame, (f.parse g.serialize.concatenate).1 = .noError ∧
        (f.parse g.serialize.concatenate).2.header = g.header ∧
          (f.parse g.serialize.concatenate).2.payload.concatenate = g.payload.concatenate := by
  refine ⟨fun b => ⟨fun h => ?_, fun h => ?_⟩, fun g => ?_⟩
  · exact h.1.mp (parse_no_error b)
  · rw [ParsedRight, parse_frame h]
    refine ⟨iff_of_true rfl h, fun _ => ?_⟩
    rw [concatenate_serialize, EthernetHeader.written_fields h, BufferList.concatenate,
      List.flatten_singleton, List.take_append_drop]
  · rw [parse_serialize]
    exact ⟨rfl, rfl, List.append_nil _⟩

/-- A frame of one byte is taken, with a header that is not in it. -/
theorem short_frame_taken :
    (({} : EthernetFrame).parse [0xff]).1 = .noError ∧
      (({} : EthernetFrame).parse [0xff]).2.serialize.concatenate ≠ [0xff] ∧
        ¬ ({} : EthernetFrame).ParsedRight [0xff] := by
  have hparse : ({} : EthernetFrame).parse [0xff] = (.noError, { payload := ⟨[[0xff]]⟩ }) := by
    decide +kernel
  refine ⟨by rw [hparse], by rw [hparse]; decide +kernel, fun h => ?_⟩
  exact absurd (h.1.mp (by rw [hparse])) (by decide)

end EthernetFrame

namespace ARPMessage

/-- The bytes of a message. -/
def written (m : ARPMessage) : Bytes :=
  word m.hardwareType ++ word m.protocolType ++ [m.hardwareAddressSize] ++
    [m.protocolAddressSize] ++ word m.opcode ++ m.senderEthernetAddress.toList ++
    long m.senderIpAddress ++ m.targetEthernetAddress.toList ++ long m.targetIpAddress

/-- The message at the start of a string. -/
def fieldsOf (b : Bytes) : ARPMessage where
  hardwareType := wordAt b 0
  protocolType := wordAt b 2
  hardwareAddressSize := byteAt b 4
  protocolAddressSize := byteAt b 5
  opcode := wordAt b 6
  senderEthernetAddress := addressAt b 8
  senderIpAddress := longAt b 14
  targetEthernetAddress := addressAt b 18
  targetIpAddress := longAt b 24

theorem serialize_eq {m : ARPMessage} (h : m.supported = true) : m.serialize = .ok m.written := by
  simp only [serialize, h, not_true_eq_false, ↓reduceIte, u8_eq, u16_eq, u32_eq,
    EthernetAddress.write_eq, List.nil_append]
  rfl

theorem fields_of_written (m : ARPMessage) (rest : Bytes) : fieldsOf (m.written ++ rest) = m := by
  obtain ⟨ht, pt, hs, ps, op, sender, sip, target, tip⟩ := m
  obtain ⟨a, b, c, d, e, f, rfl⟩ := sender.address_bytes
  obtain ⟨a', b', c', d', e', f', rfl⟩ := target.address_bytes
  simp only [fieldsOf, written, addressAt, wordAt, longAt, word, long, Vector.toList,
    List.cons_append, List.nil_append, Nat.reduceAdd, byte_at_zero, byte_at_succ, word_join,
    long_join]

theorem length_written (m : ARPMessage) : m.written.length = LENGTH := by
  simp [written, word, long, LENGTH]

/-- The message of a string is written as the bytes it was read from. -/
theorem written_fields {b : Bytes} (h : LENGTH ≤ b.length) :
    (fieldsOf b).written = b.take LENGTH := by
  have h28 : 28 ≤ b.length := h
  have hbyte : ∀ k, k + 1 ≤ b.length → [byteAt b k] = (b.drop k).take 1 := by
    intro k hk
    rw [take_byte (by omega), List.take_zero]
  simp only [written, fieldsOf, LENGTH]
  simp (disch := omega) only [word_word_at, long_long_at, EthernetAddress.address_at_bytes, hbyte]
  simp only [List.drop_zero, ← List.take_add]

/-- The bytes of a message up to its opcode. -/
def opening (m : ARPMessage) : Bytes :=
  word m.hardwareType ++ word m.protocolType ++ [m.hardwareAddressSize] ++
    [m.protocolAddressSize] ++ word m.opcode

theorem opening_fields {b : Bytes} (h : LENGTH ≤ b.length) : (fieldsOf b).opening = b.take 8 := by
  have htake : (fieldsOf b).opening = (fieldsOf b).written.take 8 := rfl
  rw [htake, written_fields h, List.take_take]
  rfl

theorem opening_inj {m m' : ARPMessage} (h : m.opening = m'.opening) :
    m.supported = m'.supported := by
  simp only [opening, word, List.cons_append, List.nil_append, List.cons.injEq, and_true] at h
  obtain ⟨ht1, ht0, pt1, pt0, hs, ps, op1, op0⟩ := h
  have hht : m.hardwareType = m'.hardwareType := by
    rw [← word_join m.hardwareType, ht1, ht0, word_join]
  have hpt : m.protocolType = m'.protocolType := by
    rw [← word_join m.protocolType, pt1, pt0, word_join]
  have hop : m.opcode = m'.opcode := by
    rw [← word_join m.opcode, op1, op0, word_join]
  rw [supported, supported, hht, hpt, hs, ps, hop]

/-- The opening says whether a message is one of those that are supported. -/
theorem supported_iff (m : ARPMessage) : m.supported = true ↔
    m.opening = [0, 1, 8, 0, 6, 4, 0, 1] ∨ m.opening = [0, 1, 8, 0, 6, 4, 0, 2] := by
  constructor
  · intro h
    simp only [supported, decide_eq_true_eq] at h
    obtain ⟨hht, hpt, hs, ps, hop⟩ := h
    rw [opening, hht, hpt, hs, ps]
    rcases hop with hop | hop
    · exact .inl (by rw [hop]; decide)
    · exact .inr (by rw [hop]; decide)
  · rintro (h | h)
    · have hrequest : m.opening = ({ opcode := OPCODE_REQUEST } : ARPMessage).opening :=
        h.trans (by decide)
      exact opening_inj hrequest
    · have hreply : m.opening = ({ opcode := OPCODE_REPLY } : ARPMessage).opening :=
        h.trans (by decide)
      exact opening_inj hreply

/-- A string that is long enough is read field by field, if the first ones are supported. -/
theorem parse_supported {b : Bytes} (hlen : LENGTH ≤ b.length)
    (h : (fieldsOf b).supported = true) (m : ARPMessage) : m.parse b = (.noError, fieldsOf b) := by
  have hb : (⟨b, .noError⟩ : NetParser) = ⟨b.drop 0, .noError⟩ := rfl
  have h28 : 28 ≤ b.length := hlen
  have hrun : m.read.run { buffer := b } =
      pure ((.noError, fieldsOf b), ⟨b.drop LENGTH, .noError⟩) := by
    simp only [read, StateT.run_bind, StateT.run_get, pure_bind, if_neg (Nat.not_lt.mpr hlen)]
    simp (disch := omega) only [hb, u16_at, u8_at, pure_bind]
    split
    · exact absurd h ‹_›
    · simp only [StateT.run_bind]
      simp (disch := omega) only [read_address_at, u32_at, pure_bind, StateT.run_get,
        StateT.run_pure]
      rfl
  rw [parse, hrun]
  rfl

/-- A message comes back as it was written. -/
theorem parse_written {m : ARPMessage} (h : m.supported = true) (rest : Bytes) (m' : ARPMessage) :
    m'.parse (m.written ++ rest) = (.noError, m) := by
  have hfields := m.fields_of_written rest
  rw [parse_supported (by rw [List.length_append, m.length_written]; omega) (hfields.symm ▸ h),
    hfields]

theorem parse_short {b : Bytes} (h : b.length < LENGTH) (m : ARPMessage) :
    (m.parse b).1 = .packetTooShort := by
  have hrun : m.read.run { buffer := b } = pure ((.packetTooShort, m), { buffer := b }) := by
    simp [read, h]
  rw [parse, hrun]
  rfl

theorem parse_unsupported {b : Bytes} (hlen : LENGTH ≤ b.length)
    (h : (fieldsOf b).supported = false) (m : ARPMessage) : (m.parse b).1 = .unsupported := by
  have hb : (⟨b, .noError⟩ : NetParser) = ⟨b.drop 0, .noError⟩ := rfl
  have h28 : 28 ≤ b.length := hlen
  have hrun : ((m.read.run { buffer := b }).run.1).1 = .unsupported := by
    simp only [read, StateT.run_bind, StateT.run_get, pure_bind, if_neg (Nat.not_lt.mpr hlen)]
    simp (disch := omega) only [hb, u16_at, u8_at, pure_bind]
    split
    · rfl
    · rename_i hsup
      have htrue : (fieldsOf b).supported = true := not_not.mp hsup
      rw [h] at htrue
      cases htrue
  exact hrun

theorem parse_no_error_iff (m : ARPMessage) (b : Bytes) :
    (m.parse b).1 = .noError ↔ LENGTH ≤ b.length ∧ (fieldsOf b).supported = true := by
  rcases Nat.lt_or_ge b.length LENGTH with hlt | hge
  · rw [parse_short hlt]
    exact iff_of_false nofun (fun h => absurd h.1 (Nat.not_le.mpr hlt))
  · cases hs : (fieldsOf b).supported with
    | false =>
      rw [parse_unsupported hge hs]
      exact iff_of_false nofun (fun h => Bool.false_ne_true h.2)
    | true =>
      rw [parse_supported hge hs]
      exact iff_of_true rfl ⟨hge, rfl⟩

/-- A string is taken just when a message of the one kind that is supported fits in; the
bytes of the message are then the first of the string, and what has been written comes back. -/
theorem arp_codec_exact (m : ARPMessage) :
    (∀ b, (m.parse b).1 = .noError ↔ LENGTH ≤ b.length ∧
        (b.take 8 = [0, 1, 8, 0, 6, 4, 0, 1] ∨ b.take 8 = [0, 1, 8, 0, 6, 4, 0, 2])) ∧
      (∀ b, (m.parse b).1 = .noError → (m.parse b).2.serialize = .ok (b.take LENGTH)) ∧
        ∀ m' out, m'.serialize = .ok out → m.parse out = (.noError, m') := by
  refine ⟨fun b => ?_, fun b h => ?_, fun m' out h => ?_⟩
  · rw [parse_no_error_iff]
    apply and_congr_right
    intro hlen
    rw [supported_iff, opening_fields hlen]
  · obtain ⟨hlen, hs⟩ := (m.parse_no_error_iff b).mp h
    rw [parse_supported hlen hs, serialize_eq hs, written_fields hlen]
  · have hs : m'.supported = true := by
      cases hs : m'.supported with
      | true => rfl
      | false => simp [serialize, hs] at h
    rw [serialize_eq hs, Except.ok.injEq] at h
    have hparse := parse_written hs [] m
    rwa [List.append_nil, h] at hparse

end ARPMessage

namespace EthernetFrame

/-- The address that a frame asks for, if it carries an ARP request. -/
def asksFor (frame : EthernetFrame) : Option UInt32 :=
  let parsed := ({} : ARPMessage).parse frame.payload.concatenate
  if frame.header.type = EthernetHeader.TYPE_ARP ∧ parsed.1 = .noError ∧
      parsed.2.opcode = ARPMessage.OPCODE_REQUEST then some parsed.2.targetIpAddress
  else none

theorem asks_for_other {frame : EthernetFrame} (h : frame.header.type ≠ EthernetHeader.TYPE_ARP) :
    frame.asksFor = none :=
  if_neg (fun hand => h hand.1)

theorem asks_for_message {m : ARPMessage} (h : m.supported = true) {header : EthernetHeader}
    (htype : header.type = EthernetHeader.TYPE_ARP) :
    ({ header, payload := ⟨[m.written]⟩ } : EthernetFrame).asksFor =
      if m.opcode = ARPMessage.OPCODE_REQUEST then some m.targetIpAddress else none := by
  have hparse : ({} : ARPMessage).parse (⟨[m.written]⟩ : BufferList).concatenate = (.noError, m) :=
    ARPMessage.parse_written h [] {}
  simp only [asksFor, hparse, htype, true_and]

end EthernetFrame

end Sponge
