import Sponge.Wire.Acceptance
import Sponge.Wire.Segment

namespace Sponge

open NetParser NetUnparser OnesComplement

theorem resize_longer {s : Bytes} {n : Nat} (h : s.length ≤ n) :
    IPv4Header.resize s n = s ++ List.replicate (n - s.length) 0 := by
  rw [IPv4Header.resize, List.take_of_length_le h]

/-- What a number in place of a zero adds to the sum. -/
theorem word_sum_word {front : Bytes} (k : Nat) (h : front.length = 2 * k) (val : UInt16)
    (rest : Bytes) :
    wordSum (front ++ word val ++ rest) = wordSum (front ++ word 0 ++ rest) + val.toNat := by
  have hword : ∀ v, wordSum (word v ++ rest) = v.toNat + wordSum rest := by
    intro v
    rw [word_sum_append rest 1 rfl, word, wordSum, wordSum, Nat.add_zero, word_to_nat]
  rw [List.append_assoc, List.append_assoc, word_sum_append _ k h, word_sum_append _ k h, hword,
    hword, UInt16.toNat_zero]
  omega

/-- The checksum of a string with a zero in it makes the string right in place of the
zero. -/
theorem value_sealed {sum : UInt32} {val : UInt16} (front rest : Bytes) (k : Nat)
    (h : front.length = 2 * k) (hlt : ∀ v, sum.toNat + wordSum (front ++ word v ++ rest) < 2 ^ 32)
    (hval : ((⟨sum, false⟩ : InternetChecksum).add (front ++ word 0 ++ rest)).value = val) :
    ((⟨sum, false⟩ : InternetChecksum).add (front ++ word val ++ rest)).value = 0 := by
  have hzero := InternetChecksum.value_add (hlt 0)
  rw [hval] at hzero
  rw [← UInt16.toNat_inj, InternetChecksum.value_add (hlt val), word_sum_word k h, hzero,
    ← Nat.add_assoc]
  exact checksum_add_checksum _

namespace TCPHeader

/-- The bytes of a header before the checksum, and behind it with the zeros that stand for
the options. -/
def front (h : TCPHeader) : Bytes :=
  word h.sport ++ word h.dport ++ long h.seqno.rawValue ++ long h.ackno.rawValue ++
    [h.doff <<< 4] ++ [h.flagByte] ++ word h.win

def back (h : TCPHeader) : Bytes :=
  word h.uptr ++ List.replicate (4 * h.doff.toNat - LENGTH) 0

def padded (h : TCPHeader) : Bytes := h.front ++ word h.cksum ++ h.back

theorem serialize_eq {h : TCPHeader} (h5 : 5 ≤ h.doff) : h.serialize = .ok h.padded := by
  have h5' : 5 ≤ h.doff.toNat := h5
  have hlen : (h.front ++ word h.cksum ++ word h.uptr).length = LENGTH := rfl
  rw [serialize, if_neg (UInt8.not_lt.mpr h5)]
  simp only [u8_eq, u16_eq, u32_eq, List.nil_append]
  change Except.ok (IPv4Header.resize (h.front ++ word h.cksum ++ word h.uptr) _) = _
  rw [resize_longer (by rw [hlen]; unfold LENGTH; omega), hlen, padded, back, List.append_assoc]

theorem length_padded {h : TCPHeader} (h5 : 5 ≤ h.doff) : h.padded.length = 4 * h.doff.toNat := by
  have h5' : 5 ≤ h.doff.toNat := h5
  have hlen : (h.front ++ word h.cksum ++ word h.uptr).length = LENGTH := rfl
  rw [padded, back, ← List.append_assoc, List.length_append, List.length_replicate, hlen]
  unfold LENGTH
  omega

theorem flags_of_flag_byte (h : TCPHeader) :
    (h.flagByte &&& 0b100000 != 0) = h.urg ∧ (h.flagByte &&& 0b010000 != 0) = h.ack ∧
      (h.flagByte &&& 0b001000 != 0) = h.psh ∧ (h.flagByte &&& 0b000100 != 0) = h.rst ∧
      (h.flagByte &&& 0b000010 != 0) = h.syn ∧ (h.flagByte &&& 0b000001 != 0) = h.fin := by
  unfold flagByte
  cases h.urg <;> cases h.ack <;> cases h.psh <;> cases h.rst <;> cases h.syn <;> cases h.fin <;>
    decide

theorem offset_nibble {doff : UInt8} (h : doff.toNat ≤ 15) : (doff <<< 4) >>> 4 = doff := by
  rw [← UInt8.toNat_inj]
  simp only [UInt8.toNat_shiftRight, UInt8.toNat_shiftLeft, UInt8.reduceToNat, Nat.reduceMod,
    Nat.shiftRight_eq_div_pow, Nat.shiftLeft_eq]
  omega

/-- The header that is read is the one that was written. -/
theorem fields_of_padded {h : TCPHeader} (h15 : h.doff.toNat ≤ 15) (rest : Bytes) :
    fieldsOf (h.padded ++ rest) = h := by
  obtain ⟨hurg, hack, hpsh, hrst, hsyn, hfin⟩ := h.flags_of_flag_byte
  simp only [fieldsOf, wordAt, longAt, padded, front, back, word, long, List.cons_append,
    List.nil_append, Nat.reduceAdd, byte_at_zero, byte_at_succ, word_join, long_join,
    offset_nibble h15, hurg, hack, hpsh, hrst, hsyn, hfin]

end TCPHeader

namespace TCPSegment

open TCPHeader

variable {seg : TCPSegment} {c : UInt32}

/-- What is written: the header with the checksum over the whole, and the payload. -/
theorem serialize_eq (h5 : 5 ≤ seg.header.doff) (c : UInt32) : seg.serialize c =
    .ok ⟨[{ seg.header with cksum := ((⟨c, false⟩ : InternetChecksum).add
      ({ seg.header with cksum := 0 }.padded ++ seg.payload)).value }.padded, seg.payload]⟩ := by
  have hout : ∀ k, { seg.header with cksum := k }.serialize =
      .ok { seg.header with cksum := k }.padded := fun k => TCPHeader.serialize_eq h5
  rw [InternetChecksum.add_append]
  simp [serialize, hout, bind, Except.bind, pure, Except.pure, BufferList.append]

/-- What is written is a valid segment. -/
theorem serialize_valid (h5 : 5 ≤ seg.header.doff) (h15 : seg.header.doff.toNat ≤ 15)
    (hlen : 4 * seg.header.doff.toNat + seg.payload.length ≤ 65535) (hc : Start c) :
    ∃ k, seg.serialize c = .ok ⟨[{ seg.header with cksum := k }.padded, seg.payload]⟩ ∧
      ({ seg.header with cksum := k }.padded ++ seg.payload).length ≤ 65535 ∧
      Valid c ({ seg.header with cksum := k }.padded ++ seg.payload) := by
  refine ⟨_, serialize_eq h5 c, ?_⟩
  generalize hk : ((⟨c, false⟩ : InternetChecksum).add
    ({ seg.header with cksum := 0 }.padded ++ seg.payload)).value = k
  have h5' : 5 ≤ seg.header.doff.toNat := h5
  have hlength : ∀ k, ({ seg.header with cksum := k }.padded ++ seg.payload).length =
      4 * seg.header.doff.toNat + seg.payload.length := by
    intro k
    rw [List.length_append, length_padded (h := { seg.header with cksum := k }) h5]
  have hmax : ∀ k, ({ seg.header with cksum := k }.padded ++ seg.payload).length ≤ 65535 := by
    intro k
    rwa [hlength]
  have hoff : dataOffset ({ seg.header with cksum := k }.padded ++ seg.payload) =
      seg.header.doff.toNat := by
    rw [← doff_fields_of, fields_of_padded (h := { seg.header with cksum := k }) h15]
  refine ⟨hmax k, ?_, ?_, ?_, ?_⟩
  · rw [hlength]
    unfold TCPHeader.LENGTH
    omega
  · rw [← value_eq_zero_iff (hmax k) hc]
    have hsplit : ∀ v, { seg.header with cksum := v }.padded ++ seg.payload =
        seg.header.front ++ word v ++ (seg.header.back ++ seg.payload) :=
      fun v => List.append_assoc _ _ _
    have hlt := fun v => sum_lt (hmax v) hc
    simp only [hsplit] at hlt hk ⊢
    exact value_sealed _ _ 8 rfl hlt hk
  · rw [hoff]
    exact h5'
  · rw [hoff, hlength]
    exact Nat.le_add_right _ _

/-- A valid segment that starts with these bytes is parsed to their header. -/
theorem parse_padded {h : TCPHeader} {payload : Bytes} (h5 : 5 ≤ h.doff) (h15 : h.doff.toNat ≤ 15)
    (hlen : (h.padded ++ payload).length ≤ 65535) (hc : Start c)
    (hvalid : Valid c (h.padded ++ payload)) (seg : TCPSegment) :
    seg.parse (h.padded ++ payload) c = (.noError, { header := h, payload }) := by
  have hoff : 4 * dataOffset (h.padded ++ payload) = h.padded.length := by
    rw [← doff_fields_of, fields_of_padded h15, length_padded h5]
  rw [seg.parse_valid hlen hc hvalid, fields_of_padded h15, hoff, List.drop_left]

/-- A segment comes back as it was sent, but for its checksum. -/
theorem segment_round_trip (seg : TCPSegment) {c : UInt32} (h5 : 5 ≤ seg.header.doff)
    (h15 : seg.header.doff ≤ 15) (hlen : 4 * seg.header.doff.toNat + seg.payload.length ≤ 65535)
    (hc : Start c) :
    ∃ out k, seg.serialize c = .ok out ∧ ∀ t : TCPSegment, t.parse out.concatenate c =
      (.noError, { header := { seg.header with cksum := k }, payload := seg.payload }) := by
  obtain ⟨k, hout, hmax, hvalid⟩ := serialize_valid h5 h15 hlen hc
  refine ⟨_, k, hout, fun t => ?_⟩
  simpa [BufferList.concatenate] using
    parse_padded (h := { seg.header with cksum := k }) h5 h15 hmax hc hvalid t

/-- A segment with options and a payload of odd length. -/
theorem segment_round_trip_odd : ∃ out k,
    ({ header := { sport := 80, doff := 6, syn := true }, payload := [1, 2, 3] } :
      TCPSegment).serialize ({ src := 1, len := 47 } : IPv4Header).pseudoCksum = .ok out ∧
    ∀ t : TCPSegment, t.parse out.concatenate ({ src := 1, len := 47 } : IPv4Header).pseudoCksum =
      (.noError, { header := { sport := 80, doff := 6, syn := true, cksum := k },
                   payload := [1, 2, 3] }) :=
  segment_round_trip ⟨{ sport := 80, doff := 6, syn := true }, [1, 2, 3]⟩ (by decide) (by decide)
    (by decide) (.inr ⟨_, rfl⟩)

/-- A segment that has one bit the wrong way round is never taken. -/
theorem flipped_bit_caught (seg : TCPSegment) {c : UInt32} (h5 : 5 ≤ seg.header.doff)
    (h15 : seg.header.doff ≤ 15) (hlen : 4 * seg.header.doff.toNat + seg.payload.length ≤ 65535)
    (hc : Start c) :
    ∃ out, seg.serialize c = .ok out ∧ ∀ pos, pos < 8 * out.concatenate.length →
      ∀ t : TCPSegment, (t.parse (flipBit out.concatenate pos) c).1 = .badChecksum := by
  obtain ⟨k, hout, hmax, hvalid⟩ := serialize_valid h5 h15 hlen hc
  refine ⟨_, hout, fun pos hpos t => ?_⟩
  have hcat : (⟨[{ seg.header with cksum := k }.padded, seg.payload]⟩ : BufferList).concatenate =
      { seg.header with cksum := k }.padded ++ seg.payload := by
    simp [BufferList.concatenate]
  rw [hcat] at hpos ⊢
  have hsums : Sums c ({ seg.header with cksum := k }.padded ++ seg.payload) := hvalid.2.1
  apply t.parse_unsummed (by rwa [length_flip_bit]) hc
  exact checksum_flip_bit hsums hpos

/-- The segment above, whose last byte has no partner in the sum. -/
theorem flipped_bit_caught_odd : ∃ out,
    ({ header := { sport := 80, doff := 6, syn := true }, payload := [1, 2, 3] } :
      TCPSegment).serialize ({ src := 1, len := 47 } : IPv4Header).pseudoCksum = .ok out ∧
    ∀ pos, pos < 8 * out.concatenate.length → ∀ t : TCPSegment,
      (t.parse (flipBit out.concatenate pos) ({ src := 1, len := 47 } : IPv4Header).pseudoCksum).1 =
        .badChecksum :=
  flipped_bit_caught ⟨{ sport := 80, doff := 6, syn := true }, [1, 2, 3]⟩ (by decide) (by decide)
    (by decide) (.inr ⟨_, rfl⟩)

end TCPSegment

namespace IPv4Header

/-- The bytes of a header before the checksum, and behind it with the zeros that stand for
the options. -/
def front (h : IPv4Header) : Bytes :=
  [h.firstByte] ++ [h.tos] ++ word h.len ++ word h.id ++ word h.foVal ++ [h.ttl] ++ [h.proto]

def back (h : IPv4Header) : Bytes :=
  long h.src ++ long h.dst ++ List.replicate (4 * h.hlen.toNat - LENGTH) 0

def padded (h : IPv4Header) : Bytes := h.front ++ word h.cksum ++ h.back

theorem serialize_eq {h : IPv4Header} (hver : h.ver = 4) (h5 : 5 ≤ h.hlen.toNat) :
    h.serialize = .ok h.padded := by
  have hlen : (h.front ++ word h.cksum ++ long h.src ++ long h.dst).length = LENGTH := rfl
  have hlong : ¬ 4 * h.hlen.toNat < LENGTH := by
    unfold LENGTH
    omega
  rw [serialize, if_neg (not_not_intro hver), if_neg hlong]
  simp only [u8_eq, u16_eq, u32_eq, List.nil_append]
  change Except.ok (resize (h.front ++ word h.cksum ++ long h.src ++ long h.dst) _) = _
  rw [resize_longer (by rw [hlen]; exact Nat.not_lt.mp hlong), hlen, padded, back]
  simp only [List.append_assoc]

theorem length_padded {h : IPv4Header} (h5 : 5 ≤ h.hlen.toNat) :
    h.padded.length = 4 * h.hlen.toNat := by
  have hlen : (h.front ++ word h.cksum ++ (long h.src ++ long h.dst)).length = LENGTH := rfl
  rw [padded, back, ← List.append_assoc, List.length_append, List.length_replicate, hlen]
  unfold LENGTH
  omega

theorem first_byte_nibbles {h : IPv4Header} (hver : h.ver = 4) (h15 : h.hlen.toNat ≤ 15) :
    h.firstByte >>> 4 = h.ver ∧ h.firstByte &&& 0x0f = h.hlen := by
  have hlow : ∀ n, n &&& 15 = n % 16 := fun n => Nat.and_two_pow_sub_one_eq_mod n 4
  have hfirst : h.firstByte.toNat = 64 + h.hlen.toNat := by
    have hsum := Nat.two_pow_add_eq_or_of_lt (show h.hlen.toNat < 2 ^ 4 by omega) 4
    have hmod : h.hlen.toNat % 16 = h.hlen.toNat := Nat.mod_eq_of_lt (by omega)
    have hver4 : ((4 : UInt8) <<< 4).toNat = 64 := rfl
    rw [firstByte, hver, UInt8.toNat_or, UInt8.toNat_and, hver4]
    simp only [UInt8.reduceToNat, hlow, hmod]
    exact hsum.symm
  constructor
  · rw [hver, ← UInt8.toNat_inj, UInt8.toNat_shiftRight, hfirst]
    simp only [UInt8.reduceToNat, Nat.reduceMod, Nat.shiftRight_eq_div_pow]
    omega
  · rw [← UInt8.toNat_inj, UInt8.toNat_and, hfirst]
    simp only [UInt8.reduceToNat, hlow]
    omega

/-- The flags are read off the two bits above the offset. -/
theorem fo_val_mask (h : IPv4Header) {mask : UInt16} (hm : 0x1fff &&& mask = 0) :
    h.foVal &&& mask = ((if h.df then 0x4000 else 0) ||| (if h.mf then 0x2000 else 0)) &&& mask := by
  rw [foVal, ← UInt16.toNat_inj, UInt16.toNat_and, UInt16.toNat_or, Nat.and_or_distrib_right,
    ← UInt16.toNat_and, ← UInt16.toNat_and, UInt16.and_assoc, hm, UInt16.and_zero, UInt16.toNat_zero,
    Nat.or_zero]

theorem fo_val_parts {h : IPv4Header} (hoff : h.offset.toNat < 2 ^ 13) :
    (h.foVal &&& 0x4000 != 0) = h.df ∧ (h.foVal &&& 0x2000 != 0) = h.mf ∧
      h.foVal &&& 0x1fff = h.offset := by
  refine ⟨?_, ?_, ?_⟩
  · rw [h.fo_val_mask rfl]
    cases h.df <;> cases h.mf <;> decide
  · rw [h.fo_val_mask rfl]
    cases h.df <;> cases h.mf <;> decide
  · have hflags : ((if h.df then 0x4000 else 0) ||| (if h.mf then 0x2000 else 0) : UInt16).toNat &&&
        0x1fff = 0 := by
      cases h.df <;> cases h.mf <;> decide
    have hlow : ∀ n, n &&& 8191 = n % 8192 := fun n => Nat.and_two_pow_sub_one_eq_mod n 13
    rw [foVal, ← UInt16.toNat_inj, UInt16.toNat_and, UInt16.toNat_or, UInt16.toNat_and,
      Nat.and_or_distrib_right]
    simp only [UInt16.reduceToNat] at hflags ⊢
    rw [hflags, Nat.zero_or, hlow, hlow]
    omega

/-- The header that is read is the one that was written. -/
theorem fields_of_padded {h : IPv4Header} (hver : h.ver = 4) (h15 : h.hlen.toNat ≤ 15)
    (hoff : h.offset.toNat < 2 ^ 13) (rest : Bytes) : fieldsOf (h.padded ++ rest) = h := by
  obtain ⟨hv, hl⟩ := first_byte_nibbles hver h15
  obtain ⟨hdf, hmf, hof⟩ := fo_val_parts hoff
  simp only [fieldsOf, wordAt, longAt, padded, front, back, word, long, List.cons_append,
    List.nil_append, Nat.reduceAdd, byte_at_zero, byte_at_succ, word_join, long_join, hv, hl, hdf,
    hmf, hof]

end IPv4Header

namespace IPv4Datagram

open IPv4Header

/-- A datagram whose header tells its length and fits its fields. -/
structure Regular (d : IPv4Datagram) : Prop where
  ver : d.header.ver = 4
  hlen_ge : 5 ≤ d.header.hlen.toNat
  hlen_le : d.header.hlen.toNat ≤ 15
  offset : d.header.offset.toNat < 2 ^ 13
  len : d.header.len.toNat = 4 * d.header.hlen.toNat + d.payload.size

variable {d : IPv4Datagram}

theorem Regular.serializable (h : d.Regular) : d.Serializable := by
  refine ⟨?_, h.ver, h.hlen_ge⟩
  have hlen := h.len
  have hmax := d.header.len.toNat_lt
  have h15 := h.hlen_le
  have hword : (4 * d.header.hlen.toUInt16).toNat = 4 * d.header.hlen.toNat := by
    simp only [UInt16.toNat_mul, UInt8.toNat_toUInt16, UInt16.reduceToNat]
    omega
  rw [payloadLength, UInt16.toNat_sub, hword]
  omega

/-- What is written: the header with its checksum, and the payload. -/
theorem serialize_eq (h : d.Serializable) : d.serialize =
    .ok ⟨{ d.header with cksum := (({} : InternetChecksum).add
      { d.header with cksum := 0 }.padded).value }.padded :: d.payload.buffers⟩ := by
  obtain ⟨hsize, hver, h5⟩ := h
  have hout : ∀ k, { d.header with cksum := k }.serialize =
      .ok { d.header with cksum := k }.padded := fun k => IPv4Header.serialize_eq hver h5
  simp [serialize, hsize, hout, bind, Except.bind, pure, Except.pure, BufferList.append]

/-- The sum over a header has far less than 32 bits. -/
theorem Regular.sum_lt (h : d.Regular) (k : UInt16) :
    (0 : UInt32).toNat + wordSum { d.header with cksum := k }.padded < 2 ^ 32 := by
  have hlen : { d.header with cksum := k }.padded.length = 4 * d.header.hlen.toNat :=
    length_padded (h := { d.header with cksum := k }) h.hlen_ge
  have hsum := word_sum_le { d.header with cksum := k }.padded
  have h15 := h.hlen_le
  rw [hlen] at hsum
  rw [UInt32.toNat_zero]
  omega

/-- What is written is a datagram that is formed and has the right checksum, and its header
is the one it was written from. -/
theorem Regular.written (h : d.Regular) : ∃ k,
    d.serialize = .ok ⟨{ d.header with cksum := k }.padded :: d.payload.buffers⟩ ∧
    Formed ({ d.header with cksum := k }.padded ++ d.payload.concatenate) ∧
    Sums ({ d.header with cksum := k }.padded ++ d.payload.concatenate) := by
  refine ⟨_, serialize_eq h.serializable, ?_⟩
  generalize hk : (({} : InternetChecksum).add { d.header with cksum := 0 }.padded).value = k
  have hpadded : { d.header with cksum := k }.padded.length = 4 * d.header.hlen.toNat :=
    length_padded (h := { d.header with cksum := k }) h.hlen_ge
  have hfields := fields_of_padded (h := { d.header with cksum := k }) h.ver h.hlen_le h.offset
    d.payload.concatenate
  constructor
  · rw [← fitting_fields_of, hfields, Fitting, List.length_append, hpadded,
      BufferList.length_concatenate]
    exact ⟨Nat.le_add_right _ _, h.ver, h.hlen_ge, h.len.symm⟩
  · rw [Sums, ← hlen_fields_of, hfields, List.take_left' hpadded]
    exact value_sealed d.header.front d.header.back 5 rfl h.sum_lt hk

/-- A string that starts with these bytes is parsed to their header, and the payload is
what is behind them. -/
theorem parse_padded {h : IPv4Header} {payload : Bytes} (hver : h.ver = 4)
    (h5 : 5 ≤ h.hlen.toNat) (h15 : h.hlen.toNat ≤ 15) (hoff : h.offset.toNat < 2 ^ 13)
    (hformed : Formed (h.padded ++ payload)) (t : IPv4Datagram) :
    t.parse (h.padded ++ payload) = (.noError, { header := h, payload := ⟨[payload]⟩ }) := by
  have hlen : 4 * headerLength (h.padded ++ payload) = h.padded.length := by
    rw [← hlen_fields_of, fields_of_padded hver h15 hoff, length_padded h5]
  rw [t.parse_formed hformed.long hformed, fields_of_padded hver h15 hoff, hlen, List.drop_left]

/-- A datagram comes back as it was sent, but for its checksum; its payload comes back in
one piece. The header alone is parsed without an error as well. -/
theorem datagram_round_trip (d : IPv4Datagram) (hver : d.header.ver = 4) (h5 : 5 ≤ d.header.hlen)
    (h15 : d.header.hlen ≤ 15) (hoff : d.header.offset.toNat < 2 ^ 13)
    (hlen : d.header.len.toNat = 4 * d.header.hlen.toNat + d.payload.size) :
    ∃ out k, d.serialize = .ok out ∧
      (∀ t : IPv4Datagram, t.parse out.concatenate = (.noError,
        { header := { d.header with cksum := k }, payload := ⟨[d.payload.concatenate]⟩ })) ∧
      ∀ t : IPv4Header, (t.parse.run { buffer := out.concatenate }).1 =
        (.noError, { d.header with cksum := k }) := by
  have hreg : d.Regular := ⟨hver, h5, h15, hoff, hlen⟩
  obtain ⟨k, hout, hformed, hsums⟩ := hreg.written
  have hcat : (⟨{ d.header with cksum := k }.padded :: d.payload.buffers⟩ : BufferList).concatenate =
      { d.header with cksum := k }.padded ++ d.payload.concatenate := rfl
  refine ⟨_, k, hout, fun t => ?_, fun t => ?_⟩
  · rw [hcat]
    exact parse_padded (h := { d.header with cksum := k }) hver h5 h15 hoff hformed t
  · rw [hcat, header_parse_formed t hformed.long hformed, if_pos hsums,
      fields_of_padded (h := { d.header with cksum := k }) hver h15 hoff]
    rfl

/-- A fragment with options and a payload in two pieces. -/
theorem datagram_round_trip_fragment : ∃ out k,
    ({ header := { hlen := 6, len := 27, mf := true, offset := 8191 }, payload := ⟨[[1, 2], [3]]⟩ } :
      IPv4Datagram).serialize = .ok out ∧
    (∀ t : IPv4Datagram, t.parse out.concatenate = (.noError,
      { header := { hlen := 6, len := 27, mf := true, offset := 8191, cksum := k }
        payload := ⟨[[1, 2, 3]]⟩ })) ∧
    ∀ t : IPv4Header, (t.parse.run { buffer := out.concatenate }).1 =
      (.noError, { hlen := 6, len := 27, mf := true, offset := 8191, cksum := k }) :=
  datagram_round_trip ⟨{ hlen := 6, len := 27, mf := true, offset := 8191 }, ⟨[[1, 2], [3]]⟩⟩ rfl
    (by decide) (by decide) (by decide) (by decide)

end IPv4Datagram

end Sponge
