import Sponge.Segment
import Sponge.Wire.Checksum
import Sponge.Wire.IPv4

namespace Sponge

namespace TCPHeader

open NetParser

/-- The length of a header without options. -/
def LENGTH : Nat := 20

/-- The fields, in the order in which they stand in the segment. -/
def readFields : StateM NetParser TCPHeader := do
  let sport ← NetParser.u16
  let dport ← NetParser.u16
  let seqno ← NetParser.u32
  let ackno ← NetParser.u32
  let offset ← NetParser.u8
  let flags ← NetParser.u8
  let win ← NetParser.u16
  let cksum ← NetParser.u16
  let uptr ← NetParser.u16
  return {
    sport, dport
    seqno := ⟨seqno⟩
    ackno := ⟨ackno⟩
    doff := offset >>> 4
    urg := flags &&& 0b100000 != 0
    ack := flags &&& 0b010000 != 0
    psh := flags &&& 0b001000 != 0
    rst := flags &&& 0b000100 != 0
    syn := flags &&& 0b000010 != 0
    fin := flags &&& 0b000001 != 0
    win, cksum, uptr }

/-- The options are skipped. A data offset that is too small is told by the result
only; the parser is left without an error. -/
def skipOptions (h : TCPHeader) : StateM NetParser ParseResult := do
  if h.doff < 5 then
    return .headerTooShort
  NetParser.removePrefix (h.doff.toNat * 4 - LENGTH)
  let p ← get
  if p.error then
    return p.result
  return .noError

/-- All fields are set, whatever the result. -/
def parse : StateM NetParser (ParseResult × TCPHeader) := do
  let h ← readFields
  return (← h.skipOptions, h)

/-- The byte with the flags. -/
def flagByte (h : TCPHeader) : UInt8 :=
  (if h.urg then 0b100000 else 0) ||| (if h.ack then 0b010000 else 0) |||
    (if h.psh then 0b001000 else 0) ||| (if h.rst then 0b000100 else 0) |||
    (if h.syn then 0b000010 else 0) ||| (if h.fin then 0b000001 else 0)

def serialize (h : TCPHeader) : Except Fault Bytes :=
  if h.doff < 5 then
    .error (.runtimeError "TCP header too short")
  else
    let ret := NetUnparser.u16 [] h.sport
    let ret := NetUnparser.u16 ret h.dport
    let ret := NetUnparser.u32 ret h.seqno.rawValue
    let ret := NetUnparser.u32 ret h.ackno.rawValue
    let ret := NetUnparser.u8 ret (h.doff <<< 4)
    let ret := NetUnparser.u8 ret h.flagByte
    let ret := NetUnparser.u16 ret h.win
    let ret := NetUnparser.u16 ret h.cksum
    let ret := NetUnparser.u16 ret h.uptr
    .ok (IPv4Header.resize ret (4 * h.doff.toNat))

end TCPHeader

namespace TCPSegment

/-- The result of parsing the header is not looked at, only the parser's error. -/
def parse (seg : TCPSegment) (buffer : Bytes) (datagramLayerChecksum : UInt32) :
    ParseResult × TCPSegment :=
  let check := (⟨datagramLayerChecksum, false⟩ : InternetChecksum).add buffer
  if check.value ≠ 0 then (.badChecksum, seg)
  else
    let parsed := (TCPHeader.parse.run { buffer }).run
    (parsed.2.result, { header := parsed.1.2, payload := parsed.2.buffer })

def serialize (seg : TCPSegment) (datagramLayerChecksum : UInt32) : Except Fault BufferList := do
  let headerOut := { seg.header with cksum := 0 }
  let check := (⟨datagramLayerChecksum, false⟩ : InternetChecksum).add (← headerOut.serialize)
  let check := check.add seg.payload
  let headerOut := { headerOut with cksum := check.value }
  return (⟨[← headerOut.serialize]⟩ : BufferList).append ⟨[seg.payload]⟩

end TCPSegment

namespace TCPHeader

open NetParser

/-- The header that stands at the front of a string. -/
def fieldsOf (b : Bytes) : TCPHeader where
  sport := wordAt b 0
  dport := wordAt b 2
  seqno := ⟨longAt b 4⟩
  ackno := ⟨longAt b 8⟩
  doff := NetParser.byteAt b 12 >>> 4
  urg := NetParser.byteAt b 13 &&& 0b100000 != 0
  ack := NetParser.byteAt b 13 &&& 0b010000 != 0
  psh := NetParser.byteAt b 13 &&& 0b001000 != 0
  rst := NetParser.byteAt b 13 &&& 0b000100 != 0
  syn := NetParser.byteAt b 13 &&& 0b000010 != 0
  fin := NetParser.byteAt b 13 &&& 0b000001 != 0
  win := wordAt b 14
  cksum := wordAt b 16
  uptr := wordAt b 18

theorem read_fields {b : Bytes} (h : LENGTH ≤ b.length) :
    readFields.run { buffer := b } = pure (fieldsOf b, ⟨b.drop LENGTH, .noError⟩) := by
  have hb : (⟨b, .noError⟩ : NetParser) = ⟨b.drop 0, .noError⟩ := rfl
  unfold LENGTH at h
  simp (disch := omega) only [readFields, hb, StateT.run_bind, pure_bind, u8_at, u16_at, u32_at,
    StateT.run_pure]
  rfl

theorem reads_fields : Reads 20 readFields := by
  unfold readFields
  exact reads_u16.bind fun _ => reads_u16.bind fun _ => reads_u32.bind fun _ =>
    reads_u32.bind fun _ => reads_u8.bind fun _ => reads_u8.bind fun _ =>
    reads_u16.bind fun _ => reads_u16.bind fun _ => reads_u16.bind fun _ => reads_pure _

section Options

variable {h : TCPHeader} {b : Bytes}

theorem skip_options_short (hoff : h.doff < 5) (p : NetParser) :
    h.skipOptions.run p = pure (.headerTooShort, p) := by
  rw [skipOptions, if_pos hoff]
  rfl

theorem skip_options_at (hoff : ¬ h.doff < 5) (hfit : 4 * h.doff.toNat ≤ b.length) :
    h.skipOptions.run ⟨b.drop LENGTH, .noError⟩ =
      pure (.noError, ⟨b.drop (4 * h.doff.toNat), .noError⟩) := by
  have h5 : 5 ≤ h.doff.toNat := UInt8.not_lt.mp hoff
  have hend : LENGTH + (h.doff.toNat * 4 - LENGTH) = 4 * h.doff.toNat := by
    unfold LENGTH
    omega
  have hskip := remove_prefix_at (b := b) (k := LENGTH) (n := h.doff.toNat * 4 - LENGTH) (by omega)
  rw [hend] at hskip
  rw [skipOptions, if_neg hoff]
  simp only [StateT.run_bind, hskip, pure_bind, StateT.run_get, error]
  rfl

theorem reads_skip_options (h : TCPHeader) :
    Reads (h.doff.toNat * 4 - LENGTH) h.skipOptions := by
  by_cases hoff : h.doff < 5
  · have hzero : h.doff.toNat * 4 - LENGTH = 0 := by
      have h5 : h.doff.toNat < 5 := hoff
      unfold LENGTH
      omega
    rw [hzero, skipOptions, if_pos hoff]
    exact reads_pure _
  · rw [skipOptions, if_neg hoff]
    apply (remove_prefix_reads _).bind (l := 0)
    rintro - p hp
    by_cases herr : p.error = true
    · simp only [StateT.run_bind, StateT.run_get, pure_bind, herr, ↓reduceIte] at hp ⊢
      exact ⟨hp, rfl⟩
    · simp only [StateT.run_bind, StateT.run_get, pure_bind, herr] at hp ⊢
      exact ⟨hp, rfl⟩

theorem parse_state (p : NetParser) : (TCPHeader.parse.run p).2 =
    ((readFields.run p).1.skipOptions.run (readFields.run p).2).2 := by
  rw [TCPHeader.parse, run_then, run_then]
  generalize (readFields.run p).1.skipOptions.run (readFields.run p).2 = skipped
  rfl

theorem parse_header (p : NetParser) :
    (TCPHeader.parse.run p).1.2 = (readFields.run p).1 := by
  rw [TCPHeader.parse, run_then, run_then]
  generalize (readFields.run p).1.skipOptions.run (readFields.run p).2 = skipped
  generalize (readFields.run p).1 = h
  rfl

/-- A header that is parsed without an error of the parser is there with its options. -/
theorem length_of_parse {p : NetParser} (h : (TCPHeader.parse.run p).2.result = .noError) :
    LENGTH + ((TCPHeader.parse.run p).1.2.doff.toNat * 4 - LENGTH) ≤ p.buffer.length := by
  rw [parse_state] at h
  obtain ⟨hmid, hskip⟩ := reads_skip_options (readFields.run p).1 (readFields.run p).2 h
  obtain ⟨-, hlen⟩ := reads_fields p hmid
  rw [parse_header]
  unfold LENGTH at hskip ⊢
  omega

end Options

end TCPHeader

namespace TCPSegment

open NetParser TCPHeader OnesComplement

/-- The length of the header in words that a string says it has. -/
def dataOffset (b : Bytes) : Nat := (NetParser.byteAt b 12).toNat / 16

/-- The Internet checksum of the string, started from `c`, is zero. -/
def Sums (c : UInt32) (b : Bytes) : Prop := checksum (c.toNat + wordSum b) = 0

instance (c : UInt32) (b : Bytes) : Decidable (Sums c b) := inferInstanceAs (Decidable (_ = _))

/-- A valid segment. -/
def Valid (c : UInt32) (b : Bytes) : Prop :=
  LENGTH ≤ b.length ∧ Sums c b ∧ 5 ≤ dataOffset b ∧ 4 * dataOffset b ≤ b.length

instance (c : UInt32) (b : Bytes) : Decidable (Valid c b) :=
  inferInstanceAs (Decidable (_ ∧ _ ∧ _ ∧ _))

/-- What a checksum is started from: nothing, or the sum over a pseudo-header. -/
def Start (c : UInt32) : Prop := c = 0 ∨ ∃ h : IPv4Header, c = h.pseudoCksum

theorem pseudo_cksum_lt (h : IPv4Header) : h.pseudoCksum.toNat < 2 ^ 19 := by
  have hadd : ∀ a b : UInt32, (a + b).toNat ≤ a.toNat + b.toNat := by
    intro a b
    rw [UInt32.toNat_add]
    exact Nat.mod_le _ _
  have hhalves : ∀ v : UInt32, (v >>> 16 + (v &&& 0xffff)).toNat < 2 ^ 17 := by
    intro v
    have hlow : v.toNat &&& 65535 = v.toNat % 65536 := Nat.and_two_pow_sub_one_eq_mod _ 16
    have hlt := v.toNat_lt
    have hsum := hadd (v >>> 16) (v &&& 0xffff)
    simp only [UInt32.toNat_shiftRight, UInt32.toNat_and, UInt32.reduceToNat, Nat.reduceMod,
      Nat.shiftRight_eq_div_pow, hlow] at hsum
    omega
  have hs := hhalves h.src
  have hd := hhalves h.dst
  have hp := h.proto.toNat_lt
  have hl := h.payloadLength.toNat_lt
  simp only [IPv4Header.pseudoCksum]
  generalize h.src >>> 16 + (h.src &&& 0xffff) = s at hs ⊢
  generalize h.dst >>> 16 + (h.dst &&& 0xffff) = d at hd ⊢
  have hsd := hadd s d
  have hproto := hadd (s + d) h.proto.toUInt32
  have hall := hadd (s + d + h.proto.toUInt32) h.payloadLength.toUInt32
  simp only [UInt8.toNat_toUInt32, UInt16.toNat_toUInt32] at hproto hall
  omega

theorem Start.lt {c : UInt32} (h : Start c) : c.toNat < 2 ^ 19 := by
  obtain rfl | ⟨hd, rfl⟩ := h
  · decide
  · exact pseudo_cksum_lt hd

section Parse

variable {b : Bytes} {c : UInt32}

/-- Within 65535 bytes the sum stays below 32 bits. -/
theorem sum_lt (hb : b.length ≤ 65535) (hc : Start c) : c.toNat + wordSum b < 2 ^ 32 := by
  have hsum := word_sum_le b
  have hstart := hc.lt
  have hhalf : (b.length + 1) / 2 ≤ 32768 := by omega
  omega

theorem value_eq_zero_iff (hb : b.length ≤ 65535) (hc : Start c) :
    ((⟨c, false⟩ : InternetChecksum).add b).value = 0 ↔ Sums c b := by
  rw [← UInt16.toNat_inj, InternetChecksum.value_add (sum_lt hb hc)]
  rfl

theorem doff_fields_of (b : Bytes) : (fieldsOf b).doff.toNat = dataOffset b := by
  simp [fieldsOf, dataOffset, Nat.shiftRight_eq_div_pow]

theorem doff_lt_iff (b : Bytes) : (fieldsOf b).doff < 5 ↔ dataOffset b < 5 := by
  rw [UInt8.lt_iff_toNat_lt, doff_fields_of]
  rfl

/-- What becomes of a segment whose checksum is right. -/
theorem parse_summed (seg : TCPSegment) (hb : b.length ≤ 65535) (hc : Start c) (h : Sums c b) :
    seg.parse b c = ((TCPHeader.parse.run { buffer := b }).2.result,
      { header := (TCPHeader.parse.run { buffer := b }).1.2
        payload := (TCPHeader.parse.run { buffer := b }).2.buffer }) := by
  rw [parse, if_neg (not_not_intro ((value_eq_zero_iff hb hc).mpr h))]
  generalize TCPHeader.parse.run { buffer := b } = parsed
  rfl

/-- The header is there: it is read, and then the options are skipped. -/
theorem header_parse (h20 : LENGTH ≤ b.length) {res : ParseResult} {p : NetParser}
    (h : (fieldsOf b).skipOptions.run ⟨b.drop LENGTH, .noError⟩ = pure (res, p)) :
    TCPHeader.parse.run { buffer := b } = pure ((res, fieldsOf b), p) := by
  simp [TCPHeader.parse, read_fields h20, h]

theorem parse_unsummed (seg : TCPSegment) (hb : b.length ≤ 65535) (hc : Start c)
    (h : ¬ Sums c b) : (seg.parse b c).1 = .badChecksum := by
  rw [parse, if_pos (mt (value_eq_zero_iff hb hc).mp h)]

/-- With the right checksum it depends on the data offset alone whether the header is
refused: one that is too small is not. -/
theorem parse_short_offset (seg : TCPSegment) (hb : b.length ≤ 65535) (hc : Start c)
    (h : Sums c b) (h20 : LENGTH ≤ b.length) (hoff : dataOffset b < 5) :
    seg.parse b c = (.noError, { header := fieldsOf b, payload := b.drop LENGTH }) := by
  rw [seg.parse_summed hb hc h,
    header_parse h20 (skip_options_short ((doff_lt_iff b).mpr hoff) _)]
  rfl

theorem parse_valid (seg : TCPSegment) (hb : b.length ≤ 65535) (hc : Start c) (h : Valid c b) :
    seg.parse b c = (.noError, { header := fieldsOf b, payload := b.drop (4 * dataOffset b) }) := by
  obtain ⟨h20, hsum, h5, hfit⟩ := h
  have hoff : ¬ (fieldsOf b).doff < 5 := by
    rw [doff_lt_iff]
    omega
  rw [← doff_fields_of] at hfit ⊢
  rw [seg.parse_summed hb hc hsum, header_parse h20 (skip_options_at hoff hfit)]
  rfl

/-- What is taken has a header as long as it says. -/
theorem length_of_taken {seg : TCPSegment} (hb : b.length ≤ 65535) (hc : Start c)
    (h : (seg.parse b c).1 = .noError) :
    Sums c b ∧ LENGTH ≤ b.length ∧ 4 * dataOffset b ≤ b.length := by
  by_cases hsum : Sums c b
  · simp only [seg.parse_summed hb hc hsum] at h
    have hlen := length_of_parse h
    have h20 : LENGTH ≤ b.length := Nat.le_of_add_right_le hlen
    have hdoff : (TCPHeader.parse.run { buffer := b }).1.2 = fieldsOf b := by
      rw [parse_header, read_fields h20]
      rfl
    rw [hdoff, doff_fields_of] at hlen
    have hfit : 4 * dataOffset b ≤ LENGTH + (dataOffset b * 4 - LENGTH) := by omega
    exact ⟨hsum, h20, Nat.le_trans hfit hlen⟩
  · rw [seg.parse_unsummed hb hc hsum] at h
    cases h

end Parse

/-- `parse` takes a string just when it is a valid segment, and then the payload is what
is behind the header. -/
def ParsedRight (seg : TCPSegment) (c : UInt32) (b : Bytes) : Prop :=
  ((seg.parse b c).1 = .noError ↔ Valid c b) ∧
    ((seg.parse b c).1 = .noError → (seg.parse b c).2.payload = b.drop (4 * dataOffset b))

instance (seg : TCPSegment) (c : UInt32) (b : Bytes) : Decidable (seg.ParsedRight c b) :=
  inferInstanceAs (Decidable ((_ ↔ _) ∧ (_ → _)))

/-- The code is right about a string that is too short for a header, about one whose
checksum is wrong, and about one whose data offset is not too small. -/
theorem segment_parsed_right_iff (seg : TCPSegment) {c : UInt32} {b : Bytes}
    (hb : b.length ≤ 65535) (hc : Start c) :
    seg.ParsedRight c b ↔ b.length < LENGTH ∨ ¬ Sums c b ∨ 5 ≤ dataOffset b := by
  unfold ParsedRight
  by_cases hvalid : Valid c b
  · rw [seg.parse_valid hb hc hvalid]
    simp [hvalid, hvalid.2.2.1]
  by_cases hshort : LENGTH ≤ b.length ∧ Sums c b ∧ dataOffset b < 5
  · obtain ⟨h20, hsum, hoff⟩ := hshort
    rw [seg.parse_short_offset hb hc hsum h20 hoff]
    simp [hvalid, hsum, Nat.not_lt.mpr h20, Nat.not_le.mpr hoff]
  · have hrefused : (seg.parse b c).1 ≠ .noError := by
      intro h
      obtain ⟨hsum, h20, hfit⟩ := length_of_taken hb hc h
      rcases Nat.lt_or_ge (dataOffset b) 5 with hoff | hoff
      · exact hshort ⟨h20, hsum, hoff⟩
      · exact hvalid ⟨h20, hsum, hoff, hfit⟩
    refine iff_of_true ⟨iff_of_false hrefused hvalid, fun h => absurd h hrefused⟩ ?_
    by_cases hsum : Sums c b
    · rcases Nat.lt_or_ge b.length LENGTH with h20 | h20
      · exact .inl h20
      · exact .inr (.inr (Nat.not_lt.mp fun hoff => hshort ⟨h20, hsum, hoff⟩))
    · exact .inr (.inl hsum)

/-- A header of six words is right about its one word of options. -/
theorem segment_parsed_right_iff_options : ({} : TCPSegment).ParsedRight 0
    [0, 0, 0, 0, 0, 0, 0, 0, 0, 0, 0, 0, 0x60, 0, 0, 0, 0x9f, 0xff, 0, 0, 0, 0, 0, 0] :=
  (segment_parsed_right_iff {} (by decide) (.inl rfl)).mpr (by decide)

/-- A data offset of zero is refused by the header, but the segment is taken. -/
theorem short_offset_taken :
    ¬ ∀ (seg : TCPSegment) (c : UInt32) (b : Bytes), b.length ≤ 65535 → Start c →
      seg.ParsedRight c b := by
  intro h
  have hb := h {} 0 [0, 0, 0, 0, 0, 0, 0, 0, 0, 0, 0, 0, 0, 0, 0, 0, 0xff, 0xff, 0, 0]
    (by decide) (.inl rfl)
  revert hb
  decide +kernel

end TCPSegment

end Sponge
