import Sponge.Wire.Parser

namespace Sponge

/-- An address, as far as the link layer looks at it: its IPv4 number. -/
structure Address where
  ipv4Numeric : UInt32
  deriving DecidableEq, Repr

structure IPv4Header where
  ver : UInt8 := 4
  hlen : UInt8 := 5
  tos : UInt8 := 0
  len : UInt16 := 0
  id : UInt16 := 0
  df : Bool := true
  mf : Bool := false
  offset : UInt16 := 0
  ttl : UInt8 := 128
  proto : UInt8 := 6
  cksum : UInt16 := 0
  src : UInt32 := 0
  dst : UInt32 := 0
  deriving DecidableEq, Repr

namespace IPv4Header

/-- The length of a header without options. -/
def LENGTH : Nat := 20

/-- The fields, in the order in which they stand in the packet. -/
def readFields : StateM NetParser IPv4Header := do
  let firstByte ← NetParser.u8
  let tos ← NetParser.u8
  let len ← NetParser.u16
  let id ← NetParser.u16
  let foVal ← NetParser.u16
  let ttl ← NetParser.u8
  let proto ← NetParser.u8
  let cksum ← NetParser.u16
  let src ← NetParser.u32
  let dst ← NetParser.u32
  return {
    ver := firstByte >>> 4
    hlen := firstByte &&& 0x0f
    tos, len, id
    df := foVal &&& 0x4000 != 0
    mf := foVal &&& 0x2000 != 0
    offset := foVal &&& 0x1fff
    ttl, proto, cksum, src, dst }

/-- What the fields are checked for, against the string they were read from. -/
def validate (h : IPv4Header) (original : Bytes) : StateM NetParser ParseResult := do
  if original.length < 4 * h.hlen.toNat then
    return .packetTooShort
  if h.ver ≠ 4 then
    return .wrongIPVersion
  if h.hlen < 5 then
    return .headerTooShort
  if original.length ≠ h.len.toNat then
    return .truncatedPacket
  NetParser.removePrefix (h.hlen.toNat * 4 - LENGTH)
  let p ← get
  if p.error then
    return p.result
  if (({} : InternetChecksum).add (original.take (4 * h.hlen.toNat))).value ≠ 0 then
    return .badChecksum
  return .noError

/-- The header after the call is returned besides the result, since the caller may go
on with it whatever the result. -/
def parse (h : IPv4Header) : StateM NetParser (ParseResult × IPv4Header) := do
  let original := (← get).buffer
  if original.length < LENGTH then
    return (.packetTooShort, h)
  let h ← readFields
  return (← h.validate original, h)

def payloadLength (h : IPv4Header) : UInt16 := h.len - 4 * h.hlen.toUInt16

def PROTO_TCP : UInt8 := 6

/-- What the checksum of a TCP segment inside the datagram starts from. -/
def pseudoCksum (h : IPv4Header) : UInt32 :=
  let pcksum := (h.src >>> 16) + (h.src &&& 0xffff)
  let pcksum := pcksum + ((h.dst >>> 16) + (h.dst &&& 0xffff))
  let pcksum := pcksum + h.proto.toUInt32
  pcksum + h.payloadLength.toUInt32

/-- `std::string::resize`. -/
def resize (s : Bytes) (n : Nat) : Bytes := s.take n ++ List.replicate (n - s.length) 0

/-- The first byte: version and length. -/
def firstByte (h : IPv4Header) : UInt8 := (h.ver <<< 4) ||| (h.hlen &&& 0xf)

/-- Flags and offset. -/
def foVal (h : IPv4Header) : UInt16 :=
  (if h.df then 0x4000 else 0) ||| (if h.mf then 0x2000 else 0) ||| (h.offset &&& 0x1fff)

def serialize (h : IPv4Header) : Except Fault Bytes :=
  if h.ver ≠ 4 then
    .error (.runtimeError "wrong IP version")
  else if 4 * h.hlen.toNat < LENGTH then
    .error (.runtimeError "IP header too short")
  else
    let ret := NetUnparser.u8 [] h.firstByte
    let ret := NetUnparser.u8 ret h.tos
    let ret := NetUnparser.u16 ret h.len
    let ret := NetUnparser.u16 ret h.id
    let ret := NetUnparser.u16 ret h.foVal
    let ret := NetUnparser.u8 ret h.ttl
    let ret := NetUnparser.u8 ret h.proto
    let ret := NetUnparser.u16 ret h.cksum
    let ret := NetUnparser.u32 ret h.src
    let ret := NetUnparser.u32 ret h.dst
    .ok (resize ret (4 * h.hlen.toNat))

end IPv4Header

structure IPv4Datagram where
  header : IPv4Header := {}
  payload : BufferList := {}
  deriving DecidableEq, Repr

namespace IPv4Datagram

/-- The result of parsing the header is not looked at. -/
def parse (d : IPv4Datagram) (buffer : Bytes) : ParseResult × IPv4Datagram :=
  let parsed := (d.header.parse.run { buffer }).run
  let d : IPv4Datagram := { header := parsed.1.2, payload := ⟨[parsed.2.buffer]⟩ }
  if d.payload.size ≠ d.header.payloadLength.toNat then (.packetTooShort, d)
  else (parsed.2.result, d)

def serialize (d : IPv4Datagram) : Except Fault BufferList := do
  if d.payload.size ≠ d.header.payloadLength.toNat then
    throw (.runtimeError "IPv4Datagram::serialize: payload is wrong size")
  let headerOut := { d.header with cksum := 0 }
  let headerZeroChecksum ← headerOut.serialize
  let check := ({} : InternetChecksum).add headerZeroChecksum
  let headerOut := { headerOut with cksum := check.value }
  return (⟨[← headerOut.serialize]⟩ : BufferList).append d.payload

end IPv4Datagram

abbrev InternetDatagram := IPv4Datagram

/-- A datagram that `serialize` takes. -/
def IPv4Datagram.Serializable (d : IPv4Datagram) : Prop :=
  d.payload.size = d.header.payloadLength.toNat ∧ d.header.ver = 4 ∧ 5 ≤ d.header.hlen.toNat

instance (d : IPv4Datagram) : Decidable d.Serializable :=
  inferInstanceAs (Decidable (_ ∧ _ ∧ _))

theorem IPv4Header.serialize_ok_iff (h : IPv4Header) :
    (∃ s, h.serialize = .ok s) ↔ h.ver = 4 ∧ 5 ≤ h.hlen.toNat := by
  unfold serialize LENGTH
  by_cases hver : h.ver = 4
  · by_cases hlen : 4 * h.hlen.toNat < 20
    · simp [hver, hlen]
      omega
    · simp [hver, hlen]
      omega
  · simp [hver]

theorem IPv4Header.serialize_error {h : IPv4Header} {e : Fault} (he : h.serialize = .error e) :
    ∃ what, e = .runtimeError what := by
  unfold serialize at he
  split at he
  · cases he
    exact ⟨_, rfl⟩
  · split at he
    · cases he
      exact ⟨_, rfl⟩
    · cases he

theorem IPv4Datagram.Serializable.serialize {d : IPv4Datagram} (h : d.Serializable) :
    ∃ payload, d.serialize = .ok payload := by
  obtain ⟨hsize, hgood⟩ := h
  obtain ⟨s, hs⟩ := (IPv4Header.serialize_ok_iff { d.header with cksum := 0 }).mpr hgood
  obtain ⟨out, hout⟩ := (IPv4Header.serialize_ok_iff { d.header with
    cksum := (({} : InternetChecksum).add s).value }).mpr hgood
  refine ⟨(⟨[out]⟩ : BufferList).append d.payload, ?_⟩
  simp [IPv4Datagram.serialize, hsize, hs, hout, bind, Except.bind, pure, Except.pure]

/-- Otherwise `serialize` throws one of its errors. -/
theorem IPv4Datagram.serialize_throws {d : IPv4Datagram} (h : ¬ d.Serializable) :
    ∃ what, d.serialize = .error (.runtimeError what) := by
  unfold serialize
  by_cases hsize : d.payload.size = d.header.payloadLength.toNat
  · cases hs : { d.header with cksum := 0 }.serialize with
    | error e =>
      obtain ⟨what, rfl⟩ := IPv4Header.serialize_error hs
      exact ⟨what, by simp [hsize, hs, bind, Except.bind]⟩
    | ok s =>
      exact absurd ⟨hsize, (IPv4Header.serialize_ok_iff { d.header with cksum := 0 }).mp ⟨s, hs⟩⟩ h
  · exact ⟨_, by simp [hsize, throw, throwThe, MonadExceptOf.throw, bind, Except.bind]; rfl⟩

end Sponge
