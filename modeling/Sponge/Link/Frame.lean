import Sponge.Wire.IPv4

namespace Sponge

/-- An Ethernet address, an array of six bytes. -/
abbrev EthernetAddress := Vector UInt8 6

def ETHERNET_BROADCAST : EthernetAddress := .replicate 6 0xff

namespace EthernetAddress

/-- The bytes of an address, read one by one. -/
def read : StateM NetParser EthernetAddress := do
  let a ← NetParser.u8
  let b ← NetParser.u8
  let c ← NetParser.u8
  let d ← NetParser.u8
  let e ← NetParser.u8
  let f ← NetParser.u8
  return ⟨#[a, b, c, d, e, f], rfl⟩

def write (ret : Bytes) (address : EthernetAddress) : Bytes :=
  address.toList.foldl NetUnparser.u8 ret

end EthernetAddress

structure EthernetHeader where
  dst : EthernetAddress := .replicate 6 0
  src : EthernetAddress := .replicate 6 0
  type : UInt16 := 0
  deriving DecidableEq, Repr

namespace EthernetHeader

def LENGTH : Nat := 14

def TYPE_IPv4 : UInt16 := 0x800

def TYPE_ARP : UInt16 := 0x806

def parse (h : EthernetHeader) : StateM NetParser (ParseResult × EthernetHeader) := do
  if (← get).buffer.length < LENGTH then
    return (.packetTooShort, h)
  let dst ← EthernetAddress.read
  let src ← EthernetAddress.read
  let type ← NetParser.u16
  return ((← get).result, { dst, src, type })

def serialize (h : EthernetHeader) : Bytes :=
  let ret := EthernetAddress.write [] h.dst
  let ret := EthernetAddress.write ret h.src
  NetUnparser.u16 ret h.type

end EthernetHeader

structure EthernetFrame where
  header : EthernetHeader := {}
  payload : BufferList := {}
  deriving DecidableEq, Repr

namespace EthernetFrame

/-- The result of parsing the header is not looked at. -/
def parse (f : EthernetFrame) (buffer : Bytes) : ParseResult × EthernetFrame :=
  let parsed := (f.header.parse.run { buffer }).run
  (parsed.2.result, { header := parsed.1.2, payload := ⟨[parsed.2.buffer]⟩ })

def serialize (f : EthernetFrame) : BufferList :=
  (⟨[f.header.serialize]⟩ : BufferList).append f.payload

end EthernetFrame

section Reading

open NetParser

variable {b : Bytes}

/-- The Ethernet address at a place in a string. -/
def addressAt (b : Bytes) (k : Nat) : EthernetAddress :=
  ⟨#[byteAt b k, byteAt b (k + 1), byteAt b (k + 2), byteAt b (k + 3), byteAt b (k + 4),
    byteAt b (k + 5)], rfl⟩

theorem read_address_at {k : Nat} (h : k + 6 ≤ b.length) :
    EthernetAddress.read.run ⟨b.drop k, .noError⟩ =
      pure (addressAt b k, ⟨b.drop (k + 6), .noError⟩) := by
  simp (disch := omega) only [EthernetAddress.read, StateT.run_bind, pure_bind, u8_at,
    StateT.run_pure]
  rfl

/-- Every string is taken as a frame; one that is too short leaves the header as it was and
is all payload. -/
theorem parse_frame_short {f : EthernetFrame} (h : b.length < EthernetHeader.LENGTH) :
    f.parse b = (.noError, { header := f.header, payload := ⟨[b]⟩ }) := by
  have hrun : f.header.parse.run { buffer := b } =
      pure ((.packetTooShort, f.header), ⟨b, .noError⟩) := by
    simp [EthernetHeader.parse, h]
  rw [EthernetFrame.parse, hrun]
  rfl

theorem parse_frame {f : EthernetFrame} (h : EthernetHeader.LENGTH ≤ b.length) :
    f.parse b = (.noError,
      { header := { dst := addressAt b 0, src := addressAt b 6, type := wordAt b 12 }
        payload := ⟨[b.drop EthernetHeader.LENGTH]⟩ }) := by
  have hb : (⟨b, .noError⟩ : NetParser) = ⟨b.drop 0, .noError⟩ := rfl
  have h14 : 14 ≤ b.length := h
  have hrun : f.header.parse.run { buffer := b } =
      pure ((.noError, { dst := addressAt b 0, src := addressAt b 6, type := wordAt b 12 }),
        ⟨b.drop EthernetHeader.LENGTH, .noError⟩) := by
    simp only [EthernetHeader.parse, StateT.run_bind, StateT.run_get, pure_bind,
      if_neg (Nat.not_lt.mpr h)]
    simp (disch := omega) only [hb, read_address_at, u16_at, pure_bind, StateT.run_pure]
    rfl
  rw [EthernetFrame.parse, hrun]
  rfl

theorem EthernetFrame.parse_no_error {f : EthernetFrame} (b : Bytes) :
    (f.parse b).1 = .noError := by
  rcases Nat.lt_or_ge b.length EthernetHeader.LENGTH with hlt | hge
  · rw [parse_frame_short hlt]
  · rw [parse_frame hge]

end Reading

structure ARPMessage where
  hardwareType : UInt16 := 1
  protocolType : UInt16 := EthernetHeader.TYPE_IPv4
  hardwareAddressSize : UInt8 := 6
  protocolAddressSize : UInt8 := 4
  opcode : UInt16 := 0
  senderEthernetAddress : EthernetAddress := .replicate 6 0
  senderIpAddress : UInt32 := 0
  targetEthernetAddress : EthernetAddress := .replicate 6 0
  targetIpAddress : UInt32 := 0
  deriving DecidableEq, Repr

namespace ARPMessage

def LENGTH : Nat := 28

def TYPE_ETHERNET : UInt16 := 1

def OPCODE_REQUEST : UInt16 := 1

def OPCODE_REPLY : UInt16 := 2

def supported (m : ARPMessage) : Bool :=
  m.hardwareType = TYPE_ETHERNET ∧ m.protocolType = EthernetHeader.TYPE_IPv4 ∧
    m.hardwareAddressSize = 6 ∧ m.protocolAddressSize = 4 ∧
    (m.opcode = OPCODE_REQUEST ∨ m.opcode = OPCODE_REPLY)

/-- The message as far as it has been read, with the result. -/
def read (m : ARPMessage) : StateM NetParser (ParseResult × ARPMessage) := do
  if (← get).buffer.length < LENGTH then
    return (.packetTooShort, m)
  let m := { m with hardwareType := ← NetParser.u16 }
  let m := { m with protocolType := ← NetParser.u16 }
  let m := { m with hardwareAddressSize := ← NetParser.u8 }
  let m := { m with protocolAddressSize := ← NetParser.u8 }
  let m := { m with opcode := ← NetParser.u16 }
  if ¬ m.supported then
    return (.unsupported, m)
  let m := { m with senderEthernetAddress := ← EthernetAddress.read }
  let m := { m with senderIpAddress := ← NetParser.u32 }
  let m := { m with targetEthernetAddress := ← EthernetAddress.read }
  let m := { m with targetIpAddress := ← NetParser.u32 }
  return ((← get).result, m)

def parse (m : ARPMessage) (buffer : Bytes) : ParseResult × ARPMessage :=
  (m.read.run { buffer }).run.1

def serialize (m : ARPMessage) : Except Fault Bytes :=
  if ¬ m.supported then
    .error (.runtimeError "ARPMessage::serialize(): unsupported field combination (must be Ethernet/IP, and request or reply)")
  else
    let ret := NetUnparser.u16 [] m.hardwareType
    let ret := NetUnparser.u16 ret m.protocolType
    let ret := NetUnparser.u8 ret m.hardwareAddressSize
    let ret := NetUnparser.u8 ret m.protocolAddressSize
    let ret := NetUnparser.u16 ret m.opcode
    let ret := EthernetAddress.write ret m.senderEthernetAddress
    let ret := NetUnparser.u32 ret m.senderIpAddress
    let ret := EthernetAddress.write ret m.targetEthernetAddress
    let ret := NetUnparser.u32 ret m.targetIpAddress
    .ok ret

end ARPMessage

end Sponge
