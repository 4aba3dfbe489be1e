import Sponge.Wire.IPv4

namespace Sponge

namespace IPv4Header

open NetParser

/-- The header that stands at the front of a string. -/
def fieldsOf (b : Bytes) : IPv4Header where
  ver := byteAt b 0 >>> 4
  hlen := byteAt b 0 &&& 0x0f
  tos := byteAt b 1
  len := wordAt b 2
  id := wordAt b 4
  df := wordAt b 6 &&& 0x4000 != 0
  mf := wordAt b 6 &&& 0x2000 != 0
  offset := wordAt b 6 &&& 0x1fff
  ttl := byteAt b 8
  proto := byteAt b 9
  cksum := wordAt b 10
  src := longAt b 12
  dst := longAt b 16

theorem read_fields {b : Bytes} (h : LENGTH ≤ b.length) :
    readFields.run { buffer := b } = pure (fieldsOf b, ⟨b.drop LENGTH, .noError⟩) := by
  have hb : (⟨b, .noError⟩ : NetParser) = ⟨b.drop 0, .noError⟩ := rfl
  unfold LENGTH at h
  simp (disch := omega) only [readFields, hb, StateT.run_bind, pure_bind, u8_at, u16_at, u32_at,
    StateT.run_pure]
  rfl

/-- What `validate` asks for before it comes to the checksum. -/
def Fitting (h : IPv4Header) (b : Bytes) : Prop :=
  4 * h.hlen.toNat ≤ b.length ∧ h.ver = 4 ∧ 5 ≤ h.hlen ∧ b.length = h.len.toNat

section Validate

variable {h : IPv4Header} {b : Bytes}

/-- The options are taken off, also when the checksum is wrong. -/
theorem validate_fitting (hf : h.Fitting b) :
    (h.validate b).run ⟨b.drop LENGTH, .noError⟩ =
      pure (if (({} : InternetChecksum).add (b.take (4 * h.hlen.toNat))).value = 0 then .noError
        else .badChecksum, ⟨b.drop (4 * h.hlen.toNat), .noError⟩) := by
  obtain ⟨hfit, h4, h5, hlen⟩ := hf
  have h5' : 5 ≤ h.hlen.toNat := h5
  have hend : LENGTH + (h.hlen.toNat * 4 - LENGTH) = 4 * h.hlen.toNat := by
    unfold LENGTH
    omega
  have hskip := remove_prefix_at (b := b) (k := LENGTH) (n := h.hlen.toNat * 4 - LENGTH) (by omega)
  rw [hend] at hskip
  rw [validate, if_neg (Nat.not_lt.mpr hfit), if_neg (not_not_intro h4),
    if_neg (UInt8.not_lt.mpr h5), if_neg (not_not_intro hlen)]
  simp only [StateT.run_bind, hskip, pure_bind, StateT.run_get, error]
  by_cases hs : (({} : InternetChecksum).add (b.take (4 * h.hlen.toNat))).value = 0
  · simp [hs]
  · simp [hs]

/-- A check that fails leaves the parser where it is. -/
theorem validate_unfitting (hf : ¬ h.Fitting b) (p : NetParser) :
    ∃ res, (h.validate b).run p = pure (res, p) := by
  unfold validate
  by_cases hfit : b.length < 4 * h.hlen.toNat
  · exact ⟨_, by rw [if_pos hfit]; rfl⟩
  by_cases h4 : h.ver = 4
  · by_cases h5 : h.hlen < 5
    · exact ⟨_, by rw [if_neg hfit, if_neg (not_not_intro h4), if_pos h5]; rfl⟩
    · have hlen : b.length ≠ h.len.toNat := by
        intro hlen
        exact hf ⟨Nat.not_lt.mp hfit, h4, UInt8.not_lt.mp h5, hlen⟩
      exact ⟨_, by rw [if_neg hfit, if_neg (not_not_intro h4), if_neg h5, if_pos hlen]; rfl⟩
  · exact ⟨_, by rw [if_neg hfit, if_pos h4]; rfl⟩

end Validate

end IPv4Header

namespace IPv4Datagram

open NetParser IPv4Header

/-- The version, the length of the header in words and the length in bytes that a
string says it has. -/
def version (b : Bytes) : Nat := (byteAt b 0).toNat / 16

def headerLength (b : Bytes) : Nat := (byteAt b 0).toNat % 16

def totalLength (b : Bytes) : Nat := (byteAt b 2).toNat * 256 + (byteAt b 3).toNat

/-- What the header says fits together and fits the string. -/
def Formed (b : Bytes) : Prop :=
  version b = 4 ∧ 5 ≤ headerLength b ∧ 4 * headerLength b ≤ b.length ∧ totalLength b = b.length

instance (b : Bytes) : Decidable (Formed b) := inferInstanceAs (Decidable (_ ∧ _ ∧ _ ∧ _))

theorem Formed.long {b : Bytes} (h : Formed b) : LENGTH ≤ b.length := by
  obtain ⟨-, h5, hfit, -⟩ := h
  unfold LENGTH
  omega

/-- The checksum over the header is right. -/
def Sums (b : Bytes) : Prop :=
  (({} : InternetChecksum).add (b.take (4 * headerLength b))).value = 0

instance (b : Bytes) : Decidable (Sums b) := inferInstanceAs (Decidable (_ = _))

/-- What is behind the first twenty bytes is as long as the lengths in the header say
that the payload is. -/
def Measured (b : Bytes) : Prop :=
  b.length - LENGTH = (totalLength b + (2 ^ 16 - 4 * headerLength b)) % 2 ^ 16

instance (b : Bytes) : Decidable (Measured b) := inferInstanceAs (Decidable (_ = _))

section Parse

variable {b : Bytes}

theorem hlen_fields_of (b : Bytes) : (fieldsOf b).hlen.toNat = headerLength b := by
  simp only [fieldsOf, UInt8.toNat_and, UInt8.reduceToNat]
  exact Nat.and_two_pow_sub_one_eq_mod _ 4

theorem ver_fields_of (b : Bytes) : (fieldsOf b).ver = 4 ↔ version b = 4 := by
  have hver : (fieldsOf b).ver.toNat = version b := by
    simp [fieldsOf, version, Nat.shiftRight_eq_div_pow]
  rw [← UInt8.toNat_inj, hver]
  rfl

theorem len_fields_of (b : Bytes) : (fieldsOf b).len.toNat = totalLength b := by
  have h2 := (byteAt b 2).toNat_lt
  have h3 := (byteAt b 3).toNat_lt
  simp only [fieldsOf, wordAt, totalLength, UInt16.toNat_add, UInt16.toNat_mul,
    UInt8.toNat_toUInt16, UInt16.reduceToNat, Nat.reduceAdd]
  omega

theorem fitting_fields_of : (fieldsOf b).Fitting b ↔ Formed b := by
  have hfive : 5 ≤ (fieldsOf b).hlen ↔ 5 ≤ headerLength b := by
    rw [UInt8.le_iff_toNat_le, hlen_fields_of]
    rfl
  unfold Fitting Formed
  rw [ver_fields_of, hfive, hlen_fields_of, len_fields_of]
  omega

theorem payload_length_fields_of (b : Bytes) :
    (fieldsOf b).payloadLength.toNat =
      (totalLength b + (2 ^ 16 - 4 * headerLength b)) % 2 ^ 16 := by
  have hlt : headerLength b < 16 := Nat.mod_lt _ (by decide)
  have hword : (4 * (fieldsOf b).hlen.toUInt16).toNat = 4 * headerLength b := by
    simp only [UInt16.toNat_mul, UInt8.toNat_toUInt16, hlen_fields_of, UInt16.reduceToNat]
    omega
  rw [payloadLength, UInt16.toNat_sub, hword, len_fields_of, Nat.add_comm]

theorem drop_formed_length (hf : Formed b) :
    (b.drop (4 * headerLength b)).length = (fieldsOf b).payloadLength.toNat := by
  obtain ⟨-, -, hfit, htot⟩ := hf
  have hlt : headerLength b < 16 := Nat.mod_lt _ (by decide)
  have hmax := (fieldsOf b).len.toNat_lt
  rw [len_fields_of] at hmax
  rw [payload_length_fields_of, List.length_drop]
  omega

theorem measured_iff :
    (b.drop LENGTH).length = (fieldsOf b).payloadLength.toNat ↔ Measured b := by
  rw [payload_length_fields_of, List.length_drop, Measured]

/-- What a datagram is after `parse`, and whether it was taken, from where the header
left the parser. -/
theorem parse_of_header {d : IPv4Datagram} {res : ParseResult} {hd : IPv4Header} {rest : Bytes}
    (h : d.header.parse.run { buffer := b } = pure ((res, hd), ⟨rest, .noError⟩)) :
    d.parse b = (if rest.length = hd.payloadLength.toNat then .noError else .packetTooShort,
      { header := hd, payload := ⟨[rest]⟩ }) := by
  have hsize : (⟨[rest]⟩ : BufferList).size = rest.length := by simp [BufferList.size]
  have hrun : d.parse b =
      if (⟨[rest]⟩ : BufferList).size ≠ hd.payloadLength.toNat then
        (.packetTooShort, { header := hd, payload := ⟨[rest]⟩ })
      else (.noError, { header := hd, payload := ⟨[rest]⟩ }) := by
    rw [parse, h]
    rfl
  rw [hrun, hsize]
  by_cases hlen : rest.length = hd.payloadLength.toNat
  · simp [hlen]
  · simp [hlen]

/-- A string that is too short leaves the header as it was, and a new header tells of a
payload that is longer. -/
theorem parse_fresh_short (h : b.length < LENGTH) :
    (({} : IPv4Datagram).parse b).1 = .packetTooShort := by
  have hrun : ({} : IPv4Header).parse.run { buffer := b } =
      pure ((.packetTooShort, {}), ⟨b, .noError⟩) := by
    simp [IPv4Header.parse, h]
  have hne : b.length ≠ ({} : IPv4Header).payloadLength.toNat := by
    have hnew : ({} : IPv4Header).payloadLength.toNat = 65516 := rfl
    unfold LENGTH at h
    omega
  rw [parse_of_header hrun, if_neg hne]

/-- A formed string is read as far as its header goes; the result tells of the checksum. -/
theorem header_parse_formed (h : IPv4Header) (h20 : LENGTH ≤ b.length) (hf : Formed b) :
    h.parse.run { buffer := b } = pure ((if Sums b then .noError else .badChecksum, fieldsOf b),
      ⟨b.drop (4 * headerLength b), .noError⟩) := by
  have hval : ((fieldsOf b).validate b).run ⟨b.drop LENGTH, .noError⟩ =
      pure (if Sums b then .noError else .badChecksum, ⟨b.drop (4 * headerLength b), .noError⟩) := by
    rw [validate_fitting (fitting_fields_of.mpr hf), hlen_fields_of]
    rfl
  simp [IPv4Header.parse, Nat.not_lt.mpr h20, read_fields h20, hval]

theorem parse_formed (d : IPv4Datagram) (h : LENGTH ≤ b.length) (hf : Formed b) :
    d.parse b = (.noError,
      { header := fieldsOf b, payload := ⟨[b.drop (4 * headerLength b)]⟩ }) := by
  rw [parse_of_header (header_parse_formed d.header h hf), if_pos (drop_formed_length hf)]

theorem parse_unformed (d : IPv4Datagram) (h : LENGTH ≤ b.length) (hf : ¬ Formed b) :
    d.parse b = (if Measured b then .noError else .packetTooShort,
      { header := fieldsOf b, payload := ⟨[b.drop LENGTH]⟩ }) := by
  obtain ⟨res, hres⟩ := validate_unfitting (mt fitting_fields_of.mp hf) ⟨b.drop LENGTH, .noError⟩
  have hrun : d.header.parse.run { buffer := b } =
      pure ((res, fieldsOf b), ⟨b.drop LENGTH, .noError⟩) := by
    simp [IPv4Header.parse, Nat.not_lt.mpr h, read_fields h, hres]
  rw [parse_of_header hrun]
  simp only [measured_iff]

/-- A string that `parse` refuses, or one whose version and header length `serialize`
takes as well. -/
def Mild (b : Bytes) : Prop :=
  b.length < LENGTH ∨ (version b = 4 ∧ 5 ≤ headerLength b) ∨ ¬ Measured b

instance (b : Bytes) : Decidable (Mild b) := inferInstanceAs (Decidable (_ ∨ (_ ∧ _) ∨ _))

theorem serializable_fields_of {rest : Bytes}
    (h : rest.length = (fieldsOf b).payloadLength.toNat) :
    ({ header := fieldsOf b, payload := ⟨[rest]⟩ } : IPv4Datagram).Serializable ↔
      version b = 4 ∧ 5 ≤ headerLength b := by
  simp [Serializable, BufferList.size, h, ver_fields_of, hlen_fields_of]

/-- `parse` and `serialize` agree just about these. -/
theorem taken_serializable_iff (b : Bytes) :
    ((({} : IPv4Datagram).parse b).1 = .noError → (({} : IPv4Datagram).parse b).2.Serializable) ↔
      Mild b := by
  by_cases h : b.length < LENGTH
  · refine iff_of_true (fun hok => ?_) (.inl h)
    rw [parse_fresh_short h] at hok
    cases hok
  have h20 := Nat.not_lt.mp h
  by_cases hf : Formed b
  · refine iff_of_true (fun _ => ?_) (.inr (.inl ⟨hf.1, hf.2.1⟩))
    rw [parse_formed {} h20 hf]
    exact (serializable_fields_of (drop_formed_length hf)).mpr ⟨hf.1, hf.2.1⟩
  rw [parse_unformed {} h20 hf, Mild]
  by_cases hm : Measured b
  · rw [if_pos hm, serializable_fields_of (measured_iff.mpr hm)]
    simp [h, hm]
  · rw [if_neg hm]
    simp [hm]

end Parse

/-- `parse` takes a string just when it is a valid datagram, and then the payload is
what is behind the header. -/
def ParsedRight (b : Bytes) : Prop :=
  ((({} : IPv4Datagram).parse b).1 = .noError ↔ LENGTH ≤ b.length ∧ Formed b ∧ Sums b) ∧
    ((({} : IPv4Datagram).parse b).1 = .noError →
      (({} : IPv4Datagram).parse b).2.payload = ⟨[b.drop (4 * headerLength b)]⟩)

instance (b : Bytes) : Decidable (ParsedRight b) :=
  inferInstanceAs (Decidable ((_ ↔ _ ∧ _ ∧ _) ∧ (_ → _)))

/-- The code is right about a string that is too short, about one that is formed and has
the right checksum, and about one that is not formed if the payload does not
happen to be as long as the lengths in the header say. -/
theorem parsed_right_iff (b : Bytes) :
    ParsedRight b ↔ b.length < LENGTH ∨ (Formed b ∧ Sums b) ∨ (¬ Formed b ∧ ¬ Measured b) := by
  unfold ParsedRight
  by_cases h : b.length < LENGTH
  · rw [parse_fresh_short h]
    simp [h, Nat.not_le.mpr h]
  have h20 := Nat.not_lt.mp h
  by_cases hf : Formed b
  · rw [parse_formed {} h20 hf]
    simp [h, hf, h20]
  · rw [parse_unformed {} h20 hf]
    by_cases hm : Measured b
    · simp [h, hf, hm]
    · simp [h, hf, hm]

/-- A header of version 6 is refused, but the datagram is taken. -/
theorem wrong_version_taken : ¬ ∀ b, ParsedRight b := by
  intro h
  have hb := h [0x65, 0, 0, 20, 0, 0, 0, 0, 0, 0, 0, 0, 0, 0, 0, 0, 0, 0, 0, 0]
  revert hb
  decide +kernel

end IPv4Datagram

end Sponge
