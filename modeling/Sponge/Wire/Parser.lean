import Mathlib.Algebra.Order.Ring.Nat
import Sponge.ByteStream

namespace Sponge

/-- A string in pieces. -/
structure BufferList where
  buffers : List Bytes := []
  deriving DecidableEq, Repr

namespace BufferList

def append (b other : BufferList) : BufferList := ⟨b.buffers ++ other.buffers⟩

def size (b : BufferList) : Nat := (b.buffers.map List.length).sum

def concatenate (b : BufferList) : Bytes := b.buffers.flatten

theorem length_concatenate (b : BufferList) : b.concatenate.length = b.size := List.length_flatten

end BufferList

inductive ParseResult where
  | noError
  | badChecksum
  | packetTooShort
  | wrongIPVersion
  | headerTooShort
  | truncatedPacket
  | unsupported
  deriving DecidableEq, Repr

/-- What a call can end with other than a result. -/
inductive Fault where
  /-- a `runtime_error` is thrown -/
  | runtimeError (what : String)
  /-- an `out_of_range` is thrown by a container -/
  | outOfRange
  /-- the behaviour is not defined -/
  | undefined
  deriving DecidableEq, Repr

/-- The conversion to a `Buffer`. A string in several pieces is refused. -/
def BufferList.toBuffer (b : BufferList) : Except Fault Bytes :=
  match b.buffers with
  | [] => .ok []
  | [buffer] => .ok buffer
  | _ => .error (.runtimeError
      "BufferList: please use concatenate() to combine a multi-Buffer BufferList into one Buffer")

/-- The bytes still to be read, and the result so far: an error stays. -/
structure NetParser where
  buffer : Bytes
  result : ParseResult := .noError
  deriving DecidableEq, Repr

namespace NetParser

def checkSize (p : NetParser) (size : Nat) : NetParser :=
  if size > p.buffer.length then { p with result := .packetTooShort } else p

def error (p : NetParser) : Bool := p.result != .noError

/-- An integer of `len` bytes, the first one on top. It has `8 * len` bits, so none is
shifted out. -/
def parseInt (len : Nat) : StateM NetParser Nat := do
  modify (checkSize · len)
  let p ← get
  if p.error then
    return 0
  set { p with buffer := p.buffer.drop len }
  return (p.buffer.take len).foldl (fun ret b => (ret <<< 8) + b.toNat) 0

def u8 : StateM NetParser UInt8 := UInt8.ofNat <$> parseInt 1

def u16 : StateM NetParser UInt16 := UInt16.ofNat <$> parseInt 2

def u32 : StateM NetParser UInt32 := UInt32.ofNat <$> parseInt 4

def removePrefix (n : Nat) : StateM NetParser Unit := do
  modify (checkSize · n)
  let p ← get
  unless p.error do
    set { p with buffer := p.buffer.drop n }

/-- The byte, the 16-bit and the 32-bit number at a place in a string. -/
def byteAt (b : Bytes) (k : Nat) : UInt8 := b.getD k 0

def wordAt (b : Bytes) (k : Nat) : UInt16 :=
  (byteAt b k).toUInt16 * 256 + (byteAt b (k + 1)).toUInt16

def longAt (b : Bytes) (k : Nat) : UInt32 :=
  (((byteAt b k).toUInt32 * 256 + (byteAt b (k + 1)).toUInt32) * 256 +
    (byteAt b (k + 2)).toUInt32) * 256 + (byteAt b (k + 3)).toUInt32

theorem byte_at_zero (a : UInt8) (t : Bytes) : byteAt (a :: t) 0 = a := rfl

theorem byte_at_succ (a : UInt8) (t : Bytes) (k : Nat) : byteAt (a :: t) (k + 1) = byteAt t k := rfl

section Reading

variable {b : Bytes} {k : Nat}

theorem check_size_of_le {p : NetParser} {size : Nat} (h : size ≤ p.buffer.length) :
    p.checkSize size = p :=
  if_neg (Nat.not_lt.mpr h)

theorem take_byte (h : k < b.length) (n : Nat) :
    (b.drop k).take (n + 1) = byteAt b k :: (b.drop (k + 1)).take n := by
  rw [List.drop_eq_getElem_cons h, List.take_succ_cons, byteAt, List.getD_eq_getElem?_getD,
    List.getElem?_eq_getElem h, Option.getD_some]

theorem parse_int_at {len : Nat} (h : k + len ≤ b.length) :
    (parseInt len).run ⟨b.drop k, .noError⟩ =
      pure (((b.drop k).take len).foldl (fun ret b => (ret <<< 8) + b.toNat) 0,
        ⟨b.drop (k + len), .noError⟩) := by
  have hsize : (⟨b.drop k, .noError⟩ : NetParser).checkSize len = ⟨b.drop k, .noError⟩ :=
    check_size_of_le (by simp only [List.length_drop]; omega)
  simp [parseInt, hsize, error]

theorem u8_at (h : k + 1 ≤ b.length) :
    u8.run ⟨b.drop k, .noError⟩ = pure (byteAt b k, ⟨b.drop (k + 1), .noError⟩) := by
  rw [u8, StateT.run_map, parse_int_at h, take_byte h]
  simp

theorem u16_at (h : k + 2 ≤ b.length) :
    u16.run ⟨b.drop k, .noError⟩ = pure (wordAt b k, ⟨b.drop (k + 2), .noError⟩) := by
  rw [u16, StateT.run_map, parse_int_at h, take_byte (by omega), take_byte (by omega)]
  simp [Nat.shiftLeft_eq, wordAt]

theorem u32_at (h : k + 4 ≤ b.length) :
    u32.run ⟨b.drop k, .noError⟩ = pure (longAt b k, ⟨b.drop (k + 4), .noError⟩) := by
  rw [u32, StateT.run_map, parse_int_at h, take_byte (by omega), take_byte (by omega),
    take_byte (by omega), take_byte (by omega)]
  simp [Nat.shiftLeft_eq, longAt]

theorem remove_prefix_at {n : Nat} (hn : k + n ≤ b.length) :
    (removePrefix n).run ⟨b.drop k, .noError⟩ = pure ((), ⟨b.drop (k + n), .noError⟩) := by
  have hsize : (⟨b.drop k, .noError⟩ : NetParser).checkSize n = ⟨b.drop k, .noError⟩ :=
    check_size_of_le (by simp only [List.length_drop]; omega)
  simp [removePrefix, hsize, error]

end Reading

section Accounting

variable {α β : Type} {k l : Nat}

/-- The second program runs from where the first one leaves the parser. -/
theorem run_then (m : StateM NetParser α) (f : α → StateM NetParser β) (p : NetParser) :
    (m >>= f).run p = (f (m.run p).1).run (m.run p).2 := rfl

/-- A program that takes `k` bytes off the buffer if no error is set at its end. -/
def Reads (k : Nat) (m : StateM NetParser α) : Prop :=
  ∀ p : NetParser, (m.run p).2.result = .noError →
    p.result = .noError ∧ (m.run p).2.buffer.length + k = p.buffer.length

theorem reads_pure (a : α) : Reads 0 (pure a : StateM NetParser α) := by
  intro p h
  exact ⟨h, rfl⟩

theorem Reads.bind {m : StateM NetParser α} {f : α → StateM NetParser β} (hm : Reads k m)
    (hf : ∀ a, Reads l (f a)) : Reads (k + l) (m >>= f) := by
  intro p h
  rw [run_then] at h ⊢
  obtain ⟨hmid, hrest⟩ := hf (m.run p).1 (m.run p).2 h
  obtain ⟨hfirst, hlen⟩ := hm p hmid
  exact ⟨hfirst, by omega⟩

theorem Reads.map {m : StateM NetParser α} (hm : Reads k m) (f : α → β) : Reads k (f <$> m) :=
  hm

theorem reads_parse_int (len : Nat) : Reads len (parseInt len) := by
  intro p h
  by_cases hsize : len > p.buffer.length
  · simp [parseInt, checkSize, hsize, error] at h
  · by_cases herr : p.result = .noError
    · have hrun : (parseInt len).run p = pure (((p.buffer.take len).foldl
          (fun ret b => (ret <<< 8) + b.toNat) 0), { p with buffer := p.buffer.drop len }) := by
        simp [parseInt, checkSize, hsize, error, herr]
      rw [hrun]
      refine ⟨herr, ?_⟩
      change (p.buffer.drop len).length + len = p.buffer.length
      rw [List.length_drop]
      omega
    · have hrun : (parseInt len).run p = pure (0, p) := by
        simp [parseInt, checkSize, hsize, error, herr]
      rw [hrun] at h
      exact absurd h herr

theorem reads_u8 : Reads 1 u8 := (reads_parse_int 1).map _

theorem reads_u16 : Reads 2 u16 := (reads_parse_int 2).map _

theorem reads_u32 : Reads 4 u32 := (reads_parse_int 4).map _

theorem remove_prefix_reads (n : Nat) : Reads n (removePrefix n) := by
  intro p h
  by_cases hsize : n > p.buffer.length
  · simp [removePrefix, checkSize, hsize, error] at h
  · by_cases herr : p.result = .noError
    · have hrun : (removePrefix n).run p = pure ((), { p with buffer := p.buffer.drop n }) := by
        simp [removePrefix, checkSize, hsize, error, herr]
      rw [hrun]
      refine ⟨herr, ?_⟩
      change (p.buffer.drop n).length + n = p.buffer.length
      rw [List.length_drop]
      omega
    · have hrun : (removePrefix n).run p = pure ((), p) := by
        simp [removePrefix, checkSize, hsize, error, herr]
      rw [hrun] at h
      exact absurd h herr

end Accounting

end NetParser

namespace NetUnparser

/-- The bytes of an integer, the top one first. -/
def unparseInt (len : Nat) (s : Bytes) (val : Nat) : Bytes :=
  s ++ (List.range len).map (fun i => UInt8.ofNat ((val >>> ((len - i - 1) * 8)) &&& 0xff))

def u8 (s : Bytes) (val : UInt8) : Bytes := unparseInt 1 s val.toNat

def u16 (s : Bytes) (val : UInt16) : Bytes := unparseInt 2 s val.toNat

def u32 (s : Bytes) (val : UInt32) : Bytes := unparseInt 4 s val.toNat

/-- Byte `i` of a number, counted from the lowest. -/
def nthByte (val i : Nat) : UInt8 := UInt8.ofNat (val / 256 ^ i)

theorem unparse_int_eq (len : Nat) (s : Bytes) (val : Nat) :
    unparseInt len s val = s ++ (List.range len).map (fun i => nthByte val (len - i - 1)) := by
  unfold unparseInt nthByte
  congr 1
  apply List.map_congr_left
  intro i _
  have hlow : ∀ n, n &&& 255 = n % 256 := fun n => Nat.and_two_pow_sub_one_eq_mod n 8
  rw [hlow, Nat.shiftRight_eq_div_pow, Nat.mul_comm, Nat.pow_mul, ← UInt8.toNat_inj]
  simp

/-- The bytes of a 16-bit and of a 32-bit number. -/
def word (val : UInt16) : Bytes := [nthByte val.toNat 1, nthByte val.toNat 0]

def long (val : UInt32) : Bytes :=
  [nthByte val.toNat 3, nthByte val.toNat 2, nthByte val.toNat 1, nthByte val.toNat 0]

theorem u8_eq (s : Bytes) (val : UInt8) : u8 s val = s ++ [val] := by
  simp [u8, unparse_int_eq, nthByte]

theorem u16_eq (s : Bytes) (val : UInt16) : u16 s val = s ++ word val :=
  unparse_int_eq 2 s val.toNat

theorem u32_eq (s : Bytes) (val : UInt32) : u32 s val = s ++ long val :=
  unparse_int_eq 4 s val.toNat

/-- The bytes of a number, put together again. -/
theorem word_to_nat (val : UInt16) :
    (nthByte val.toNat 1).toNat * 256 + (nthByte val.toNat 0).toNat = val.toNat := by
  have hlt := val.toNat_lt
  simp [nthByte]
  omega

theorem word_join (val : UInt16) :
    (nthByte val.toNat 1).toUInt16 * 256 + (nthByte val.toNat 0).toUInt16 = val := by
  have hnat := word_to_nat val
  have hlt := val.toNat_lt
  rw [← UInt16.toNat_inj]
  simp only [UInt16.toNat_add, UInt16.toNat_mul, UInt8.toNat_toUInt16, UInt16.reduceToNat]
  omega

theorem long_join (val : UInt32) :
    (((nthByte val.toNat 3).toUInt32 * 256 + (nthByte val.toNat 2).toUInt32) * 256 +
      (nthByte val.toNat 1).toUInt32) * 256 + (nthByte val.toNat 0).toUInt32 = val := by
  have hlt := val.toNat_lt
  rw [← UInt32.toNat_inj]
  simp [nthByte]
  omega

/-- Bytes put together and taken apart again. -/
theorem word_split (a b : UInt8) : word (a.toUInt16 * 256 + b.toUInt16) = [a, b] := by
  have ha := a.toNat_lt
  have hb := b.toNat_lt
  simp only [word, nthByte, List.cons.injEq, and_true, ← UInt8.toNat_inj]
  simp
  omega

theorem long_split (a b c d : UInt8) :
    long (((a.toUInt32 * 256 + b.toUInt32) * 256 + c.toUInt32) * 256 + d.toUInt32) =
      [a, b, c, d] := by
  have ha := a.toNat_lt
  have hb := b.toNat_lt
  have hc := c.toNat_lt
  have hd := d.toNat_lt
  simp only [long, nthByte, List.cons.injEq, and_true, ← UInt8.toNat_inj]
  simp
  omega

/-- A number read at a place is written as the bytes that stand there. -/
theorem word_word_at {b : Bytes} {k : Nat} (h : k + 2 ≤ b.length) :
    word (NetParser.wordAt b k) = (b.drop k).take 2 := by
  rw [NetParser.wordAt, word_split, NetParser.take_byte (by omega), NetParser.take_byte (by omega),
    List.take_zero]

theorem long_long_at {b : Bytes} {k : Nat} (h : k + 4 ≤ b.length) :
    long (NetParser.longAt b k) = (b.drop k).take 4 := by
  rw [NetParser.longAt, long_split, NetParser.take_byte (by omega), NetParser.take_byte (by omega),
    NetParser.take_byte (by omega), NetParser.take_byte (by omega), List.take_zero]

end NetUnparser

/-- The Internet checksum of the bytes added so far; `parity` says that the next byte is
the lower one of its pair. -/
structure InternetChecksum where
  sum : UInt32 := 0
  parity : Bool := false
  deriving DecidableEq, Repr

namespace InternetChecksum

def addByte (c : InternetChecksum) (b : UInt8) : InternetChecksum :=
  { sum := c.sum + (if c.parity then b.toUInt32 else b.toUInt32 <<< 8)
    parity := !c.parity }

def add (c : InternetChecksum) (data : Bytes) : InternetChecksum := data.foldl addByte c

/-- Carries are added in again until there are none. -/
def fold (ret : UInt32) : UInt32 :=
  if ret > 0xffff then fold ((ret >>> 16) + (ret &&& 0xffff)) else ret
termination_by ret.toNat
decreasing_by
  rename_i h
  have h : 65535 < ret.toNat := by simpa [UInt32.lt_iff_toNat_lt] using h
  have hlow : ret.toNat &&& 65535 = ret.toNat % 65536 := Nat.and_two_pow_sub_one_eq_mod _ 16
  have hlt := ret.toNat_lt
  simp only [UInt32.toNat_add, UInt32.toNat_shiftRight, UInt32.toNat_and, UInt32.reduceToNat,
    Nat.reduceMod, Nat.reducePow, Nat.shiftRight_eq_div_pow, hlow]
  rw [Nat.mod_eq_of_lt (by omega)]
  omega

def value (c : InternetChecksum) : UInt16 := ~~~ (fold c.sum).toUInt16

end InternetChecksum

end Sponge
