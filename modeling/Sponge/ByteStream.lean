import Mathlib.Data.List.Basic

namespace Sponge

/-- Bytes of a `std::string` or of a `Buffer`. -/
abbrev Bytes := List UInt8

/-- An in-order byte stream: bytes are written at one end and read at the
other. Nothing but the writer's own discipline stops a write after the end of
the input, as in the source. The capacity and the two counters, 64-bit in the source,
are natural numbers: a stream of 2^64 bytes is out of reach. -/
structure ByteStream where
  capacity : Nat
  written : Nat := 0
  read : Nat := 0
  buffer : Bytes := []
  inputEnd : Bool := false
  error : Bool := false
  deriving DecidableEq, Repr

namespace ByteStream

/-- The constructor `ByteStream(capacity)`. -/
def new (capacity : Nat) : ByteStream := { capacity }

def remainingCapacity (s : ByteStream) : Nat := s.capacity - s.buffer.length

def bufferSize (s : ByteStream) : Nat := s.buffer.length

def bufferEmpty (s : ByteStream) : Bool := s.buffer.length = 0

def inputEnded (s : ByteStream) : Bool := s.inputEnd

def bytesWritten (s : ByteStream) : Nat := s.written

def bytesRead (s : ByteStream) : Nat := s.read

/-- The reader has reached the end: input ended and nothing is buffered. -/
def eof (s : ByteStream) : Bool := s.inputEnded && s.bufferEmpty

/-- How many of the bytes offered a `write` takes. -/
def accepts (s : ByteStream) (data : Bytes) : Nat := min s.remainingCapacity data.length

/-- What `write` does to the stream; its return value is `accepts`. -/
def write (s : ByteStream) (data : Bytes) : ByteStream :=
  { s with
    buffer := s.buffer ++ data.take (s.accepts data)
    written := s.written + s.accepts data }

def endInput (s : ByteStream) : ByteStream := { s with inputEnd := true }

def setError (s : ByteStream) : ByteStream := { s with error := true }

def peekOutput (s : ByteStream) (len : Nat) : Bytes := s.buffer.take (min len s.buffer.length)

def popOutput (s : ByteStream) (len : Nat) : ByteStream :=
  { s with
    buffer := s.buffer.drop (min len s.buffer.length)
    read := s.read + min len s.buffer.length }

/-- A `read` is `peek_output` followed by `pop_output`. -/
def readBytes (s : ByteStream) (len : Nat) : Bytes × ByteStream :=
  (s.peekOutput len, s.popOutput len)

section Fields

variable (s : ByteStream) (data : Bytes) (len : Nat)

@[simp] theorem write_capacity : (s.write data).capacity = s.capacity := rfl

@[simp] theorem write_read : (s.write data).read = s.read := rfl

@[simp] theorem write_input_end : (s.write data).inputEnd = s.inputEnd := rfl

@[simp] theorem end_input_buffer : s.endInput.buffer = s.buffer := rfl

@[simp] theorem end_input_written : s.endInput.written = s.written := rfl

@[simp] theorem end_input_read : s.endInput.read = s.read := rfl

@[simp] theorem end_input_capacity : s.endInput.capacity = s.capacity := rfl

@[simp] theorem end_input_ends : s.endInput.inputEnd = true := rfl

@[simp] theorem pop_output_written : (s.popOutput len).written = s.written := rfl

@[simp] theorem pop_output_capacity : (s.popOutput len).capacity = s.capacity := rfl

@[simp] theorem pop_output_input_end : (s.popOutput len).inputEnd = s.inputEnd := rfl

end Fields

theorem eof_iff {s : ByteStream} :
    s.eof = true ↔ s.inputEnded = true ∧ s.bufferEmpty = true := by
  rw [eof, Bool.and_eq_true]

theorem eof_of_buffer_empty {s : ByteStream} (h : s.bufferEmpty = true) :
    s.eof = s.inputEnded := by
  rw [eof, h, Bool.and_true]

theorem end_input_of_ended {s : ByteStream} (h : s.inputEnded = true) : s.endInput = s := by
  rw [inputEnded] at h
  rw [endInput, ← h]

theorem write_of_accepts_none {s : ByteStream} {data : Bytes} (h : s.accepts data = 0) :
    s.write data = s := by
  simp [write, h]

theorem write_buffer_empty_iff {s : ByteStream} {data : Bytes} :
    (s.write data).bufferEmpty = true ↔ s.bufferEmpty = true ∧ s.accepts data = 0 := by
  have hle : s.accepts data ≤ data.length := Nat.min_le_right _ _
  simp only [bufferEmpty, write, decide_eq_true_eq, List.length_append, List.length_take,
    Nat.min_eq_left hle]
  omega

/-- The counters agree with the buffer and the buffer with the capacity. -/
structure Counted (s : ByteStream) : Prop where
  counted : s.written = s.read + s.buffer.length
  bounded : s.buffer.length ≤ s.capacity

theorem counted_new (capacity : Nat) : Counted (new capacity) :=
  ⟨rfl, Nat.zero_le _⟩

theorem accepts_all {s : ByteStream} {data : Bytes} (h : data.length ≤ s.remainingCapacity) :
    s.accepts data = data.length :=
  Nat.min_eq_right h

/-- A string that fits is written whole. -/
theorem write_all {s : ByteStream} {data : Bytes} (h : data.length ≤ s.remainingCapacity) :
    s.write data =
      { s with buffer := s.buffer ++ data, written := s.written + data.length } := by
  simp [write, accepts_all h]

theorem peek_of_prefix {s : ByteStream} {str : Bytes} (h : str <+: s.buffer) :
    s.peekOutput str.length = str := by
  rw [peekOutput, Nat.min_eq_left h.length_le]
  exact (List.prefix_iff_eq_take.mp h).symm

theorem Counted.write {s : ByteStream} (h : Counted s) (data : Bytes) : Counted (s.write data) := by
  obtain ⟨hc, hb⟩ := h
  have ha : s.accepts data ≤ s.capacity - s.buffer.length := Nat.min_le_left _ _
  have hl : s.accepts data ≤ data.length := Nat.min_le_right _ _
  constructor
  · simp only [ByteStream.write, List.length_append, List.length_take]
    omega
  · simp only [ByteStream.write, List.length_append, List.length_take]
    omega

theorem Counted.pop {s : ByteStream} (h : Counted s) (len : Nat) : Counted (s.popOutput len) := by
  obtain ⟨hc, hb⟩ := h
  constructor
  · simp only [popOutput, List.length_drop]
    omega
  · simp only [popOutput, List.length_drop]
    omega

/-- What is read and what stays buffered make up the buffer as it was. -/
theorem peek_append_pop (s : ByteStream) (len : Nat) :
    s.peekOutput len ++ (s.popOutput len).buffer = s.buffer := by
  simp [peekOutput, popOutput]

end ByteStream

end Sponge
