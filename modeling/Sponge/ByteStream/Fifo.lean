import Sponge.ByteStream
import Sponge.Lib.Fifo

namespace Sponge

/-- What is done with a byte stream between its two ends. -/
inductive StreamUse where
  | write (data : Bytes)
  | read (len : Nat)
  | peekOutput (len : Nat)
  | popOutput (len : Nat)
  deriving DecidableEq, Repr

/-- A stream in use, with the bytes that writes accepted and those read or popped. -/
structure StreamSession where
  stream : ByteStream
  accepted : Bytes := []
  taken : Bytes := []

namespace StreamSession

open ByteStream

def new (capacity : Nat) : StreamSession := { stream := .new capacity }

/-- A pop returns nothing; what it took is what the buffer lost at its front. -/
def step (x : StreamSession) : StreamUse → StreamSession
  | .write data =>
    { x with
      stream := x.stream.write data
      accepted := x.accepted ++ data.take (x.stream.accepts data) }
  | .read len =>
    { x with
      stream := (x.stream.readBytes len).2
      taken := x.taken ++ (x.stream.readBytes len).1 }
  | .peekOutput _ => x
  | .popOutput len =>
    { x with
      stream := x.stream.popOutput len
      taken := x.taken ++ x.stream.buffer.take
        (x.stream.bufferSize - (x.stream.popOutput len).bufferSize) }

/-- The same, done with a queue; looking at the front takes nothing out. -/
def queueUse : StreamUse → Fifo.Use UInt8
  | .write data => .put data
  | .read len => .get len
  | .peekOutput _ => .get 0
  | .popOutput len => .get len

/-- The stream is the queue of this ledger, and its counters count what the ledger has. -/
structure Models (capacity : Nat) (x : StreamSession) (l : Fifo.Ledger UInt8) : Prop where
  size : x.stream.capacity = capacity
  bound : l.queue.bound = capacity
  content : x.stream.buffer = l.queue.content
  entered : x.accepted = l.entered
  left : x.taken = l.left
  written : x.stream.bytesWritten = x.accepted.length
  read : x.stream.bytesRead = x.taken.length

section Steps

variable {capacity : Nat} {x : StreamSession} {l : Fifo.Ledger UInt8}

theorem new_models (capacity : Nat) : (new capacity).Models capacity (.start capacity) :=
  ⟨rfl, rfl, rfl, rfl, rfl, rfl, rfl⟩

/-- A write puts in the front part of the string that fits. -/
theorem Models.accepted_part (h : x.Models capacity l) (data : Bytes) :
    data.take (x.stream.accepts data) = data.take l.queue.room := by
  rw [accepts, remainingCapacity, Fifo.room, h.size, h.bound, h.content, List.take_eq_take_iff]
  omega

theorem popped_eq_peeked (s : ByteStream) (len : Nat) :
    s.buffer.take (s.bufferSize - (s.popOutput len).bufferSize) = s.peekOutput len := by
  simp only [bufferSize, popOutput, peekOutput, List.length_drop]
  rw [List.take_eq_take_iff]
  omega

theorem Models.get (h : x.Models capacity l) (len : Nat) :
    Models capacity
      { x with stream := x.stream.popOutput len, taken := x.taken ++ x.stream.peekOutput len }
      (l.step (.get len)) where
  size := h.size
  bound := h.bound
  content := by
    simp only [popOutput, Fifo.Ledger.step, Fifo.get, ← h.content]
    rw [List.drop_eq_drop_iff]
    omega
  entered := h.entered
  left := by
    simp only [peekOutput, Fifo.Ledger.step, ← h.content, ← h.left, List.append_cancel_left_eq]
    rw [List.take_eq_take_iff]
    omega
  written := h.written
  read := by
    have hread := h.read
    simp only [bytesRead, popOutput, peekOutput, List.length_append, List.length_take] at hread ⊢
    omega

/-- Each use of the stream is the use of the queue. -/
theorem Models.step (h : x.Models capacity l) (u : StreamUse) :
    (x.step u).Models capacity (l.step (queueUse u)) := by
  cases u with
  | write data =>
    have hpart := h.accepted_part data
    refine ⟨h.size, h.bound, ?_, ?_, h.left, ?_, h.read⟩
    · simp only [StreamSession.step, ByteStream.write, queueUse, Fifo.Ledger.step, Fifo.put, hpart,
        h.content]
    · simp only [StreamSession.step, queueUse, Fifo.Ledger.step, hpart, h.entered]
    · have hwritten := h.written
      have hle : x.stream.accepts data ≤ data.length := Nat.min_le_right _ _
      simp only [bytesWritten, StreamSession.step, ByteStream.write, List.length_append,
        List.length_take] at hwritten ⊢
      omega
  | read len => exact h.get len
  | peekOutput len =>
    refine ⟨h.size, h.bound, h.content, h.entered, ?_, h.written, h.read⟩
    simpa [StreamSession.step, queueUse, Fifo.Ledger.step] using h.left
  | popOutput len =>
    simp only [StreamSession.step, popped_eq_peeked]
    exact h.get len

end Steps

/-- The stream is a bounded queue of bytes: what was taken and what is in the buffer are
what was accepted, in this order; the counters differ by what is in the buffer; and this
is within the capacity, so that the room left is not a difference below zero. -/
structure IsFifo (capacity : Nat) (x : StreamSession) : Prop where
  order : x.taken ++ x.stream.buffer = x.accepted
  counted : x.stream.bytesWritten = x.stream.bytesRead + x.stream.bufferSize
  bounded : x.stream.bufferSize ≤ capacity
  room : x.stream.remainingCapacity + x.stream.bufferSize = capacity

/-- A write takes of the string what there is room for, from its front. -/
def TakesWhatFits (x : StreamSession) : StreamUse → Prop
  | .write data =>
    x.stream.accepts data = min data.length x.stream.remainingCapacity ∧
      (x.step (.write data)).accepted =
        x.accepted ++ data.take (min data.length x.stream.remainingCapacity) ∧
      (x.step (.write data)).stream.bytesWritten =
        x.stream.bytesWritten + min data.length x.stream.remainingCapacity
  | .read _ | .peekOutput _ | .popOutput _ => True

theorem takes_what_fits (x : StreamSession) (u : StreamUse) : x.TakesWhatFits u := by
  cases u with
  | write data =>
    have hmin : x.stream.accepts data = min data.length x.stream.remainingCapacity :=
      Nat.min_comm _ _
    refine ⟨hmin, ?_, ?_⟩
    · simp only [step, hmin]
    · simp only [step, bytesWritten, ByteStream.write, hmin]
  | _ => trivial

theorem Models.is_fifo {capacity : Nat} {x : StreamSession} {l : Fifo.Ledger UInt8}
    (h : x.Models capacity l) (hl : l.Balanced) : x.IsFifo capacity := by
  have horder : x.taken ++ x.stream.buffer = x.accepted := by
    rw [h.left, h.content, h.entered]
    exact hl
  have hfits : x.stream.buffer.length ≤ capacity := by
    rw [h.content, ← h.bound]
    exact l.queue.fits
  refine ⟨horder, ?_, hfits, ?_⟩
  · rw [h.written, h.read, ← horder, List.length_append]
    rfl
  · simp only [remainingCapacity, bufferSize, h.size]
    omega

/-- Whatever is done with a stream, it is a queue bounded by its capacity, and each write
takes what fits. -/
theorem stream_is_fifo (capacity : Nat) (us : List StreamUse) :
    Run.Always step (IsFifo capacity) (new capacity) us ∧
      Run.Along step TakesWhatFits (new capacity) us := by
  refine ⟨?_, Run.along_of_forall takes_what_fits _ us⟩
  exact (Fifo.Ledger.always_balanced capacity (us.map queueUse)).simulated (R := Models capacity)
    (new_models capacity) (fun _ _ u h => h.step u) (fun _ _ h hl => h.is_fifo hl)

end StreamSession

end Sponge
