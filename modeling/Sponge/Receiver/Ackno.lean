import Sponge.Lib.Run
import Sponge.Reassembler.Content
import Sponge.Receiver

namespace Sponge

open StreamReassembler

namespace TCPReceiver

/-- The number of sequence numbers received, the one `ackno` stands for. -/
def received (r : TCPReceiver) : Nat :=
  if r.isnSet then r.streamOut.bytesWritten + (if r.streamOut.inputEnded then 2 else 1) else 0

theorem ackno_of_set {r : TCPReceiver} (h : r.isnSet = true) :
    r.ackno = some (wrap r.received r.isn) := by
  simp only [ackno, received, h, Bool.not_true, Bool.false_eq_true, ↓reduceIte]
  split <;> rfl

theorem ackno_eq {r : TCPReceiver} {n : WrappingInt32} (h : r.ackno = some n) :
    r.isnSet = true ∧ n = wrap r.received r.isn := by
  by_cases hset : r.isnSet = true
  · rw [ackno_of_set hset] at h
    exact ⟨hset, (Option.some.inj h).symm⟩
  · simp [ackno, hset] at h

/-- Reading from `stream_out()`. -/
def readOut (r : TCPReceiver) (len : Nat) : TCPReceiver :=
  { r with reassembler := r.reassembler.readOut len }

section Steps

variable {r : TCPReceiver}

@[simp] theorem note_syn_reassembler (r : TCPReceiver) (seg : TCPSegment) :
    (r.noteSyn seg).reassembler = r.reassembler := by
  unfold noteSyn
  split <;> rfl

/-- A SYN makes its number the initial sequence number, whatever came before. -/
@[simp] theorem segment_received_isn (r : TCPReceiver) (seg : TCPSegment) :
    (r.segmentReceived seg).isn = if seg.header.syn then seg.header.seqno else r.isn := by
  simp only [segmentReceived, noteSyn]
  split <;> split <;> rfl

@[simp] theorem segment_received_isn_set (r : TCPReceiver) (seg : TCPSegment) :
    (r.segmentReceived seg).isnSet = (seg.header.syn || r.isnSet) := by
  simp only [segmentReceived, noteSyn]
  by_cases hsyn : seg.header.syn = true
  · simp [hsyn]
  · by_cases hset : r.isnSet = true <;> simp [hsyn, hset]

theorem segment_received_onward (r : TCPReceiver) (seg : TCPSegment) :
    Onward r.streamOut (r.segmentReceived seg).streamOut := by
  have hsame : (r.noteSyn seg).streamOut = r.streamOut := by
    rw [streamOut, note_syn_reassembler, streamOut]
  rw [← hsame]
  simp only [segmentReceived]
  split
  · exact push_onward _ _ _ _
  · exact .refl _

theorem received_mono {r' : TCPReceiver} (hset : r.isnSet = true → r'.isnSet = true)
    (ho : Onward r.streamOut r'.streamOut) : r.received ≤ r'.received := by
  have hw := ho.written
  unfold received
  by_cases h : r.isnSet = true
  · rw [if_pos h, if_pos (hset h)]
    by_cases hend : r.streamOut.inputEnded = true
    · rw [if_pos hend, if_pos (show r'.streamOut.inputEnded = true from ho.ended hend)]
      exact Nat.add_le_add_right hw 2
    · rw [if_neg hend]
      exact Nat.add_le_add hw (by split <;> omega)
  · rw [if_neg h]
    exact Nat.zero_le _

theorem segment_received_mono (r : TCPReceiver) (seg : TCPSegment) :
    r.received ≤ (r.segmentReceived seg).received :=
  received_mono (fun h => by simp [h]) (segment_received_onward r seg)

end Steps

end TCPReceiver

/-- What is done with a receiver. -/
inductive ReceiverUse where
  | segment (seg : TCPSegment)
  | read (len : Nat)
  deriving DecidableEq, Repr

/-- A receiver in use, and the bytes its reader has taken so far. -/
structure ReceiverSession where
  receiver : TCPReceiver
  taken : Bytes := []

namespace ReceiverSession

def new (capacity : Nat) : ReceiverSession := { receiver := .new capacity }

def step (x : ReceiverSession) : ReceiverUse → ReceiverSession
  | .segment seg => { x with receiver := x.receiver.segmentReceived seg }
  | .read len =>
    { receiver := x.receiver.readOut len
      taken := x.taken ++ x.receiver.streamOut.peekOutput len }

/-- The acknowledgment does not move backwards: once the initial sequence number is
set it stays what it is, and the number acknowledged does not get smaller. -/
def Steady (x : ReceiverSession) (u : ReceiverUse) : Prop :=
  x.receiver.isnSet = true →
    (x.step u).receiver.isnSet = true ∧ (x.step u).receiver.isn = x.receiver.isn ∧
      x.receiver.received ≤ (x.step u).receiver.received

/-- A further SYN has the number of the one before. -/
def SameSyn (x : ReceiverSession) : ReceiverUse → Prop
  | .segment seg =>
    x.receiver.isnSet = true → seg.header.syn = true → seg.header.seqno = x.receiver.isn
  | .read _ => True

theorem steady_iff_same_syn (x : ReceiverSession) (u : ReceiverUse) :
    x.Steady u ↔ x.SameSyn u := by
  cases u with
  | read len => exact ⟨fun _ => trivial, fun _ hset => ⟨hset, rfl, Nat.le_refl _⟩⟩
  | segment seg =>
    have hmono := x.receiver.segment_received_mono seg
    constructor
    · intro h hset hsyn
      have hisn := (h hset).2.1
      simpa [step, hsyn] using hisn
    · intro h hset
      refine ⟨by simp [step, hset], ?_, hmono⟩
      simp only [step, TCPReceiver.segment_received_isn]
      split
      · exact h hset ‹_›
      · rfl

/-- The acknowledgment never moves backwards in a run just when every SYN that comes
after the first has its number. -/
theorem ackno_steady_iff_same_syn (capacity : Nat) (us : List ReceiverUse) :
    Run.Along step Steady (new capacity) us ↔ Run.Along step SameSyn (new capacity) us :=
  Run.along_congr (I := fun _ => True) trivial (fun x u _ _ => steady_iff_same_syn x u)
    (fun _ _ _ _ _ => trivial)

/-- A second SYN, one number on, sets the initial sequence number anew. -/
theorem second_syn_moves_isn :
    ¬ ∀ (capacity : Nat) (us : List ReceiverUse), Run.Along step Steady (new capacity) us := by
  intro h
  have hsecond := (h 10 [.segment { header := { syn := true, seqno := ⟨0⟩ } },
    .segment { header := { syn := true, seqno := ⟨1⟩ } }]).2.1
  rw [steady_iff_same_syn] at hsecond
  exact absurd (hsecond (by decide +kernel) rfl) (by decide +kernel)

end ReceiverSession

end Sponge
