import Sponge.Reassembler.Session
import Sponge.Receiver.Ackno

namespace Sponge

open StreamReassembler Word64

/-- A segment of the stream `s` that begins at stream position `i`: SYN stands at the
initial sequence number and position `i` at number `i + 1`, and FIN comes with
the last byte only. The numbers it takes up are absolute sequence numbers, of 64
bits. -/
structure TCPSegment.PieceOf (s : Bytes) (isn : WrappingInt32) (i : Nat) (seg : TCPSegment) :
    Prop where
  start : seg.header.syn = true → i = 0
  inside : i + seg.payload.length ≤ s.length
  bytes : seg.payload = (s.drop i).take seg.payload.length
  fin : seg.header.fin = true → i + seg.payload.length = s.length
  number : seg.header.seqno = wrap (if seg.header.syn then 0 else i + 1) isn
  below : i + 1 < 2 ^ 64
  fits : i + 1 + seg.payload.length + (if seg.header.fin then 1 else 0) ≤ 2 ^ 64

instance (s : Bytes) (isn : WrappingInt32) (i : Nat) (seg : TCPSegment) :
    Decidable (seg.PieceOf s isn i) :=
  decidable_of_iff
    ((seg.header.syn = true → i = 0) ∧ i + seg.payload.length ≤ s.length ∧
      seg.payload = (s.drop i).take seg.payload.length ∧
      (seg.header.fin = true → i + seg.payload.length = s.length) ∧
      seg.header.seqno = wrap (if seg.header.syn then 0 else i + 1) isn ∧ i + 1 < 2 ^ 64 ∧
      i + 1 + seg.payload.length + (if seg.header.fin then 1 else 0) ≤ 2 ^ 64)
    ⟨fun h => ⟨h.1, h.2.1, h.2.2.1, h.2.2.2.1, h.2.2.2.2.1, h.2.2.2.2.2.1, h.2.2.2.2.2.2⟩,
      fun h => ⟨h.start, h.inside, h.bytes, h.fin, h.number, h.below, h.fits⟩⟩

namespace ReceiverSession

/-- A segment of the stream comes in whose absolute sequence number is within half a
lap of the bytes written, or the output is read. -/
def Near (s : Bytes) (isn : WrappingInt32) (x : ReceiverSession) : ReceiverUse → Prop
  | .segment seg => ∃ i ≤ s.length, seg.PieceOf s isn i ∧
      (if seg.header.syn then 0 else i + 1) ≤ x.receiver.streamOut.bytesWritten + (2 ^ 31 - 1) ∧
      x.receiver.streamOut.bytesWritten ≤ (if seg.header.syn then 0 else i + 1) + (2 ^ 31 - 1)
  | .read _ => True

instance (s : Bytes) (isn : WrappingInt32) (x : ReceiverSession) :
    (u : ReceiverUse) → Decidable (x.Near s isn u)
  | .segment seg => inferInstanceAs (Decidable (∃ i ≤ s.length, seg.PieceOf s isn i ∧
      (if seg.header.syn then 0 else i + 1) ≤ x.receiver.streamOut.bytesWritten + (2 ^ 31 - 1) ∧
      x.receiver.streamOut.bytesWritten ≤ (if seg.header.syn then 0 else i + 1) + (2 ^ 31 - 1)))
  | .read _ => .isTrue trivial

/-- The stream has this byte at this position, whose sequence number has 64 bits. -/
def numberedByte (s : Bytes) (k : Nat) (b : UInt8) : Prop := s[k]? = some b ∧ k + 1 < 2 ^ 64

/-- What holds of a receiver that gets segments of one stream. -/
structure Receives (s : Bytes) (isn : WrappingInt32) (x : ReceiverSession) : Prop where
  wf : x.receiver.reassembler.WellFormed
  faithful : Faithful (numberedByte s) x.taken x.receiver.reassembler
  synced : x.receiver.isnSet = true → x.receiver.isn = isn

theorem new_receives (s : Bytes) (isn : WrappingInt32) (capacity : Nat) :
    (new capacity).Receives s isn :=
  ⟨new_well_formed capacity, new_faithful _ capacity, fun h => by cases h⟩

section Steps

variable {s : Bytes} {isn : WrappingInt32} {x : ReceiverSession}

theorem Receives.written_lt (h : x.Receives s isn) :
    x.receiver.streamOut.bytesWritten < 2 ^ 64 := by
  rcases Nat.eq_zero_or_pos x.receiver.streamOut.bytesWritten with h0 | hpos
  · omega
  · obtain ⟨b, -, -, hlt⟩ := h.faithful.output_byte h.wf.counted
      (p := x.receiver.streamOut.bytesWritten - 1) (Nat.sub_lt hpos Nat.one_pos)
    omega

theorem Receives.assembled (h : x.Receives s isn) :
    x.taken ++ x.receiver.streamOut.buffer <+: s := by
  rw [List.prefix_iff_getElem?]
  intro p hp
  have := (h.faithful.output p _ (List.getElem?_eq_getElem hp)).1
  rwa [Nat.zero_add] at this

/-- The index computed for the payload is the position of its first byte, on every
lap of the sequence numbers. -/
theorem push_index_eq {r : TCPReceiver} {seg : TCPSegment} {i : Nat} (hp : seg.PieceOf s isn i)
    (hisn : r.isn = isn) (hbw : r.streamOut.bytesWritten < 2 ^ 64)
    (hhi : (if seg.header.syn then 0 else i + 1) ≤ r.streamOut.bytesWritten + (2 ^ 31 - 1))
    (hlo : r.streamOut.bytesWritten ≤ (if seg.header.syn then 0 else i + 1) + (2 ^ 31 - 1)) :
    r.pushIndex seg = i := by
  have hbelow := hp.below
  have hseqno : (if seg.header.syn then seg.header.seqno.plus 1 else seg.header.seqno) =
      wrap (i + 1) isn := by
    rw [hp.number]
    split
    · rename_i hsyn
      rw [wrap_plus, hp.start hsyn]
    · rfl
  have hnear : r.streamOut.bytesWritten < i + 1 + 2 ^ 31 ∧
      i + 1 < r.streamOut.bytesWritten + 2 ^ 31 := by
    split at hhi
    · rename_i hsyn
      simp only [hsyn, ↓reduceIte, hp.start hsyn] at hlo ⊢
      omega
    · rename_i hsyn
      simp only [hsyn, Bool.false_eq_true, ↓reduceIte] at hlo
      omega
  rw [TCPReceiver.pushIndex, hseqno, hisn, unwrap_near isn hbelow hbw hnear.1 hnear.2, sub_of_le (by omega) hbelow]
  omega

theorem Receives.step {u : ReceiverUse} (h : x.Receives s isn) (hu : x.Near s isn u) :
    (x.step u).Receives s isn := by
  cases u with
  | read len => exact ⟨h.wf.read_out len, h.faithful.read_out len, h.synced⟩
  | segment seg =>
    obtain ⟨i, -, hp, hhi, hlo⟩ := hu
    have hsynced : (x.receiver.noteSyn seg).isnSet = true →
        (x.receiver.noteSyn seg).isn = isn := by
      unfold TCPReceiver.noteSyn
      split
      · rename_i hsyn
        intro _
        simp only [hp.number, hsyn, ↓reduceIte, wrap_zero]
      · exact h.synced
    have hstream : (x.receiver.noteSyn seg).streamOut = x.receiver.streamOut := by
      simp [TCPReceiver.streamOut]
    simp only [ReceiverSession.step, TCPReceiver.segmentReceived]
    split
    · rename_i hset
      have hindex := push_index_eq hp (hsynced hset) (hstream ▸ h.written_lt)
        (hstream ▸ hhi) (hstream ▸ hlo)
      have hfits := hp.fits
      have hlt : i + seg.payload.length < 2 ^ 64 := by omega
      have hcarries : Carries (numberedByte s) seg.payload i := by
        intro t b hb
        have ht := (List.getElem?_eq_some_iff.mp hb).1
        refine ⟨?_, by omega⟩
        rw [hp.bytes, List.getElem?_take_of_lt ht, List.getElem?_drop] at hb
        exact hb
      rw [hindex, TCPReceiver.note_syn_reassembler]
      exact ⟨h.wf.push hlt _, h.faithful.push h.wf hlt hcarries _, fun _ => hsynced hset⟩
    · rename_i hset
      refine ⟨?_, ?_, hsynced⟩
      · simpa using h.wf
      · simpa using h.faithful

end Steps

/-- What a receiver that gets segments of the stream has made of them: the bytes
assembled, and what it acknowledges once the SYN has come in. -/
def Right (s : Bytes) (isn : WrappingInt32) (us : List ReceiverUse) (x : ReceiverSession) : Prop :=
  x.taken ++ x.receiver.streamOut.buffer <+: s ∧
    ((∃ seg, .segment seg ∈ us ∧ seg.header.syn = true) →
      x.receiver.ackno = some (wrap (1 + x.receiver.streamOut.bytesWritten +
        if x.receiver.streamOut.inputEnded then 1 else 0) isn))

/-- However many laps the sequence numbers have gone, a receiver that gets segments of
a stream assembles a part of its beginning, and acknowledges what it has. -/
theorem receiver_right_across_wraps (s : Bytes) (isn : WrappingInt32) (capacity : Nat)
    (us : List ReceiverUse) (h : Run.Along step (Near s isn) (new capacity) us) :
    Right s isn us (Run.final step (new capacity) us) := by
  have hinv : (Run.final step (new capacity) us).Receives s isn ∧
      ((∃ seg, .segment seg ∈ us ∧ seg.header.syn = true) →
        (Run.final step (new capacity) us).receiver.isnSet = true) := by
    refine Run.history (I := fun us => (Run.final step (new capacity) us).Receives s isn ∧
      ((∃ seg, .segment seg ∈ us ∧ seg.header.syn = true) →
        (Run.final step (new capacity) us).receiver.isnSet = true)) ?_ h ?_
    · exact ⟨new_receives s isn capacity, by simp⟩
    · rintro us u ⟨hx, hset⟩ hu
      rw [Run.final_append]
      refine ⟨hx.step hu, ?_⟩
      rintro ⟨seg, hmem, hsyn⟩
      rcases List.mem_append.mp hmem with hmem | hmem
      · have := hset ⟨seg, hmem, hsyn⟩
        cases u with
        | segment seg' => simp [ReceiverSession.step, this]
        | read len => exact this
      · rw [← List.mem_singleton.mp hmem]
        simp [ReceiverSession.step, hsyn]
  obtain ⟨hx, hset⟩ := hinv
  refine ⟨hx.assembled, fun hsyn => ?_⟩
  rw [TCPReceiver.ackno_of_set (hset hsyn), hx.synced (hset hsyn), TCPReceiver.received,
    if_pos (hset hsyn)]
  congr 2
  split <;> omega

/-- Behind initial sequence number 2^32 - 2 the numbers wrap within the first bytes: the
end comes first, then the SYN with a byte, the end again, and the middle twice. -/
theorem receiver_right_across_wraps_five :
    Right [1, 2, 3, 4, 5] ⟨4294967294⟩
      [.segment { header := { seqno := ⟨2⟩, fin := true }, payload := [4, 5] },
        .segment { header := { seqno := ⟨4294967294⟩, syn := true }, payload := [1] },
        .segment { header := { seqno := ⟨2⟩, fin := true }, payload := [4, 5] }, .read 1,
        .segment { header := { seqno := ⟨0⟩ }, payload := [2, 3] },
        .segment { header := { seqno := ⟨1⟩ }, payload := [3, 4] }]
      (Run.final step (new 10)
      [.segment { header := { seqno := ⟨2⟩, fin := true }, payload := [4, 5] },
        .segment { header := { seqno := ⟨4294967294⟩, syn := true }, payload := [1] },
        .segment { header := { seqno := ⟨2⟩, fin := true }, payload := [4, 5] }, .read 1,
        .segment { header := { seqno := ⟨0⟩ }, payload := [2, 3] },
        .segment { header := { seqno := ⟨1⟩ }, payload := [3, 4] }]) :=
  receiver_right_across_wraps _ _ 10 _ (by decide +kernel)

end ReceiverSession

end Sponge
