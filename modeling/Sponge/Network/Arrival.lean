import Sponge.Connection
import Sponge.Reassembler.Completion
import Sponge.Receiver.Ackno
import Sponge.Sender.Retain

namespace Sponge

open StreamReassembler Word64

/-- The tape has byte `b` for position `i` of the stream: position 0 comes behind
the SYN. -/
def tapeByte (tape : List Sym) (i : Nat) (b : UInt8) : Prop := tape[i + 1]? = some (.byte b)

/-- On the tape the stream ends at position `i`. -/
def finAt (tape : List Sym) (i : Nat) : Prop := tape[i + 1]? = some .fin

theorem tapeByte.grow {tape : List Sym} {i : Nat} {b : UInt8} (h : tapeByte tape i b)
    (ys : List Sym) : tapeByte (tape ++ ys) i b := by
  rw [tapeByte, List.getElem?_append_left (List.getElem?_eq_some_iff.mp h).1]
  exact h

theorem finAt.grow {tape : List Sym} {i : Nat} (h : finAt tape i) (ys : List Sym) :
    finAt (tape ++ ys) i := by
  rw [finAt, List.getElem?_append_left (List.getElem?_eq_some_iff.mp h).1]
  exact h

/-- What a segment hands to the reassembler is a piece of the stream on the tape. -/
structure PieceOn (tape : List Sym) (data : Bytes) (index : Nat) (eof : Bool) : Prop where
  lt : index + data.length < 2 ^ 64
  carries : Carries (tapeByte tape) data index
  ends : eof = true → finAt tape (index + data.length)

namespace TCPReceiver

/-- What a receiver has of the stream on the tape of a sender. -/
structure Receives (isn : WrappingInt32) (tape : List Sym) (taken : Bytes) (r : TCPReceiver) :
    Prop where
  wf : r.reassembler.WellFormed
  faithful : Faithful (tapeByte tape) taken r.reassembler
  marked : r.reassembler.Marked → .fin ∈ tape
  synced : r.isnSet = true → r.isn = isn ∧ tape ≠ []

theorem new_receives (isn : WrappingInt32) (capacity : Nat) :
    (new capacity).Receives isn [] [] where
  wf := new_well_formed capacity
  faithful := new_faithful _ capacity
  marked := by simp [Marked, new, StreamReassembler.new, ByteStream.new]
  synced := by simp [new]

section Facts

variable {isn : WrappingInt32} {W taken : Bytes} {s : TCPSender} {r : TCPReceiver}

theorem Receives.grow {tape : List Sym} (h : r.Receives isn tape taken) (ys : List Sym) :
    r.Receives isn (tape ++ ys) taken where
  wf := h.wf
  faithful := h.faithful.imp (fun _ _ hb => hb.grow ys)
  marked := fun hm => List.mem_append_left ys (h.marked hm)
  synced := fun hs => ⟨(h.synced hs).1, by simp [(h.synced hs).2]⟩

/-- Every position written out has a byte on the tape. -/
theorem Receives.byte_on_tape {tape : List Sym} (h : r.Receives isn tape taken) {j : Nat}
    (hj : 1 ≤ j) (hlt : j ≤ r.streamOut.bytesWritten) :
    ∃ b, (taken ++ r.streamOut.buffer)[j - 1]? = some b ∧ tape[j]? = some (.byte b) := by
  obtain ⟨b, hget, hb⟩ := h.faithful.output_byte h.wf.counted (p := j - 1)
    (show j - 1 < r.streamOut.bytesWritten by omega)
  rw [tapeByte, Nat.sub_add_cancel hj] at hb
  exact ⟨b, hget, hb⟩

/-- Nothing behind a FIN is ever received. -/
theorem Receives.le_fin (h : r.Receives isn s.tape taken) (ht : s.Taped W) {f : Nat}
    (hf : s.tape[f]? = some .fin) : r.received ≤ f + 1 := by
  have hpos : 1 ≤ f := by
    by_contra h0
    have hlen := (List.getElem?_eq_some_iff.mp hf).1
    have hzero : f = 0 := by omega
    rw [hzero, (ht.start 0).mpr ⟨rfl, by have := ht.length; omega⟩] at hf
    cases hf
  have hbehind : r.streamOut.bytesWritten < f := by
    by_contra hle
    obtain ⟨b, -, hb⟩ := h.byte_on_tape hpos (by omega)
    rw [hf] at hb
    cases hb
  unfold received
  split
  · split <;> omega
  · omega

/-- Nothing is received that was not sent. -/
theorem Receives.le_next (h : r.Receives isn s.tape taken) (ht : s.Taped W) :
    r.received ≤ s.nextSeqno := by
  by_cases hset : r.isnSet = true
  · by_cases hend : r.streamOut.inputEnded = true
    · obtain ⟨f, hf⟩ := List.getElem?_of_mem (h.marked (.inl hend))
      have := h.le_fin ht hf
      have := (List.getElem?_eq_some_iff.mp hf).1
      have := ht.length
      omega
    · simp only [received, hset, hend, ↓reduceIte]
      have hlen := ht.length
      rcases Nat.eq_zero_or_pos r.streamOut.bytesWritten with h0 | hpos
      · have := List.length_pos_iff.mpr (h.synced hset).2
        simp only [h0, Bool.false_eq_true, ↓reduceIte]
        omega
      · obtain ⟨b, -, hb⟩ := h.byte_on_tape hpos (Nat.le_refl _)
        have := (List.getElem?_eq_some_iff.mp hb).1
        simp only [Bool.false_eq_true, ↓reduceIte]
        omega
  · simp [received, hset]

theorem Receives.length {tape : List Sym} (h : r.Receives isn tape taken) :
    (taken ++ r.streamOut.buffer).length = r.streamOut.bytesWritten :=
  h.faithful.length h.wf.counted

/-- What was written out is what was written in at the other end. -/
theorem Receives.delivered (h : r.Receives isn s.tape taken) (ht : s.Taped W) :
    taken ++ r.streamOut.buffer <+: W := by
  have hget : ∀ p < r.streamOut.bytesWritten, W[p]? = (taken ++ r.streamOut.buffer)[p]? := by
    intro p hp
    obtain ⟨b, hout, hb⟩ := h.byte_on_tape (j := p + 1) (by omega) hp
    rw [Nat.add_sub_cancel] at hout
    rw [hout]
    refine ht.byte_at (i := p + 1) (fun j hj hjp => ?_) (by omega) hb
    obtain ⟨c, -, hc⟩ := h.byte_on_tape hj (show j ≤ r.streamOut.bytesWritten by omega)
    exact ⟨c, hc⟩
  rw [List.prefix_iff_getElem?]
  intro p hp
  rw [hget p (h.length ▸ hp), List.getElem?_eq_getElem hp]

theorem Receives.written_le (h : r.Receives isn s.tape taken) (ht : s.Taped W) :
    r.streamOut.bytesWritten ≤ W.length :=
  h.length ▸ (h.delivered ht).length_le

end Facts

section Arrival

variable {W taken : Bytes} {s : TCPSender} {r : TCPReceiver} {seg : TCPSegment} {q : Nat}

/-- The index computed for the payload is the right one while fewer than 2^31
bytes have been written out. -/
theorem push_index_piece (ht : s.Taped W) (hr : TCPSender.Reads s.isn s.tape q seg)
    (hisn : r.isn = s.isn) (hbw : r.streamOut.bytesWritten < 2 ^ 31) (hn : s.nextSeqno < 2 ^ 32) :
    PieceOn s.tape seg.payload (r.pushIndex seg) seg.header.fin := by
  by_cases hsyn : seg.header.syn = true
  · have hq : q = 0 := ht.syn_at_zero hr hsyn
    have hindex : r.pushIndex seg = 0 := by
      simp only [pushIndex, hsyn, ↓reduceIte, hr.number, hisn, wrap_plus, hq, Nat.zero_add]
      rw [unwrap_wrap s.isn (by omega) (by omega), if_pos (by omega)]
      rfl
    rw [hindex, hr.alone hsyn]
    refine ⟨by decide, .nil _ _, ?_⟩
    intro hfin
    have := hr.stands 1 _ (TCPSegment.symbols_fin.mpr
      ⟨hfin, by simp [TCPSegment.lengthInSequenceSpace, hsyn, hfin, hr.alone hsyn]⟩)
    rwa [hq, Nat.zero_add] at this
  by_cases hsome : seg.symbols = []
  · -- an empty segment is harmless wherever it lands
    have hzero : seg.lengthInSequenceSpace = 0 := by
      rw [← TCPSegment.length_symbols, hsome]
      rfl
    have hnil : seg.payload = [] := by
      simp only [TCPSegment.lengthInSequenceSpace] at hzero
      exact List.length_eq_zero_iff.mp (by omega)
    have hfin : seg.header.fin = false := by
      by_contra hf
      simp [TCPSegment.lengthInSequenceSpace, hf] at hzero
    have hlt : r.pushIndex seg < 2 ^ 64 := sub_lt _ _
    rw [hnil, hfin]
    exact ⟨by rwa [List.length_nil, Nat.add_zero], .nil _ _, by simp⟩
  · have hend := hr.stands.end_le hsome
    rw [TCPSegment.length_symbols, ht.length] at hend
    have hpos := TCPSegment.symbols_ne_nil.mp hsome
    have hq : 1 ≤ q := by
      by_contra h0
      have hget := List.getElem?_eq_getElem (List.length_pos_iff.mpr hsome)
      have htape := hr.stands 0 _ hget
      rw [show q + 0 = 0 by omega, (ht.start 0).mpr ⟨rfl, by omega⟩] at htape
      rw [← htape] at hget
      exact hsyn (TCPSegment.symbols_syn.mp hget).2
    have hindex : r.pushIndex seg = q - 1 := by
      simp only [pushIndex, hsyn, Bool.false_eq_true, ↓reduceIte, hr.number, hisn]
      rw [unwrap_wrap s.isn (by omega) (by omega), if_pos (by omega),
        sub_of_le hq (by omega)]
    have hlen : seg.payload.length ≤ seg.lengthInSequenceSpace := by
      simp only [TCPSegment.lengthInSequenceSpace]
      omega
    rw [hindex]
    refine ⟨by omega, ?_, ?_⟩
    · intro t b hb
      have := hr.stands _ _ (TCPSegment.symbols_byte hb)
      simp only [hsyn, Bool.false_eq_true, ↓reduceIte, Nat.zero_add] at this
      rwa [tapeByte, show q - 1 + t + 1 = q + t by omega]
    · intro hfin
      have := hr.stands seg.payload.length _ (TCPSegment.symbols_fin.mpr
        ⟨hfin, by simp [TCPSegment.lengthInSequenceSpace, hsyn, hfin]⟩)
      rwa [finAt, show q - 1 + seg.payload.length + 1 = q + seg.payload.length by omega]

/-- A SYN can only say again what the initial sequence number is. -/
theorem Receives.note_syn (h : r.Receives s.isn s.tape taken) (ht : s.Taped W)
    (hr : TCPSender.Reads s.isn s.tape q seg) : (r.noteSyn seg).Receives s.isn s.tape taken := by
  unfold noteSyn
  split
  · rename_i hsyn
    refine ⟨h.wf, h.faithful, h.marked, fun _ => ⟨?_, ?_⟩⟩
    · rw [hr.number, ht.syn_at_zero hr hsyn, wrap_zero]
    · intro hnil
      have := hr.stands 0 _ (TCPSegment.symbols_syn.mpr ⟨rfl, hsyn⟩)
      simp [hnil] at this
  · exact h

/-- A segment of the sender's is taken in as what it is, and takes nothing back. -/
theorem Receives.segment_received (h : r.Receives s.isn s.tape taken) (ht : s.Taped W)
    (hr : TCPSender.Reads s.isn s.tape q seg) (hW : W.length < 2 ^ 31)
    (hn : s.nextSeqno < 2 ^ 32) : (r.segmentReceived seg).Receives s.isn s.tape taken ∧
      r.received ≤ (r.segmentReceived seg).received := by
  refine ⟨?_, r.segment_received_mono seg⟩
  have h' := h.note_syn ht hr
  unfold segmentReceived
  generalize r.noteSyn seg = r' at h'
  simp only
  split
  · rename_i hset
    have hbw := Nat.lt_of_le_of_lt (h'.written_le ht) hW
    have hp := push_index_piece ht hr (h'.synced hset).1 hbw hn
    refine ⟨h'.wf.push hp.lt _, h'.faithful.push h'.wf hp.lt hp.carries _, ?_, h'.synced⟩
    intro hm
    rcases marked_of_push h'.wf hp.lt hm with hm | heof
    · exact h'.marked hm
    · exact List.mem_of_getElem? (hp.ends heof)
  · exact h'

end Arrival

end TCPReceiver

end Sponge
