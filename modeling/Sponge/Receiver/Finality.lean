import Sponge.Reassembler.Session
import Sponge.Receiver.Ackno

namespace Sponge

namespace StreamReassembler

section Past

variable {r : StreamReassembler} {data : Bytes} {index : Nat} {eof : Bool}

/-- What is left of the data after the loop starts at `k` or later. -/
def Dedup.From (k : Nat) : Dedup → Prop
  | .covered => True
  | .fresh _ i _ => k ≤ i
  | .split _ i₁ _ _ i₂ _ => k ≤ i₁ ∧ k ≤ i₂

theorem Dedup.From.mono {k k' : Nat} {o : Dedup} (h : o.From k) (hle : k' ≤ k) : o.From k' := by
  cases o with
  | covered => trivial
  | fresh d i e => exact Nat.le_trans hle h
  | split d₁ i₁ e₁ d₂ i₂ e₂ => exact ⟨Nat.le_trans hle h.1, Nat.le_trans hle h.2⟩

/-- Bytes are cut off at the front, never put there. -/
theorem dedup_from (eof : Bool) (es : List (Nat × Segment)) (data : Bytes) (ib ie : Nat) (e : Bool) :
    (dedup eof es data ib ie e).From ib := by
  induction es generalizing data ib ie e with
  | nil => exact Nat.le_refl ib
  | cons p rest ih =>
    obtain ⟨k, curr⟩ := p
    simp only [dedup]
    split
    · trivial
    split
    · exact Nat.le_refl ib
    split
    · exact ih data ib ie e
    rename_i hmeet
    have hend : ib ≤ Word64.sub (Word64.add curr.data.length curr.index) 1 + 1 := by omega
    split
    · trivial
    split
    · exact (ih _ _ _ _).mono hend
    split
    · exact ih _ _ _ _
    · exact ⟨Nat.le_refl ib, hend⟩

theorem drain_full (h : r.output.remainingCapacity = 0) : r.drain = r := by
  rw [drain]
  split
  · rfl
  · rw [dif_pos h]

/-- Nothing is stored at the write position, and the stream is the one given. -/
def Still (out : ByteStream) (r : StreamReassembler) : Prop :=
  r.output = out ∧ r.substrs.find? out.bytesWritten = none

/-- A piece that is stored past the write position stays there. -/
theorem Still.store {out : ByteStream} (h : r.Still out) (hi : out.bytesWritten < index) :
    (r.store data index eof).Still out := by
  obtain ⟨hout, hnone⟩ := h
  unfold StreamReassembler.store
  split
  · exact ⟨hout, hnone⟩
  · rename_i r' d hm
    have hs := (make_room_shrunk hm).1
    have hfind : (r'.put d index eof).substrs.find? out.bytesWritten = none := by
      rw [OrdMap.find?_none_iff] at hnone ⊢
      intro e he
      cases put_mem.mp he with
      | inl hnew =>
        rw [hnew]
        exact Nat.ne_of_gt hi
      | inr hold =>
        obtain ⟨e₀, he₀, hkey, -⟩ := hs.entry e hold.1
        rw [hkey]
        exact hnone e₀ he₀
    have hsame : (r'.put d index eof).output = out := hs.output.trans hout
    rw [drain_none (hsame.symm ▸ hfind)]
    exact ⟨hsame, hfind⟩

theorem Still.push {out : ByteStream} (h : r.Still out) (hi : out.bytesWritten < index) :
    (r.pushSubstring data index eof).Still out := by
  fun_induction pushSubstring r data index eof with
  | case1 r data index eof hge => exact h
  | case2 r data index eof hwin hs => exact h
  | case3 r data index eof hwin d i hs hd => exact h
  | case4 r data index eof hwin d i hs d' i' e' hd =>
    have hle := (skip_written_within hs).2.2.1
    have hfrom := dedup_from eof r.substrs.entries d i (Word64.sub (Word64.add i d.length) 1) eof
    rw [hd] at hfrom
    have hfrom : i ≤ i' := hfrom
    exact h.store (by omega)
  | case5 r data index eof hwin d i hs d₁ i₁ e₁ d₂ i₂ e₂ hd ih₁ ih₂ =>
    have hle := (skip_written_within hs).2.2.1
    have hfrom := dedup_from eof r.substrs.entries d i (Word64.sub (Word64.add i d.length) 1) eof
    rw [hd] at hfrom
    have hfrom : i ≤ i₁ ∧ i ≤ i₂ := hfrom
    exact ih₂ (ih₁ h (by omega)) (by omega)

/-- A piece that brings no byte to the stream: all of it is written, or it starts beyond
the window, or it starts behind the first byte that is missing and that byte is not
stored. -/
def Refuses (r : StreamReassembler) (data : Bytes) (index : Nat) : Prop :=
  index + data.length ≤ r.output.bytesWritten ∨ r.windowEnd ≤ index ∨
    r.output.bytesWritten < index ∧ r.substrs.find? r.output.bytesWritten = none

instance (r : StreamReassembler) (data : Bytes) (index : Nat) : Decidable (r.Refuses data index) :=
  inferInstanceAs (Decidable (_ ∨ _ ∨ _ ∧ _))

theorem store_nothing (hend : r.output.inputEnd = true) :
    (r.store [] r.output.bytesWritten eof).output = r.output := by
  rw [store, make_room_fits _ (Nat.zero_le _)]
  simp only
  have hfind : (r.put [] r.output.bytesWritten eof).substrs.find?
      (r.put [] r.output.bytesWritten eof).output.bytesWritten =
      some ⟨eof, [], r.output.bytesWritten⟩ := by
    rw [put, OrdMap.find?_insert, if_pos rfl]
  by_cases h0 : r.output.remainingCapacity = 0
  · rw [drain_full (r := r.put [] r.output.bytesWritten eof) h0]
    rfl
  · have hout : ((r.put [] r.output.bytesWritten eof).writeWhole
        ⟨eof, [], r.output.bytesWritten⟩).output = r.output := by
      have hwrite : r.output.write [] = r.output := by
        simp [ByteStream.write, ByteStream.accepts]
      have hends := ByteStream.end_input_of_ended hend
      simp only [writeWhole, put, hwrite, hends, ite_self]
    rw [drain_whole hfind h0 (Nat.zero_le _), drain_none, hout]
    rw [hout, writeWhole, OrdMap.find?_erase]
    exact if_pos rfl

/-- An empty piece at the write position can do no more than end the stream. -/
theorem push_nothing (hend : r.output.inputEnd = true) :
    (r.pushSubstring [] r.output.bytesWritten eof).output = r.output := by
  rw [pushSubstring]
  split
  · rfl
  split
  · rfl
  · rename_i d i hs
    obtain ⟨rfl, rfl⟩ := skip_written_nil hs
    split
    · rfl
    · rename_i d' i' e' hd
      rw [dedup_empty] at hd
      split at hd
      · cases hd
        exact store_nothing hend
      · cases hd
    · rename_i hd
      rw [dedup_empty] at hd
      split at hd <;> cases hd

/-- A stream that has ended is left as it is by a piece that is refused. -/
theorem push_refused (hend : r.output.inputEnd = true) (h : r.Refuses data index) :
    (r.pushSubstring data index eof).output = r.output := by
  rcases h with hle | hwin | ⟨hlt, hnone⟩
  · by_cases hi : index < r.output.bytesWritten
    · have hskip : r.skipWritten data index = none := by
        rw [skipWritten, if_pos hi, if_pos (by omega)]
      rw [pushSubstring]
      split
      · rfl
      split
      · rfl
      · rename_i d i hs
        rw [hskip] at hs
        cases hs
    · have hnil : data = [] := List.length_eq_zero_iff.mp (by omega)
      have hindex : index = r.output.bytesWritten := by omega
      subst hnil hindex
      exact push_nothing hend
  · rw [push_beyond hwin]
  · have hstill : r.Still r.output := ⟨rfl, hnone⟩
    exact (hstill.push hlt).1

end Past

end StreamReassembler

/-- Where the stream has ended it is not written to any more, and where its end has been
read it stays read. -/
structure KeepsEnd (before later : ByteStream) : Prop where
  ended : before.inputEnded = true → later.inputEnded = true
  written : before.inputEnded = true → later.bytesWritten = before.bytesWritten
  eof : before.eof = true → later.eof = true

theorem KeepsEnd.of_same {before later : ByteStream} (h : before.inputEnded = true → later = before) :
    KeepsEnd before later := by
  refine ⟨fun he => ?_, fun he => ?_, fun he => ?_⟩
  · rwa [h he]
  · rw [h he]
  · rw [h (ByteStream.eof_iff.mp he).1]
    exact he

/-- Reading never takes the end back. -/
theorem keeps_end_pop_output (s : ByteStream) (len : Nat) : KeepsEnd s (s.popOutput len) := by
  refine ⟨id, fun _ => rfl, fun he => ?_⟩
  simp only [ByteStream.eof, ByteStream.inputEnded, ByteStream.bufferEmpty, Bool.and_eq_true,
    decide_eq_true_eq, ByteStream.popOutput, List.length_drop] at he ⊢
  exact ⟨he.1, by omega⟩

open StreamReassembler

/-- Pieces that come after the end are refused. -/
def Session.RefusedLate (x : Session) : Use → Prop :=
  OnPush (fun r data index _ => r.output.inputEnded = true → r.Refuses data index) x

instance (x : Session) (u : Use) : Decidable (x.RefusedLate u) :=
  inferInstanceAs (Decidable (Session.OnPush _ x u))

/-- Segments that come after the end have a payload that is refused; where it stands
depends on the SYN in the same segment. -/
def ReceiverSession.RefusedLate (x : ReceiverSession) : ReceiverUse → Prop
  | .segment seg => x.receiver.streamOut.inputEnded = true →
      (x.receiver.noteSyn seg).isnSet = true →
      x.receiver.reassembler.Refuses seg.payload ((x.receiver.noteSyn seg).pushIndex seg)
  | .read _ => True

instance (x : ReceiverSession) : (u : ReceiverUse) → Decidable (x.RefusedLate u)
  | .segment _ => inferInstanceAs (Decidable (_ → _ → _))
  | .read _ => .isTrue trivial

theorem TCPReceiver.segment_refused {r : TCPReceiver} {seg : TCPSegment}
    (hend : r.streamOut.inputEnded = true)
    (h : (r.noteSyn seg).isnSet = true →
      r.reassembler.Refuses seg.payload ((r.noteSyn seg).pushIndex seg)) :
    (r.segmentReceived seg).streamOut = r.streamOut := by
  rw [segmentReceived]
  split
  · rename_i hset
    simp only [streamOut, note_syn_reassembler]
    exact push_refused hend (h hset)
  · rw [streamOut, note_syn_reassembler, streamOut]

/-- The end of a stream is final, for a reassembler and for a receiver, as long as what
comes after the end has no byte for the stream. -/
theorem end_is_final (capacity : Nat) :
    (∀ us, Run.Along Session.step Session.RefusedLate (.new capacity) us →
      Run.Along Session.step
        (fun x u => KeepsEnd x.reassembler.output (x.step u).reassembler.output) (.new capacity) us) ∧
    ∀ us, Run.Along ReceiverSession.step ReceiverSession.RefusedLate (.new capacity) us →
      Run.Along ReceiverSession.step
        (fun x u => KeepsEnd x.receiver.streamOut (x.step u).receiver.streamOut) (.new capacity) us := by
  constructor
  · intro us h
    apply h.mono
    intro x u hu
    cases u with
    | push data index eof => exact .of_same (fun hend => push_refused hend (hu hend))
    | read len => exact keeps_end_pop_output _ len
  · intro us h
    apply h.mono
    intro x u hu
    cases u with
    | segment seg => exact .of_same (fun hend => TCPReceiver.segment_refused hend (hu hend))
    | read len => exact keeps_end_pop_output _ len

/-- The last segment comes again, and one that is too far ahead. -/
theorem end_is_final_repeated :
    Run.Along ReceiverSession.step
      (fun x u => KeepsEnd x.receiver.streamOut (x.step u).receiver.streamOut) (.new 8)
      [.segment { header := { syn := true } },
        .segment { header := { seqno := ⟨1⟩, fin := true }, payload := [1, 2] }, .read 2,
        .segment { header := { seqno := ⟨1⟩, fin := true }, payload := [1, 2] },
        .segment { header := { seqno := ⟨5⟩ }, payload := [9] }] :=
  (end_is_final 8).2 _ (by decide +kernel)

/-- A byte that is pushed behind the end is written. -/
theorem byte_past_end_written :
    ¬ ∀ (capacity : Nat) (us : List Use), Run.Along Session.step
      (fun x u => KeepsEnd x.reassembler.output (x.step u).reassembler.output) (.new capacity) us := by
  intro h
  have hlast := (h 4 [.push [1] 0 true, .push [2] 1 false]).2.1.written (by decide +kernel)
  revert hlast
  decide +kernel

end Sponge
