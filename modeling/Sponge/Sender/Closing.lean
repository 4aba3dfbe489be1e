import Sponge.Sender.Tape

namespace Sponge

namespace TCPSender

/-- FIN comes last: once it is on the tape, the stream has ended and is read to
the end, and no data byte is behind it. The slot for a zero window keeps its FIN
flag when it is used again, so the flag too tells of a FIN on the tape. -/
structure Closing (s : TCPSender) : Prop where
  ended : .fin ∈ s.tape → s.stream.inputEnd = true ∧ s.stream.buffer = []
  order : ∀ (i j : Nat) (b : UInt8),
    s.tape[i]? = some (.byte b) → s.tape[j]? = some .fin → i < j
  slot : s.zeroWinSeg.header.fin = true → .fin ∈ s.tape

theorem new_closing (capacity : Nat) (timeout : UInt16) (isn : WrappingInt32) :
    (new capacity timeout isn).Closing :=
  ⟨by simp [new, tape], by simp [new, tape], by simp [new]⟩

section Steps

variable {W : Bytes} {s : TCPSender} {seg : TCPSegment} {stream : ByteStream}

theorem Closing.send {s' : TCPSender} (h : s.Closing) (hf : Fresh s seg stream)
    (hsent : s'.sent = s.sent ++ [⟨s.nextSeqno, seg, true⟩]) (hstream : s'.stream = stream)
    (hend : stream.inputEnd = s.stream.inputEnd)
    (hfin : seg.header.fin = true → stream.eof = true)
    (hslot : s'.zeroWinSeg = s.zeroWinSeg ∨ s'.zeroWinSeg = seg) : s'.Closing := by
  have ht : s'.tape = s.tape ++ seg.symbols := tape_append_first hsent
  -- nothing is left to be sent behind a FIN
  have hnone : .fin ∈ s.tape → seg.payload = [] := by
    intro hm
    have := hf.taken
    rw [(h.ended hm).2] at this
    exact (List.append_eq_nil_iff.mp this).1
  refine ⟨?_, ?_, ?_⟩
  · intro hm
    rw [hstream, hend]
    rw [ht] at hm
    rcases List.mem_append.mp hm with hm | hm
    · have := hf.taken
      rw [(h.ended hm).2] at this
      exact ⟨(h.ended hm).1, (List.append_eq_nil_iff.mp this).2⟩
    · have heof := hfin (TCPSegment.fin_mem_symbols.mp hm)
      simp only [ByteStream.eof, ByteStream.inputEnded, ByteStream.bufferEmpty, Bool.and_eq_true,
        decide_eq_true_eq] at heof
      exact ⟨hend ▸ heof.1, List.length_eq_zero_iff.mp heof.2⟩
  · intro i j b hi hj
    rw [ht] at hi hj
    by_cases hjl : j < s.tape.length
    · rw [List.getElem?_append_left hjl] at hj
      by_cases hil : i < s.tape.length
      · rw [List.getElem?_append_left hil] at hi
        exact h.order i j b hi hj
      · rw [List.getElem?_append_right (by omega)] at hi
        exact absurd (hnone (List.mem_of_getElem? hj)) (TCPSegment.payload_of_byte hi)
    · rw [List.getElem?_append_right (by omega)] at hj
      have hlast := (TCPSegment.symbols_fin.mp hj).2
      have hlen := (List.getElem?_eq_some_iff.mp hi).1
      rw [List.length_append, TCPSegment.length_symbols] at hlen
      by_contra hge
      have hij : i = j := by omega
      rw [hij, List.getElem?_append_right (by omega), hj] at hi
      cases hi
  · intro hz
    rw [ht]
    rcases hslot with hs | hs
    · exact List.mem_append_left _ (h.slot (hs ▸ hz))
    · exact List.mem_append_right _ (TCPSegment.fin_mem_symbols.mpr (hs ▸ hz))

theorem Closing.keep {s' : TCPSender} (h : s.Closing) (ht : s'.tape = s.tape)
    (hstream : s'.stream = s.stream) (hseg : s'.zeroWinSeg = s.zeroWinSeg) : s'.Closing :=
  ⟨by rw [ht, hstream]; exact h.ended, by rw [ht]; exact h.order, by rw [ht, hseg]; exact h.slot⟩

theorem Closing.transmit (h : s.Closing) (hs : Transmits s seg stream) :
    ({ s with stream := stream }.transmit seg).Closing :=
  h.send hs.toFresh rfl rfl hs.ended hs.fin (.inl rfl)

theorem Closing.probe (h : s.Closing) (hp : Probes s seg stream) :
    ({ s with stream := stream }.probe seg).Closing := by
  refine h.send hp.toFresh rfl rfl hp.ended ?_ (.inr rfl)
  intro hfin
  rcases hp.fin hfin with ⟨-, heof⟩ | ⟨hne, hslot⟩
  · exact heof
  · -- a slot that was used for FIN is not used again: the stream is empty by then
    have hnil := hp.taken
    rw [(h.ended (h.slot hslot)).2] at hnil
    exact absurd (List.append_eq_nil_iff.mp hnil).1 hne

theorem Closing.fill_window (hc : s.Closing) (h : s.Taped W) : s.fillWindow.Closing :=
  (fill_window_preserves h hc (fun _ _ _ _ hc hs => hc.transmit hs)
    (fun _ _ _ _ hc hp => hc.probe hp)).2

theorem Closing.tick (h : s.Closing) (ms : Nat) : (s.tick ms).Closing :=
  tick_preserves h (fun _ _ _ _ _ h => h.keep rfl rfl rfl)
    (fun _ h _ => h.keep (tape_append_again rfl) rfl rfl)
    (fun _ _ _ _ h _ => h.keep (tape_append_again rfl) rfl rfl) ms

theorem Closing.ack_received (h : s.Closing) (ackno : WrappingInt32) (win : UInt16) :
    (s.ackReceived ackno win).Closing := by
  unfold ackReceived
  split
  · exact h
  · exact h.keep rfl rfl rfl

theorem Closing.end_input (h : s.Closing) : { s with stream := s.stream.endInput }.Closing :=
  ⟨fun hm => ⟨rfl, (h.ended hm).2⟩, h.order, h.slot⟩

/-- Before the end of the input there is no FIN, and writing is free. -/
theorem Closing.write (h : s.Closing) (ho : s.stream.inputEnded = false) (data : Bytes) :
    { s with stream := s.stream.write data }.Closing := by
  refine ⟨?_, h.order, h.slot⟩
  intro hm
  have := (h.ended hm).1
  rw [ByteStream.inputEnded] at ho
  rw [ho] at this
  cases this

theorem Closing.set_error (h : s.Closing) : { s with stream := s.stream.setError }.Closing :=
  ⟨h.ended, h.order, h.slot⟩

/-- All bytes written are in front of a FIN. -/
theorem Closing.length_lt_fin (h : s.Closing) (ht : s.Taped W) {f : Nat}
    (hf : s.tape[f]? = some .fin) : W.length < f := by
  have hlen := (List.getElem?_eq_some_iff.mp hf).1
  have hsyn := (ht.start 0).mpr ⟨rfl, by have := ht.length; omega⟩
  have hpos : 0 < f := by
    by_contra h0
    rw [show f = 0 by omega, hsyn] at hf
    cases hf
  have hrest : bytesOf (s.tape.drop f) = [] := by
    refine bytes_of_eq_nil fun i b hi => ?_
    rw [List.getElem?_drop] at hi
    have := h.order _ _ b hi hf
    omega
  have hW : W = bytesOf (s.tape.take f) := by
    have hbytes := ht.bytes
    rw [(h.ended (List.mem_of_getElem? hf)).2, List.append_nil, ← List.take_append_drop f s.tape,
      bytes_of_append, hrest, List.append_nil] at hbytes
    exact hbytes
  -- the SYN in front is no byte
  cases htape : s.tape.take f with
  | nil =>
    have := congrArg List.length htape
    simp only [List.length_take, List.length_nil] at this
    omega
  | cons y rest =>
    have hy : y = .syn := by
      have := congrArg (·[0]?) htape
      simpa [hpos, hsyn] using this.symm
    have hle := congrArg List.length htape
    rw [hW, htape, hy]
    have : (bytesOf rest).length ≤ rest.length := List.length_filterMap_le _ _
    simp only [List.length_take, List.length_cons] at hle
    change (bytesOf rest).length < f
    omega

end Steps

end TCPSender

end Sponge
