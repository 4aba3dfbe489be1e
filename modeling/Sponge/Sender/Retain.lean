import Sponge.Lib.Cover
import Sponge.Sender.Tape

namespace Sponge

namespace TCPSender

/-- The sender can send this sequence number again: an outstanding segment has it,
or the segment sent into a zero window. -/
def holds (s : TCPSender) (i : Nat) : Prop :=
  (∃ e ∈ s.outstandingSegs.entries, e.1 ≤ i ∧ i < e.1 + e.2.lengthInSequenceSpace) ∨
    s.zeroWinSegSend = true ∧ s.zeroWinSegSeq ≤ i ∧
      i < s.zeroWinSegSeq + s.zeroWinSeg.lengthInSequenceSpace

/-- What is not with the receiver, which has the numbers below `got`, is held. At
most a full window is outstanding, and at most a byte is in the slot; a FIN flag
with the byte is left over from an earlier FIN. -/
structure Retains (got : Nat) (s : TCPSender) : Prop where
  kept : ∀ i < s.nextSeqno, i < got ∨ s.holds i
  flight : s.bytesInFlight < 2 ^ 16
  slot : s.zeroWinSeg.payload.length ≤ 1
  stale : s.zeroWinSeg.header.fin = true → ∃ f : Nat, s.tape[f]? = some .fin ∧
    (s.zeroWinSeg.payload ≠ [] → f < s.zeroWinSegSeq)

theorem new_retains (got capacity : Nat) (timeout : UInt16) (isn : WrappingInt32) :
    (new capacity timeout isn).Retains got :=
  ⟨by simp [new], by simp [new, bytesInFlight, OrdMap.total], by simp [new], by simp [new]⟩

section Steps

variable {W : Bytes} {got ack : Nat} {s s' : TCPSender} {seg : TCPSegment} {stream : ByteStream}

theorem Retains.mono {got' : Nat} (h : s.Retains got) (hle : got ≤ got') : s.Retains got' :=
  ⟨fun i hi => (h.kept i hi).imp_left (Nat.lt_of_lt_of_le · hle), h.flight, h.slot, h.stale⟩

/-- Outstanding segments end where the tape ends. -/
theorem Taped.held_end (h : s.Taped W) {e : Nat × TCPSegment}
    (he : e ∈ s.outstandingSegs.entries) : e.1 + e.2.lengthInSequenceSpace ≤ s.nextSeqno := by
  obtain ⟨hr, hne⟩ := h.held e he
  have := hr.stands.end_le hne
  rwa [TCPSegment.length_symbols, h.length] at this

theorem Taped.held_lt (h : s.Taped W) {e : Nat × TCPSegment}
    (he : e ∈ s.outstandingSegs.entries) : e.1 < s.nextSeqno := by
  have := h.held_end he
  have := TCPSegment.symbols_ne_nil.mp (h.held e he).2
  omega

theorem Taped.flight_transmit (ht : s.Taped W) :
    ({ s with stream := stream }.transmit seg).bytesInFlight =
      seg.lengthInSequenceSpace + s.bytesInFlight := by
  have htotal := OrdMap.total_insert (fun e => e.2.lengthInSequenceSpace)
    (m := s.outstandingSegs) (k := s.nextSeqno) (a := seg)
    (fun e he hk => absurd hk (Nat.ne_of_lt (ht.held_lt he)))
  exact htotal

theorem Retains.transmit (h : s.Retains got) (ht : s.Taped W) (hs : Transmits s seg stream) :
    ({ s with stream := stream }.transmit seg).Retains got := by
  have hnew : ∀ e ∈ s.outstandingSegs.entries, e.1 ≠ s.nextSeqno := fun e he =>
    Nat.ne_of_lt (ht.held_lt he)
  refine ⟨?_, ?_, h.slot, ?_⟩
  · intro i hi
    simp only [TCPSender.transmit, startTimer] at hi
    by_cases hold : i < s.nextSeqno
    · refine (h.kept i hold).imp_right (Or.imp_left ?_)
      rintro ⟨e, he, hin⟩
      exact ⟨e, OrdMap.mem_insert.mpr (.inr ⟨he, hnew e he⟩), hin⟩
    · exact .inr (.inl ⟨_, OrdMap.mem_insert.mpr (.inl rfl), by simp only; omega,
        by simp only; omega⟩)
  · have hwin := s.winSize.toNat_lt
    rw [ht.flight_transmit]
    rcases hs.room with ⟨h0, hone⟩ | hroom
    · have hnil : s.outstandingSegs.entries = [] := List.eq_nil_iff_forall_not_mem.mpr fun e he => by
        have := ht.held_lt he
        omega
      simp [bytesInFlight, OrdMap.total, hnil, hone]
    · omega
  · intro hfin
    obtain ⟨f, hf, hlt⟩ := h.stale hfin
    refine ⟨f, ?_, hlt⟩
    rw [tape_append_first (s := s) rfl, List.getElem?_append_left (List.getElem?_eq_some_iff.mp hf).1, hf]

theorem Retains.probe (h : s.Retains got) (ht : s.Taped W) (hp : Probes s seg stream) :
    ({ s with stream := stream }.probe seg).Retains got := by
  have hgrow : ({ s with stream := stream }.probe seg).tape = s.tape ++ seg.symbols :=
    tape_append_first rfl
  refine ⟨?_, h.flight, hp.small_slot, ?_⟩
  · intro i hi
    simp only [TCPSender.probe, startTimer] at hi
    by_cases hold : i < s.nextSeqno
    · rcases h.kept i hold with hgot | hheld | ⟨hz, -⟩
      · exact .inl hgot
      · exact .inr (.inl hheld)
      · rw [hp.free] at hz
        cases hz
    · exact .inr (.inr ⟨rfl, Nat.le_of_not_lt hold, hi⟩)
  · intro hfin
    rw [hgrow]
    rcases hp.fin hfin with ⟨hnil, -⟩ | ⟨-, hslot⟩
    · refine ⟨s.tape.length + (seg.lengthInSequenceSpace - 1), ?_, fun hne => absurd hnil hne⟩
      rw [List.getElem?_append_right (by omega), Nat.add_sub_cancel_left]
      exact TCPSegment.last_symbol hfin
    · obtain ⟨f, hf, -⟩ := h.stale hslot
      have hlt := (List.getElem?_eq_some_iff.mp hf).1
      refine ⟨f, by rw [List.getElem?_append_left hlt, hf], fun _ => ?_⟩
      exact ht.length ▸ hlt

/-- Steps that neither send anything new nor let anything go. -/
theorem Retains.keep (h : s.Retains got) (ht : s'.tape = s.tape)
    (hnext : s'.nextSeqno = s.nextSeqno) (hheld : s'.outstandingSegs = s.outstandingSegs)
    (hslot : s'.zeroWinSegSend = s.zeroWinSegSend) (hseq : s'.zeroWinSegSeq = s.zeroWinSegSeq)
    (hseg : s'.zeroWinSeg = s.zeroWinSeg) : s'.Retains got := by
  refine ⟨?_, ?_, hseg ▸ h.slot, ?_⟩
  · simpa only [holds, hnext, hheld, hslot, hseq, hseg] using h.kept
  · simpa only [bytesInFlight, hheld] using h.flight
  · simpa only [ht, hseq, hseg] using h.stale

/-- The receiver has nothing behind the first FIN, so an acknowledgment that lets
the slot go covers all of it. -/
theorem Retains.retire (h : s.Retains got) (ht : s.Taped W)
    (hfin : ∀ f : Nat, s.tape[f]? = some .fin → got ≤ f + 1) (hle : ack ≤ got) :
    (s.retire ack).Retains got := by
  refine ⟨?_, ?_, h.slot, h.stale⟩
  · intro i hi
    rcases h.kept i hi with hgot | ⟨e, he, hin⟩ | ⟨hz, hin⟩
    · exact .inl hgot
    · rcases mem_unacked ack he with hkeep | hgone
      · exact .inr (.inl ⟨e, hkeep, hin⟩)
      · exact .inl (by omega)
    · by_cases hack : ack > s.zeroWinSegSeq
      · refine .inl ?_
        by_cases hstale : s.zeroWinSeg.header.fin = true ∧ s.zeroWinSeg.payload ≠ []
        · obtain ⟨f, hf, hlt⟩ := h.stale hstale.1
          have := hfin f hf
          have := hlt hstale.2
          omega
        · -- the slot holds one number
          have hone : s.zeroWinSeg.lengthInSequenceSpace ≤ 1 := by
            have hslot := h.slot
            simp only [TCPSegment.lengthInSequenceSpace, ht.plain.1, Bool.false_eq_true, ↓reduceIte]
            split
            · rename_i hf
              have hnil : s.zeroWinSeg.payload = [] := by
                by_contra hne
                exact hstale ⟨hf, hne⟩
              simp [hnil]
            · omega
          omega
      · refine .inr (.inr ⟨?_, hin⟩)
        simpa only [TCPSender.retire, hack, ↓reduceIte] using hz
  · refine Nat.lt_of_le_of_lt ?_ h.flight
    exact ((unacked_sublist ack s.outstandingSegs.entries).map _).sum_le_sum (fun _ _ => Nat.zero_le _)

theorem Retains.fill_window (h : s.Retains got) (ht : s.Taped W) : s.fillWindow.Retains got :=
  (fill_window_preserves ht h (fun _ _ _ ht h hs => h.transmit ht hs)
    (fun _ _ _ ht h hp => h.probe ht hp)).2

theorem Retains.tick (h : s.Retains got) (ms : Nat) : (s.tick ms).Retains got :=
  tick_preserves h (fun _ _ _ _ _ h => h.keep rfl rfl rfl rfl rfl rfl)
    (fun _ h _ => h.keep (tape_append_again rfl) rfl rfl rfl rfl rfl)
    (fun _ _ _ _ h _ => h.keep (tape_append_again rfl) rfl rfl rfl rfl rfl) ms

end Steps

section Bound

variable {W : Bytes} {got : Nat} {s : TCPSender}

/-- Numbers behind the SYN and before any FIN are those of bytes written. -/
theorem Taped.le_of_no_fin (h : s.Taped W) {k : Nat} (hk : k ≤ s.nextSeqno)
    (hno : ∀ j < k, s.tape[j]? ≠ some .fin) : k ≤ W.length + 1 := by
  have hall : ∀ j, 1 ≤ j → j ≤ k - 1 → 1 < k → ∃ b, s.tape[j]? = some (.byte b) := fun j hj hjk hk1 =>
    (h.byte_or_fin hj (by omega)).resolve_right (hno j (by omega))
  by_cases hk1 : 1 < k
  · obtain ⟨b, hb⟩ := hall (k - 1) (by omega) (Nat.le_refl _) hk1
    have := h.byte_at (fun j hj hjk => hall j hj hjk hk1) (by omega) hb
    have := (List.getElem?_eq_some_iff.mp this).1
    omega
  · omega

/-- Short of FIN the numbers used are those of the SYN and of bytes written. -/
theorem Taped.fin_mem_tape (ht : s.Taped W) (hnext : s.stream.bytesWritten + 2 ≤ s.nextSeqno) :
    .fin ∈ s.tape := by
  by_contra hno
  have hle := ht.le_of_no_fin (Nat.le_refl s.nextSeqno)
    (fun j _ hj => hno (List.mem_of_getElem? hj))
  have := ht.written
  omega

/-- However often FIN is repeated, the numbers in use stay within a window of what
the stream needs: the receiver acknowledges nothing behind the first FIN, and
what is not acknowledged is outstanding. -/
theorem Retains.next_le (h : s.Retains got) (ht : s.Taped W)
    (hfin : ∀ f : Nat, s.tape[f]? = some .fin → got ≤ f + 1) :
    s.nextSeqno < W.length + 2 ^ 17 := by
  by_cases hex : ∃ f : Nat, s.tape[f]? = some .fin
  · have hf := Nat.find_spec hex
    have hfirst := fun j (hj : j < Nat.find hex) => Nat.find_min hex hj
    generalize Nat.find hex = f at hf hfirst
    have hlt : f < s.nextSeqno := ht.length ▸ (List.getElem?_eq_some_iff.mp hf).1
    have hf1 := ht.le_of_no_fin (Nat.le_of_lt hlt) hfirst
    have hgot := hfin f hf
    have hslot : s.zeroWinSeg.lengthInSequenceSpace ≤ 2 := by
      have := h.slot
      simp only [TCPSegment.lengthInSequenceSpace, ht.plain.1, Bool.false_eq_true, ↓reduceIte]
      split <;> omega
    have hcard : (Finset.Ico (f + 1) s.nextSeqno).card ≤
        (((s.zeroWinSegSeq, s.zeroWinSeg) :: s.outstandingSegs.entries).map
          (fun e => e.2.lengthInSequenceSpace)).sum := by
      refine card_le_of_stretches (fun e => e.1) _ fun i hi => ?_
      obtain ⟨hlo, hhi⟩ := Finset.mem_Ico.mp hi
      rcases h.kept i hhi with hgot' | ⟨e, he, hin⟩ | ⟨-, hin⟩
      · omega
      · exact ⟨e, List.mem_cons_of_mem _ he, hin⟩
      · exact ⟨_, List.mem_cons_self, hin⟩
    rw [Nat.card_Ico, List.map_cons, List.sum_cons] at hcard
    have hflight := h.flight
    simp only [bytesInFlight, OrdMap.total] at hflight hcard
    omega
  · have := ht.le_of_no_fin (Nat.le_refl _) (fun j _ hj => hex ⟨j, hj⟩)
    omega

/-- With fewer than 2^32 numbers in use, an acknowledgment of some of them is
understood. -/
theorem ack_seqno_wrap {a : Nat} (ha : a ≤ s.nextSeqno) (hn : s.nextSeqno < 2 ^ 32) :
    s.ackSeqno (wrap a s.isn) = some a := by
  simp only [ackSeqno, unwrap_wrap s.isn (Nat.lt_of_le_of_lt ha hn) hn]
  by_cases hnear : s.nextSeqno ≤ a + 2 ^ 31
  · rw [if_pos hnear, if_neg (Nat.not_lt.mpr ha)]
  · rw [if_neg hnear, if_pos (by omega), if_neg (by omega), Nat.add_sub_cancel]

theorem Retains.ack_received {a : Nat} (h : s.Retains got) (ht : s.Taped W)
    (hfin : ∀ f : Nat, s.tape[f]? = some .fin → got ≤ f + 1) (hn : s.nextSeqno < 2 ^ 32)
    (hgot : got ≤ s.nextSeqno) (ha : a ≤ got) (win : UInt16) :
    (s.ackReceived (wrap a s.isn) win).Retains got := by
  rw [ackReceived, ack_seqno_wrap (Nat.le_trans ha hgot) hn]
  exact (h.retire ht hfin ha).keep rfl rfl rfl rfl rfl rfl

end Bound

end TCPSender

end Sponge
