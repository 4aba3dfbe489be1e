import Sponge.Lib.Cover
import Sponge.Reassembler.Accounting

namespace Sponge

/-- The positions a push brings. -/
def Use.positions : Use → Finset Nat
  | .push data index _ => Finset.Ico index (index + data.length)
  | .read _ => ∅

/-- The positions the pushes of a run bring together, whatever their order. -/
def coveredBy (us : List Use) : Finset Nat := us.foldr (fun u C => u.positions ∪ C) ∅

theorem mem_covered_by {us : List Use} {p : Nat} :
    p ∈ coveredBy us ↔ ∃ u ∈ us, p ∈ u.positions := by
  induction us with
  | nil => simp [coveredBy]
  | cons u us ih =>
    rw [coveredBy, List.foldr_cons, Finset.mem_union, ← coveredBy, ih]
    simp

theorem covered_by_append {us vs : List Use} {p : Nat} :
    p ∈ coveredBy (us ++ vs) ↔ p ∈ coveredBy us ∨ p ∈ coveredBy vs := by
  simp only [mem_covered_by, List.mem_append, or_and_right, exists_or]

namespace StreamReassembler

open Word64

/-- Nothing more can be written out. -/
def Idle (r : StreamReassembler) : Prop :=
  r.output.remainingCapacity = 0 ∨ ∀ e ∈ r.substrs.entries, e.1 ≠ r.output.bytesWritten

theorem drain_idle (r : StreamReassembler) : r.drain.Idle := by
  fun_induction drain r with
  | case1 r hf => exact .inr (OrdMap.find?_none_iff.mp hf)
  | case2 r seg hf h0 => exact .inl h0
  | case3 r seg hf h0 hge ih => exact ih
  | case4 r seg hf h0 hge ih => exact ih

theorem Idle.push {r : StreamReassembler} (h : r.Idle) (hwf : r.WellFormed) {data : Bytes}
    {index : Nat} (hlt : index + data.length < 2 ^ 64) (eof : Bool) :
    (r.pushSubstring data index eof).Idle := by
  refine (push_preserves (Q := Idle) (A := fun _ _ _ => True) (fun _ _ _ => trivial) ?_ hwf h hlt
    trivial).2
  intro r d i e _ h _ _ _
  unfold store
  split
  · exact h
  · exact drain_idle _

/-- The end of the window can be computed in 64 bits. -/
def WindowFits (r : StreamReassembler) : Prop :=
  r.output.bytesWritten + r.output.remainingCapacity < 2 ^ 64

instance (r : StreamReassembler) : Decidable r.WindowFits :=
  inferInstanceAs (Decidable (_ < _))

/-- The window can be computed, and an empty last piece is not pushed onto stored
bytes. -/
def Unwrapped (r : StreamReassembler) (data : Bytes) (index : Nat) (eof : Bool) : Prop :=
  r.WindowFits ∧ ¬ r.Overwrites data index eof

instance (r : StreamReassembler) (data : Bytes) (index : Nat) (eof : Bool) :
    Decidable (r.Unwrapped data index eof) :=
  inferInstanceAs (Decidable (_ ∧ _))

end StreamReassembler

namespace Session

open StreamReassembler Word64

/-- What holds when the capacity exceeds the stream: nothing is evicted, so the
positions had are the positions pushed. -/
structure Assembled (s : Bytes) (capacity : Nat) (us : List Use) (x : Session) : Prop extends
    Genuine s capacity x where
  accounted : x.reassembler.Accounted
  idle : x.reassembler.Idle
  had : ∀ p, x.reassembler.has p ↔ p ∈ coveredBy us

theorem new_assembled (s : Bytes) (capacity : Nat) : (new capacity).Assembled s capacity [] where
  toGenuine := ⟨new_sound capacity, new_faithful _ capacity⟩
  accounted := new_accounted capacity
  idle := .inr (by simp [new, StreamReassembler.new])
  had := by
    simp [coveredBy, has, Covered, new, StreamReassembler.new, ByteStream.new,
      ByteStream.bytesWritten]

section Assembled

variable {s : Bytes} {capacity : Nat} {us : List Use} {x : Session}

theorem Genuine.had_lt (h : x.Genuine s capacity) {p : Nat} (hp : x.reassembler.has p) :
    p < s.length := by
  rcases hp with hp | ⟨e, he, hc⟩
  · obtain ⟨b, -, hb⟩ := h.faithful.output_byte h.wf.counted hp
    exact (List.getElem?_eq_some_iff.mp hb).1
  · obtain ⟨b, -, hb⟩ := h.faithful.stored_byte he hc
    exact (List.getElem?_eq_some_iff.mp hb).1

/-- Written, stored and missing bytes are all different bytes of the stream. -/
theorem Genuine.count_le (h : x.Genuine s capacity) {data : Bytes} {index : Nat}
    (hp : index + data.length ≤ s.length) :
    x.reassembler.output.bytesWritten + x.reassembler.storedBytes +
      (x.reassembler.missing data index).card ≤ s.length := by
  have hl := h.wf.toLaid
  rw [← card_held hl]
  have hdis : Disjoint (Finset.range x.reassembler.output.bytesWritten)
      x.reassembler.heldPositions := by
    rw [Finset.disjoint_left]
    intro p hw hheld
    obtain ⟨e, he, hc⟩ := mem_held.mp hheld
    have := hl.above e he (by have := hc.1; have := hc.2; omega)
    have := hc.1
    have := Finset.mem_range.mp hw
    omega
  have hdis' : Disjoint (Finset.range x.reassembler.output.bytesWritten ∪
      x.reassembler.heldPositions) (x.reassembler.missing data index) := by
    rw [Finset.disjoint_left]
    intro p hp hm
    refine (mem_missing.mp hm).2 ?_
    rcases Finset.mem_union.mp hp with hp | hp
    · exact .inl (Finset.mem_range.mp hp)
    · exact .inr (mem_held.mp hp)
  have hsub : Finset.range x.reassembler.output.bytesWritten ∪ x.reassembler.heldPositions ∪
      x.reassembler.missing data index ⊆ Finset.range s.length := by
    intro p hp'
    rw [Finset.mem_range]
    rcases Finset.mem_union.mp hp' with hp' | hp'
    · rcases Finset.mem_union.mp hp' with hp' | hp'
      · exact h.had_lt (.inl (Finset.mem_range.mp hp'))
      · exact h.had_lt (.inr (mem_held.mp hp'))
    · have := (mem_missing.mp hp').1
      omega
  have hcard := Finset.card_le_card hsub
  rwa [Finset.card_union_of_disjoint hdis', Finset.card_union_of_disjoint hdis,
    Finset.card_range, Finset.card_range] at hcard

/-- With a capacity above the length of the stream every piece fits. -/
theorem Assembled.fits (h : x.Assembled s capacity us) (hs : s.length < capacity)
    (hc : capacity < 2 ^ 64) {data : Bytes} {index : Nat} (hp : index + data.length ≤ s.length) :
    x.reassembler.Fits data index := by
  have hcount := h.toGenuine.count_le hp
  have hbuf := h.wf.counted.counted
  rw [Fits, h.accounted.empty_size (h.limit ▸ hc), h.limit]
  simp only [ByteStream.bytesWritten, ByteStream.bufferSize] at *
  omega

theorem Genuine.written_le (h : x.Genuine s capacity) :
    x.reassembler.output.bytesWritten ≤ s.length := by
  by_contra hlt
  exact Nat.lt_irrefl _ (h.had_lt (p := s.length) (.inl (by omega)))

theorem Genuine.open (h : x.Genuine s capacity) (hs : s.length < capacity) :
    0 < x.reassembler.output.remainingCapacity := by
  have hbuf := h.wf.counted.counted
  have := h.stream
  have := h.written_le
  simp only [ByteStream.bytesWritten, ByteStream.remainingCapacity] at *
  omega

theorem Genuine.length_lt_window (h : x.Genuine s capacity) (hs : s.length < capacity)
    (hw : x.reassembler.WindowFits) : s.length < x.reassembler.windowEnd := by
  have hbuf := h.wf.counted.counted
  have := h.wf.counted.bounded
  have := h.stream
  rw [windowEnd, add_of_lt hw]
  simp only [ByteStream.bytesWritten, ByteStream.remainingCapacity] at *
  omega

/-- There is always room, so nothing is left waiting at the write position. -/
theorem Assembled.drained (h : x.Assembled s capacity us) (hs : s.length < capacity) :
    ∀ e ∈ x.reassembler.substrs.entries, e.1 ≠ x.reassembler.output.bytesWritten := by
  have hopen := h.toGenuine.open hs
  rcases h.idle with h0 | hnone
  · omega
  · exact hnone

theorem Assembled.step (h : x.Assembled s capacity us) (hs : s.length < capacity)
    (hc : capacity < 2 ^ 64) {u : Use} (hpiece : u.PieceOf s) (hu : OnPush Unwrapped x u) :
    (x.step u).Assembled s capacity (us ++ [u]) := by
  have hg := h.toGenuine.step (Nat.lt_trans hs hc) hpiece
  cases u with
  | push data index eof =>
    have hlt : index + data.length < 2 ^ 64 := Nat.lt_of_le_of_lt hpiece.1 (by omega)
    have hfit := h.fits hs hc hpiece.1
    have hcap : x.reassembler.capacity < 2 ^ 64 := h.limit ▸ hc
    have hab := push_absorbs h.wf hcap hlt hfit hu.2
    refine ⟨hg, h.accounted.push_fits h.wf hcap hlt hu.2 hfit,
      h.idle.push h.wf hlt eof, ?_⟩
    intro p
    have hnew : p ∈ coveredBy [.push data index eof] ↔ index ≤ p ∧ p < index + data.length := by
      simp [coveredBy, Use.positions]
    rw [covered_by_append, hnew, ← h.had p]
    constructor
    · exact hab.only p
    · rintro (hp | ⟨hi, hp⟩)
      · exact hab.keeps p hp
      · have := hpiece.1
        have := h.toGenuine.length_lt_window hs hu.1
        exact hab.takes p hi hp (by omega)
  | read len =>
    refine ⟨hg, h.accounted.read_out len, .inr (h.drained hs), ?_⟩
    intro p
    rw [covered_by_append, ← h.had p]
    simp [coveredBy, Use.positions, has, Session.step, readOut, ByteStream.bytesWritten]

theorem assembled_after (hs : s.length < capacity) (hc : capacity < 2 ^ 64)
    (hus : ∀ u ∈ us, u.PieceOf s) (h : Run.Along step (OnPush Unwrapped) (new capacity) us) :
    (after capacity us).Assembled s capacity us := by
  refine Run.history (I := fun us => (after capacity us).Assembled s capacity us)
    (new_assembled s capacity) (h.and_mem hus) ?_
  rintro us u ih ⟨hu, hpiece⟩
  rw [after, Run.final_append]
  exact ih.step hs hc hpiece hu

end Assembled

/-- The output is the longest part of the stream covered without a gap, and the
counter counts what is covered beyond it. -/
def Reflects (s : Bytes) (C : Finset Nat) (x : Session) : Prop :=
  x.reassembler.output.bytesWritten = coveredLength s.length C ∧
    x.taken ++ x.reassembler.output.buffer = s.take (coveredLength s.length C) ∧
    x.reassembler.unassembledBytes = (C.filter (coveredLength s.length C ≤ ·)).card

section Reflects

variable {s : Bytes} {capacity : Nat} {us : List Use} {x : Session}

theorem Assembled.written_eq (h : x.Assembled s capacity us) (hs : s.length < capacity) :
    x.reassembler.output.bytesWritten = coveredLength s.length (coveredBy us) := by
  refine (covered_length_eq h.toGenuine.written_le (fun p hp => (h.had p).mp (.inl hp)) ?_).symm
  -- a stored byte at the write position would have been written out
  intro _ hmem
  rcases (h.had _).mpr hmem with hlt | ⟨e, he, hi, hlt⟩
  · exact Nat.lt_irrefl _ hlt
  · have habove := h.wf.above e he (by omega)
    have hkey := h.wf.keyed e he
    exact h.drained hs e he (by omega)

theorem Genuine.output_eq (h : x.Genuine s capacity) :
    x.taken ++ x.reassembler.output.buffer = s.take x.reassembler.output.bytesWritten := by
  have hlen := h.faithful.length h.wf.counted
  refine List.ext_getElem? ?_
  intro p
  by_cases hp : p < x.reassembler.output.bytesWritten
  · obtain ⟨b, hget, hb⟩ := h.faithful.output_byte h.wf.counted hp
    rw [hget, List.getElem?_take_of_lt hp, hb]
  · rw [List.getElem?_eq_none (by omega), List.getElem?_eq_none (by simp; omega)]

theorem Assembled.unassembled_eq (h : x.Assembled s capacity us) :
    x.reassembler.unassembledBytes =
      ((coveredBy us).filter (x.reassembler.output.bytesWritten ≤ ·)).card := by
  rw [(h.accounted.counts_held h.wf.toLaid).1]
  congr 1
  ext p
  rw [mem_held, Finset.mem_filter, ← h.had p]
  constructor
  · rintro ⟨e, he, hc⟩
    have := h.wf.above e he (by have := hc.1; have := hc.2; omega)
    exact ⟨.inr ⟨e, he, hc⟩, Nat.le_trans this hc.1⟩
  · rintro ⟨hlt | hc, hle⟩
    · omega
    · exact hc

theorem Assembled.reflects (h : x.Assembled s capacity us) (hs : s.length < capacity) :
    x.Reflects s (coveredBy us) := by
  have hw := h.written_eq hs
  exact ⟨hw, hw ▸ h.toGenuine.output_eq, hw ▸ h.unassembled_eq⟩

end Reflects

/-- With a capacity above the length of the stream, and as long as the window can
be computed in 64 bits, the output depends on the set of positions pushed
alone; two runs that push the same positions agree. -/
theorem output_reflects_coverage (s : Bytes) (capacity : Nat) (us : List Use)
    (hs : s.length < capacity) (hc : capacity < 2 ^ 64) (hus : ∀ u ∈ us, u.PieceOf s)
    (h : Run.Along step (OnPush Unwrapped) (new capacity) us) :
    (after capacity us).Reflects s (coveredBy us) ∧
      ∀ vs : List Use, (∀ v ∈ vs, v.PieceOf s) →
        Run.Along step (OnPush Unwrapped) (new capacity) vs → coveredBy vs = coveredBy us →
        (after capacity vs).reassembler.output.bytesWritten =
            (after capacity us).reassembler.output.bytesWritten ∧
          (after capacity vs).taken ++ (after capacity vs).reassembler.output.buffer =
            (after capacity us).taken ++ (after capacity us).reassembler.output.buffer ∧
          (after capacity vs).reassembler.unassembledBytes =
            (after capacity us).reassembler.unassembledBytes := by
  have hu := (assembled_after hs hc hus h).reflects hs
  refine ⟨hu, ?_⟩
  intro vs hvs h' heq
  have hv := (assembled_after hs hc hvs h').reflects hs
  rw [heq] at hv
  exact ⟨hv.1.trans hu.1.symm, hv.2.1.trans hu.2.1.symm, hv.2.2.trans hu.2.2.symm⟩

/-- Three overlapping pieces out of order, and a read in between. -/
theorem output_reflects_coverage_six :
    (after 6 [.push [4] 3 false, .push [1, 2] 0 false, .read 1, .push [4, 5] 3 true]).Reflects
      [1, 2, 3, 4, 5] {0, 1, 3, 4} :=
  (output_reflects_coverage [1, 2, 3, 4, 5] 6
    [.push [4] 3 false, .push [1, 2] 0 false, .read 1, .push [4, 5] 3 true] (by decide)
    (by decide) (by decide) (by decide +kernel)).1

/-- With the largest capacity a single read makes `bytes_written() +
remaining_capacity()` wrap to zero, and every later piece is refused. -/
theorem wrapped_window_refuses :
    ¬ ∀ (s : Bytes) (capacity : Nat) (us : List Use), s.length < capacity → capacity < 2 ^ 64 →
      (∀ u ∈ us, u.PieceOf s) → (after capacity us).Reflects s (coveredBy us) := by
  intro h
  have hwritten := (h [1, 2] (2 ^ 64 - 1) [.push [1] 0 false, .read 1, .push [2] 1 true]
    (by decide) (by decide) (by decide)).1
  revert hwritten
  decide +kernel

end Session

end Sponge
