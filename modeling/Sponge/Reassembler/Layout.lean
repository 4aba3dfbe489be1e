import Sponge.Reassembler.Dedup

namespace Sponge.StreamReassembler

open Word64

/-- How the stored segments lie: each under its own index, no position in two
of them, and no byte in them that has been written out already. Segments
without bytes may lie anywhere. -/
structure Laid (r : StreamReassembler) : Prop where
  keyed : ∀ e ∈ r.substrs.entries, e.2.index = e.1
  fits : ∀ e ∈ r.substrs.entries, e.2.index + e.2.data.length < 2 ^ 64
  apart : ∀ a ∈ r.substrs.entries, ∀ b ∈ r.substrs.entries, ∀ p,
    a.2.covers p → b.2.covers p → a = b
  above : ∀ e ∈ r.substrs.entries, 0 < e.2.data.length → r.output.bytesWritten ≤ e.2.index
  counted : r.output.Counted

/-- Between two calls there is also no empty segment at position zero, the only
one whose last position would wrap round. -/
structure WellFormed (r : StreamReassembler) : Prop extends Laid r where
  nonzero : ∀ e ∈ r.substrs.entries, 0 < e.2.index + e.2.data.length

theorem WellFormed.placed {r : StreamReassembler} (h : r.WellFormed) :
    ∀ e ∈ r.substrs.entries, Placed e.2 :=
  fun e he => ⟨h.fits e he, h.nonzero e he⟩

/-- The position has been received and not been dropped: it is written out or
held in a stored segment. -/
def has (r : StreamReassembler) (p : Nat) : Prop :=
  p < r.output.bytesWritten ∨ Covered r.substrs.entries p

instance (r : StreamReassembler) (p : Nat) : Decidable (r.has p) :=
  inferInstanceAs (Decidable (_ ∨ _))

theorem new_well_formed (capacity : Nat) : (new capacity).WellFormed where
  keyed := by simp [new]
  fits := by simp [new]
  apart := by simp [new]
  above := by simp [new]
  counted := ByteStream.counted_new capacity
  nonzero := by simp [new]

section WriteOut

variable {r : StreamReassembler} {seg : Segment}

theorem write_whole_written (hle : seg.data.length ≤ r.output.remainingCapacity) :
    (r.writeWhole seg).output.bytesWritten = r.output.bytesWritten + seg.data.length := by
  simp only [writeWhole, ByteStream.bytesWritten, ByteStream.write_all hle]
  split <;> rfl

theorem write_part_written (hlt : r.output.remainingCapacity < seg.data.length) :
    (r.writePart seg).output.bytesWritten =
      r.output.bytesWritten + r.output.remainingCapacity := by
  have hw : (seg.data.take r.output.remainingCapacity).length ≤ r.output.remainingCapacity := by
    simp
  simp only [writePart, ByteStream.bytesWritten, ByteStream.write_all hw, List.length_take]
  omega

/-- Everything stored besides the segment at the write position starts behind
that segment. -/
theorem Laid.beyond (h : r.Laid)
    (hf : r.substrs.find? r.output.bytesWritten = some seg) {e : Nat × Segment}
    (he : e ∈ r.substrs.entries) (hk : e.1 ≠ r.output.bytesWritten) (hp : 0 < e.2.data.length) :
    r.output.bytesWritten + seg.data.length ≤ e.2.index := by
  have hm := OrdMap.mem_of_find? hf
  have hi : seg.index = r.output.bytesWritten := h.keyed _ hm
  have ha := h.above e he hp
  by_contra hlt
  have hc : seg.covers e.2.index := ⟨by omega, by omega⟩
  exact hk (congrArg Prod.fst (h.apart _ hm e he _ hc (Segment.covers_index hp))).symm

theorem Laid.write_whole (h : r.Laid)
    (hf : r.substrs.find? r.output.bytesWritten = some seg)
    (hle : seg.data.length ≤ r.output.remainingCapacity) : (r.writeWhole seg).Laid := by
  have hsub : ∀ e ∈ (r.writeWhole seg).substrs.entries,
      e ∈ r.substrs.entries ∧ e.1 ≠ r.output.bytesWritten :=
    fun e he => OrdMap.mem_erase.mp he
  refine ⟨fun e he => h.keyed e (hsub e he).1, fun e he => h.fits e (hsub e he).1,
    fun a ha b hb => h.apart a (hsub a ha).1 b (hsub b hb).1, ?_, ?_⟩
  · intro e he hp
    rw [write_whole_written hle]
    exact h.beyond hf (hsub e he).1 (hsub e he).2 hp
  · have hw := h.counted.write seg.data
    simp only [writeWhole]
    split
    · exact ⟨hw.counted, hw.bounded⟩
    · exact hw

theorem Laid.write_part (h : r.Laid)
    (hf : r.substrs.find? r.output.bytesWritten = some seg)
    (hlt : r.output.remainingCapacity < seg.data.length) : (r.writePart seg).Laid := by
  have hm := OrdMap.mem_of_find? hf
  have hi : seg.index = r.output.bytesWritten := h.keyed _ hm
  have hfit : seg.index + seg.data.length < 2 ^ 64 := h.fits _ hm
  have hsub : ∀ e ∈ (r.writePart seg).substrs.entries,
      e = (seg.index + r.output.remainingCapacity,
        { seg with index := seg.index + r.output.remainingCapacity,
                   data := seg.data.drop r.output.remainingCapacity }) ∨
      (e ∈ r.substrs.entries ∧ e.1 ≠ r.output.bytesWritten) := by
    intro e he
    rcases OrdMap.mem_insert.mp he with he | ⟨he, -⟩
    · exact .inl he
    · exact .inr (OrdMap.mem_erase.mp he)
  -- a position of the stored rest is one of the segment it was cut from
  have hcut : ∀ p, (⟨seg.eof, seg.data.drop r.output.remainingCapacity,
      seg.index + r.output.remainingCapacity⟩ : Segment).covers p → seg.covers p := by
    intro p hp
    simp only [Segment.covers, List.length_drop] at hp ⊢
    omega
  refine ⟨?_, ?_, ?_, ?_, h.counted.write _⟩
  · intro e he
    rcases hsub e he with rfl | ⟨he, -⟩
    · rfl
    · exact h.keyed e he
  · intro e he
    rcases hsub e he with rfl | ⟨he, -⟩
    · simp only [List.length_drop]
      omega
    · exact h.fits e he
  · intro a ha b hb p hpa hpb
    rcases hsub a ha with rfl | ⟨ha, hka⟩ <;> rcases hsub b hb with rfl | ⟨hb, hkb⟩
    · rfl
    · exact absurd (congrArg Prod.fst (h.apart _ hm b hb p (hcut p hpa) hpb)).symm hkb
    · exact absurd (congrArg Prod.fst (h.apart _ hm a ha p (hcut p hpb) hpa)).symm hka
    · exact h.apart a ha b hb p hpa hpb
  · intro e he hp
    rw [write_part_written hlt]
    rcases hsub e he with rfl | ⟨he, hk⟩
    · simp only
      omega
    · have := h.beyond hf he hk hp
      omega

theorem write_whole_has (h : r.Laid)
    (hf : r.substrs.find? r.output.bytesWritten = some seg)
    (hle : seg.data.length ≤ r.output.remainingCapacity) (p : Nat) :
    (r.writeWhole seg).has p ↔ r.has p := by
  have hm := OrdMap.mem_of_find? hf
  have hi : seg.index = r.output.bytesWritten := h.keyed _ hm
  simp only [has, write_whole_written hle]
  constructor
  · rintro (hp | ⟨e, he, hc⟩)
    · by_cases hp' : p < r.output.bytesWritten
      · exact .inl hp'
      · exact .inr ⟨_, hm, by simp only [Segment.covers]; omega⟩
    · exact .inr ⟨e, (OrdMap.mem_erase.mp he).1, hc⟩
  · rintro (hp | ⟨e, he, hc⟩)
    · exact .inl (by omega)
    · rcases OrdMap.eq_or_key_ne hf he with rfl | hk
      · simp only [Segment.covers] at hc
        exact .inl (by omega)
      · exact .inr ⟨e, OrdMap.mem_erase.mpr ⟨he, hk⟩, hc⟩

theorem write_part_has (h : r.Laid)
    (hf : r.substrs.find? r.output.bytesWritten = some seg)
    (hlt : r.output.remainingCapacity < seg.data.length) (p : Nat) :
    (r.writePart seg).has p ↔ r.has p := by
  have hm := OrdMap.mem_of_find? hf
  have hi : seg.index = r.output.bytesWritten := h.keyed _ hm
  simp only [has, write_part_written hlt]
  constructor
  · rintro (hp | ⟨e, he, hc⟩)
    · by_cases hp' : p < r.output.bytesWritten
      · exact .inl hp'
      · exact .inr ⟨_, hm, by simp only [Segment.covers]; omega⟩
    · rcases OrdMap.mem_insert.mp he with rfl | ⟨he, -⟩
      · refine .inr ⟨_, hm, ?_⟩
        simp only [Segment.covers, List.length_drop] at hc ⊢
        omega
      · exact .inr ⟨e, (OrdMap.mem_erase.mp he).1, hc⟩
  · rintro (hp | ⟨e, he, hc⟩)
    · exact .inl (by omega)
    · rcases OrdMap.eq_or_key_ne hf he with rfl | hk
      · simp only [Segment.covers] at hc
        by_cases hp : p < r.output.bytesWritten + r.output.remainingCapacity
        · exact .inl hp
        · refine .inr ⟨_, OrdMap.mem_insert.mpr (.inl rfl), ?_⟩
          simp only [Segment.covers, List.length_drop]
          omega
      · refine .inr ⟨e, OrdMap.mem_insert.mpr (.inr ⟨OrdMap.mem_erase.mpr ⟨he, hk⟩, ?_⟩), hc⟩
        have := h.beyond hf he hk (by simp only [Segment.covers] at hc; omega)
        have := h.keyed e he
        omega

end WriteOut

/-- The induction rule for the write-out loop: what both kinds of write
preserve, the loop preserves. -/
theorem drain_preserves {Q : StreamReassembler → Prop} {r : StreamReassembler} (h : r.Laid)
    (hq : Q r)
    (whole : ∀ r seg, r.Laid → Q r → r.substrs.find? r.output.bytesWritten = some seg →
      seg.data.length ≤ r.output.remainingCapacity → Q (r.writeWhole seg))
    (part : ∀ r seg, r.Laid → Q r → r.substrs.find? r.output.bytesWritten = some seg →
      0 < r.output.remainingCapacity → r.output.remainingCapacity < seg.data.length →
      Q (r.writePart seg)) :
    r.drain.Laid ∧ Q r.drain := by
  fun_induction drain r with
  | case1 r hf => exact ⟨h, hq⟩
  | case2 r seg hf h0 => exact ⟨h, hq⟩
  | case3 r seg hf h0 hge ih => exact ih (h.write_whole hf hge) (whole r seg h hq hf hge)
  | case4 r seg hf h0 hge ih =>
    exact ih (h.write_part hf (by omega)) (part r seg h hq hf (by omega) (by omega))

theorem Laid.drain {r : StreamReassembler} (h : r.Laid) : r.drain.Laid :=
  (drain_preserves (Q := fun _ => True) h trivial (fun _ _ _ _ _ _ => trivial)
    (fun _ _ _ _ _ _ _ => trivial)).1

/-- Writing out neither loses a position nor gains one. -/
theorem drain_has {r : StreamReassembler} (h : r.Laid) (p : Nat) : r.drain.has p ↔ r.has p :=
  (drain_preserves (Q := fun r' => r'.has p ↔ r.has p) h Iff.rfl
    (fun _ _ hl hq hf hle => (write_whole_has hl hf hle p).trans hq)
    (fun _ _ hl hq hf _ hlt => (write_part_has hl hf hlt p).trans hq)).2

end Sponge.StreamReassembler
