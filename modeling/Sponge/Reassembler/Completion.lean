import Sponge.Reassembler.Coverage
import Sponge.Reassembler.Ending

namespace Sponge

namespace StreamReassembler

open Word64

/-- The end of the stream is known: the output has ended, or a stored segment
carries the mark. -/
def Marked (r : StreamReassembler) : Prop :=
  r.output.inputEnd = true ∨ ∃ e ∈ r.substrs.entries, e.2.eof = true

/-- The piece carries the end mark and brings the last byte, or has no bytes at
all. -/
def Marking (r : StreamReassembler) (data : Bytes) (index : Nat) (eof : Bool) : Prop :=
  eof = true ∧ (data = [] ∨ ¬ r.has (index + data.length - 1))

instance (r : StreamReassembler) (data : Bytes) (index : Nat) (eof : Bool) :
    Decidable (r.Marking data index eof) :=
  inferInstanceAs (Decidable (_ ∧ _))

/-- The piece that is stored has the mark just when the call brings it. -/
theorem FreshCall.marking {r : StreamReassembler} {data d : Bytes} {index i : Nat} {eof e : Bool}
    (h : FreshCall r data index eof d i e) (hpos : 0 < data.length) :
    r.Marking data index eof ↔ eof = true ∧ i + d.length = index + data.length := by
  refine and_congr_right (fun _ => ?_)
  have hlast := h.outside (index + data.length - 1) (by omega) (by omega)
  have := h.within.high
  constructor
  · rintro (rfl | hnew)
    · simp at hpos
    · have := hlast.resolve_left hnew
      omega
  · intro hend
    refine .inr ?_
    have := h.pos
    rintro (hw | hcov)
    · have := h.unseen.above
      omega
    · exact h.unseen.clear _ (by omega) (by omega) hcov

/-- Of the two parts of a split only the second can bring the mark. -/
theorem SplitCall.marking {r r₁ : StreamReassembler} {data d₁ d₂ : Bytes} {index i₁ i₂ : Nat}
    {eof e₁ e₂ : Bool} (h : SplitCall r data index eof d₁ i₁ e₁ d₂ i₂ e₂)
    (hab : Absorbs r r₁ d₁ i₁) : (r.Marked ∨ r.Marking d₁ i₁ e₁) ∨ r₁.Marking d₂ i₂ e₂ ↔
      r.Marked ∨ r.Marking data index eof := by
  have hpos := h.pos₁
  have hpos₂ := h.pos₂
  have hord := h.order
  have := h.within₁.high
  have := h.within₂.high
  have := h.within₁.low
  have hfirst : ¬ r.Marking d₁ i₁ e₁ := by simp [Marking, h.mark₁]
  rw [or_iff_left hfirst]
  refine or_congr_right ?_
  have hne : data ≠ [] := by
    rintro rfl
    simp only [List.length_nil] at *
    omega
  have hne₂ : d₂ ≠ [] := List.length_pos_iff.mp hpos₂
  simp only [Marking, h.mark₂, hne, hne₂, false_or, and_assoc]
  refine and_congr_right (fun _ => ?_)
  constructor
  · rintro ⟨hend, hnew⟩ hhas
    exact hnew (hend ▸ hab.keeps _ hhas)
  · intro hnew
    have hlast := (h.outside (index + data.length - 1) (by omega) (by omega)).resolve_left hnew
    have hend : i₂ + d₂.length = index + data.length := by omega
    refine ⟨hend, ?_⟩
    rw [hend]
    intro hhas
    rcases hab.only _ hhas with hhas | hin
    · exact hnew hhas
    · omega

section Drain

variable {r : StreamReassembler} {seg : Segment}

theorem write_whole_marked (hf : r.substrs.find? r.output.bytesWritten = some seg) :
    (r.writeWhole seg).Marked ↔ r.Marked := by
  have hm := OrdMap.mem_of_find? hf
  by_cases he : seg.eof = true
  · constructor
    · exact fun _ => .inr ⟨_, hm, he⟩
    · exact fun _ => .inl (by simp [writeWhole, he])
  · simp only [Marked, writeWhole, he, Bool.false_eq_true, ↓reduceIte, ByteStream.write_input_end]
    refine or_congr_right ⟨?_, ?_⟩
    · rintro ⟨e, hin, hmk⟩
      exact ⟨e, (OrdMap.mem_erase.mp hin).1, hmk⟩
    · rintro ⟨e, hin, hmk⟩
      rcases OrdMap.eq_or_key_ne hf hin with rfl | hk
      · exact absurd hmk he
      · exact ⟨e, OrdMap.mem_erase.mpr ⟨hin, hk⟩, hmk⟩

theorem marked_of_write_part (hf : r.substrs.find? r.output.bytesWritten = some seg)
    (h : (r.writePart seg).Marked) : r.Marked := by
  rcases h with hend | ⟨e, hin, hmk⟩
  · exact .inl hend
  · rcases OrdMap.mem_insert.mp hin with rfl | ⟨hin, -⟩
    · exact .inr ⟨_, OrdMap.mem_of_find? hf, hmk⟩
    · exact .inr ⟨e, (OrdMap.mem_erase.mp hin).1, hmk⟩

theorem write_part_marked (hf : r.substrs.find? r.output.bytesWritten = some seg)
    (hfree : ∀ e ∈ r.substrs.entries, e.2.eof = true →
      e.1 = seg.index + r.output.remainingCapacity → False) :
    (r.writePart seg).Marked ↔ r.Marked := by
  refine ⟨marked_of_write_part hf, Or.imp_right ?_⟩
  rintro ⟨e, hin, hmk⟩
  rcases OrdMap.eq_or_key_ne hf hin with rfl | hk
  · exact ⟨_, OrdMap.mem_insert.mpr (.inl rfl), hmk⟩
  · exact ⟨e, OrdMap.mem_insert.mpr (.inr ⟨OrdMap.mem_erase.mpr ⟨hin, hk⟩,
      fun hk' => hfree e hin hmk hk'⟩), hmk⟩

theorem marked_of_drain (hl : r.Laid) (h : r.drain.Marked) : r.Marked :=
  (drain_preserves (Q := fun r' => r'.Marked → r.Marked) hl id
    (fun _ _ _ hq hf _ hm => hq ((write_whole_marked hf).mp hm))
    (fun _ _ _ hq hf _ _ hm => hq (marked_of_write_part hf hm))).2 h

/-- No call makes a mark of its own. -/
theorem marked_of_push {data : Bytes} {index : Nat} {eof : Bool} (hwf : r.WellFormed)
    (hlt : index + data.length < 2 ^ 64) (h : (r.pushSubstring data index eof).Marked) :
    r.Marked ∨ eof = true := by
  refine (push_preserves (Q := fun r' => r'.Marked → r.Marked ∨ eof = true)
    (A := fun _ _ e => e = true → eof = true) (fun ha _ he h => ha (he h).1) ?_ hwf .inl hlt id).2 h
  intro r' d i e hwf hq ha hu _ hm
  unfold store at hm
  split at hm
  · exact hq hm
  · rename_i r'' d' hroom
    obtain ⟨hs, hd⟩ := make_room_shrunk hroom
    rcases marked_of_drain ((hwf.shrink hs).toLaid.put (hu.shrink hs hd) e) hm
      with hend | ⟨c, hc, hmk⟩
    · exact hq (.inl (hs.output ▸ hend))
    · rcases put_mem.mp hc with rfl | ⟨hc, -⟩
      · exact .inr (ha hmk)
      · obtain ⟨c₀, hc₀, -, -, -, -, hmk₀⟩ := hs.entry c hc
        exact hq (.inr ⟨c₀, hc₀, hmk₀ hmk⟩)

end Drain

section Marks

variable {ok : Nat → UInt8 → Prop} {fin : Nat → Prop} {taken : Bytes} {r : StreamReassembler}

/-- Writing out neither loses a mark nor makes one. -/
theorem drain_marked (hord : ∀ i b j, ok i b → fin j → i < j) (hs : Sealed fin r)
    (hok : Faithful ok taken r) (hl : r.Laid) : r.drain.Marked ↔ r.Marked := by
  refine (drain_preserves
    (Q := fun r' => Faithful ok taken r' ∧ Sealed fin r' ∧ (r'.Marked ↔ r.Marked)) hl
    ⟨hok, hs, Iff.rfl⟩ ?_ ?_).2.2.2
  · rintro r' seg hl ⟨hok, hs, h⟩ hf hle
    exact ⟨hok.write_whole hl hf hle, hs.write_whole hord hok hl hf hle,
      (write_whole_marked hf).trans h⟩
  · rintro r' seg hl ⟨hok, hs, h⟩ hf h0 hlt
    refine ⟨hok.write_part hl hf, hs.write_part hord hok hl hf hlt,
      (write_part_marked hf ?_).trans h⟩
    -- a marked segment where the rest goes would end before the rest does
    intro e he hmk hk
    have hm := OrdMap.mem_of_find? hf
    have hi : seg.index = r'.output.bytesWritten := hl.keyed _ hm
    have hkey := hl.keyed e he
    have hlast : seg.covers (seg.index + seg.data.length - 1) := ⟨by omega, by omega⟩
    have := hok.before hord hm hlast (hs.stored e he hmk)
    rcases Nat.eq_zero_or_pos e.2.data.length with hz | hpos
    · omega
    · have := hl.beyond hf he (by omega) hpos
      omega

/-- A piece that fits adds its own mark to those there are. -/
theorem store_marked (hord : ∀ i b j, ok i b → fin j → i < j) {data : Bytes} {index : Nat}
    {eof : Bool} (hs : Sealed fin r) (hok : Faithful ok taken r) (hwf : r.WellFormed)
    (hu : r.Unseen data index) (hc : Carries ok data index)
    (hmark : eof = true → fin (index + data.length))
    (hkeep : ∀ e ∈ r.substrs.entries, e.1 = index → e.2.data = [])
    (hempty : data = [] → r.substrs.entries = [] ∨ eof = true)
    (hle : data.length ≤ r.emptySize) :
    (r.store data index eof).Marked ↔ r.Marked ∨ eof = true := by
  rw [store_fits eof hle, drain_marked hord (hs.put hmark) (hok.put hc eof) (hwf.toLaid.put hu eof)]
  constructor
  · rintro (hend | ⟨e, he, hmk⟩)
    · exact .inl (.inl hend)
    · rcases put_mem.mp he with rfl | ⟨he, -⟩
      · exact .inr hmk
      · exact .inl (.inr ⟨e, he, hmk⟩)
  · rintro ((hend | ⟨e, he, hmk⟩) | heof)
    · exact .inl hend
    · by_cases hk : e.1 = index
      · -- a marked segment under this index is empty, and no byte may follow it
        have hfin := hs.stored e he hmk
        rw [hkeep e he hk, hwf.keyed e he, hk] at hfin
        rcases Nat.eq_zero_or_pos data.length with h0 | hpos
        · rcases hempty (List.length_eq_zero_iff.mp h0) with hnone | heof
          · simp [hnone] at he
          · exact .inr ⟨_, put_mem.mpr (.inl rfl), heof⟩
        · have := hord _ _ _ (hc 0 _ (List.getElem?_eq_getElem hpos)) hfin
          simp at this
      · exact .inr ⟨e, put_mem.mpr (.inr ⟨he, hk⟩), hmk⟩
    · exact .inr ⟨_, put_mem.mpr (.inl rfl), heof⟩

/-- Whether a call whose new bytes fit leaves a mark: only when there was one, or
when the piece brings the last byte with its mark. A mark on bytes that are all
there already is lost. -/
theorem push_marked (hord : ∀ i b j, ok i b → fin j → i < j) {data : Bytes} {index : Nat}
    {eof : Bool} (hs : Sealed fin r) (hok : Faithful ok taken r) (hwf : r.WellFormed)
    (hcap : r.capacity < 2 ^ 64) (hlt : index + data.length < 2 ^ 64)
    (hwin : index + data.length < r.windowEnd) (hc : Carries ok data index)
    (hmark : eof = true → fin (index + data.length)) (hfit : r.Fits data index) :
    (r.pushSubstring data index eof).Marked ↔ r.Marked ∨ r.Marking data index eof := by
  fun_induction pushSubstring r data index eof with
  | case1 r data index eof hge => omega
  | case2 r data index eof hlt' hs' =>
    obtain ⟨hi, hend⟩ := skip_written_none hs'
    refine (or_iff_left ?_).symm
    rintro ⟨heof, rfl | hnew⟩
    · obtain ⟨b, -, hb⟩ := hok.output_byte hwf.counted hi
      have := hord _ _ _ hb (hmark heof)
      simp at this
    · exact hnew (.inl (by omega))
  | case3 r data index eof hlt' d i hs' hd =>
    refine (or_iff_left ?_).symm
    rintro ⟨heof, hnew⟩
    rcases Nat.eq_zero_or_pos data.length with h0 | hpos
    · have hnil := List.length_eq_zero_iff.mp h0
      subst hnil
      simp [covered_call_nil hs' hd] at heof
    · rcases hnew with rfl | hnew
      · simp at hpos
      · exact hnew (covered_call hwf hlt hs' hd _ (by omega) (by omega))
  | case4 r data index eof hlt' d i hs' d' i' e' hd =>
    rcases Nat.eq_zero_or_pos data.length with h0 | hpos
    · have hnil := List.length_eq_zero_iff.mp h0
      subst hnil
      obtain ⟨rfl, rfl, rfl, hor, hu⟩ := empty_call hs' hd hlt
      have hkeep := keep_of_not_overwrites e' (hok.not_overwrites hord hwf.toLaid hmark) hor
      rw [store_marked hord hs hok hwf hu hc hmark hkeep (fun _ => hor) (Nat.zero_le _)]
      simp [Marking]
    · have hf := fresh_call hwf hlt hs' hpos hd
      have hle : d'.length ≤ r.emptySize := hf.card_missing ▸ hfit
      have hmark' : e' = true → fin (i' + d'.length) := by
        intro he'
        obtain ⟨heof, hend⟩ := hf.mark.mp he'
        exact hend ▸ hmark heof
      rw [store_marked hord hs hok hwf hf.unseen (hc.within hf.within) hmark'
        (hf.unseen.keep hwf.toLaid hf.pos) (fun h0 => by simpa [h0] using hf.pos) hle, hf.mark,
        hf.marking hpos]
  | case5 r data index eof hlt' d i hs' d₁ i₁ e₁ d₂ i₂ e₂ hd ih₁ ih₂ =>
    have hsp := split_call hwf hlt hs' hd
    have := hsp.within₁.high
    have := hsp.within₂.high
    have hfit₁ := hsp.fits_first hfit
    have hc₁ := hc.within hsp.within₁
    have hmark₁ : e₁ = true → fin (i₁ + d₁.length) := by simp [hsp.mark₁]
    have hmark₂ : e₂ = true → fin (i₂ + d₂.length) := by
      intro he₂
      obtain ⟨heof, hend⟩ := hsp.mark₂.mp he₂
      exact hend ▸ hmark heof
    have hlt₁ : i₁ + d₁.length < 2 ^ 64 := by omega
    have hab := push_absorbs hwf hcap hlt₁ hfit₁ (hok.not_overwrites hord hwf.toLaid hmark₁)
    rw [ih₂ (hs.push_fits hord hok hwf hcap hlt₁ hc₁ hmark₁ hfit₁)
        (hok.push hwf hlt₁ hc₁ e₁) (hwf.push hlt₁ e₁) (hab.capacity ▸ hcap) (by omega)
        (hab.window ▸ by omega) (hc.within hsp.within₂) hmark₂ (hsp.fits_second hfit hab),
      ih₁ hs hok hwf hcap hlt₁ (by omega) hc₁ hmark₁ hfit₁, hsp.marking hab]

end Marks

end StreamReassembler

namespace Session

open StreamReassembler

/-- A push that makes the end of the stream known. -/
def MarksEnd (x : Session) : Use → Prop
  | .push data index eof => x.reassembler.Marking data index eof
  | .read _ => False

instance (x : Session) : (u : Use) → Decidable (x.MarksEnd u)
  | .push data index eof => inferInstanceAs (Decidable (x.reassembler.Marking data index eof))
  | .read _ => .isFalse id

/-- What holds of a session whose last pieces carry the mark. -/
structure Completing (s : Bytes) (capacity : Nat) (us : List Use) (x : Session) : Prop extends
    Assembled s capacity us x where
  ends : Sealed (· = s.length) x.reassembler
  marked : x.reassembler.Marked ↔ Run.Ever Session.step MarksEnd (new capacity) us

section Completing

variable {s : Bytes} {capacity : Nat} {us : List Use} {x : Session}

theorem new_completing (s : Bytes) (capacity : Nat) :
    (new capacity).Completing s capacity [] where
  toAssembled := new_assembled s capacity
  ends := new_sealed _ capacity
  marked := by simp [Run.Ever, Marked, new, StreamReassembler.new, ByteStream.new]

theorem Completing.step (h : (after capacity us).Completing s capacity us)
    (hs : s.length < capacity) (hc : capacity < 2 ^ 64) {u : Use} (hpiece : u.PieceOf s)
    (hend : u.EndsAt s) (hu : OnPush (fun r _ _ _ => r.WindowFits) (after capacity us) u) :
    ((after capacity us).step u).Completing s capacity (us ++ [u]) := by
  cases u with
  | push data index eof =>
    have hord := byte_before_end s
    have hlt : index + data.length < 2 ^ 64 := Nat.lt_of_le_of_lt hpiece.1 (by omega)
    have hcap : (after capacity us).reassembler.capacity < 2 ^ 64 := by rwa [h.limit]
    have hfit := h.toAssembled.fits hs hc hpiece.1
    have hno := h.faithful.not_overwrites hord h.wf.toLaid hend
    have hwin := h.toGenuine.length_lt_window hs hu
    refine ⟨h.toAssembled.step hs hc hpiece ⟨hu, hno⟩,
      h.ends.push_fits hord h.faithful h.wf hcap hlt hpiece.carries hend hfit, ?_⟩
    rw [Run.Ever.append, ← h.marked]
    refine (push_marked hord h.ends h.faithful h.wf hcap hlt (Nat.lt_of_le_of_lt hpiece.1 hwin)
      hpiece.carries hend hfit).trans ?_
    simp [Run.Ever, MarksEnd, after]
  | read len =>
    refine ⟨h.toAssembled.step hs hc hpiece trivial, ⟨h.ends.stored, h.ends.ended⟩, ?_⟩
    rw [Run.Ever.append, ← h.marked]
    simp [Run.Ever, MarksEnd, Session.step, readOut, Marked]

/-- Once everything is written out, a mark has ended the stream: no segment is
left that could still hold it. -/
theorem Completing.ended_iff (h : x.Completing s capacity us) (hs : s.length < capacity)
    (hw : x.reassembler.output.bytesWritten = s.length) :
    x.reassembler.output.inputEnded = true ↔ x.reassembler.Marked := by
  refine ⟨.inl, ?_⟩
  rintro (hend | ⟨e, he, hmk⟩)
  · exact hend
  · have hfin := h.ends.stored e he hmk
    have hkey := h.wf.keyed e he
    have hne := h.drained hs e he
    have habove := h.wf.above e he
    omega

end Completing

/-- With a capacity above the length of the stream, and as long as the window can
be computed in 64 bits: once the pushes cover the stream, the output has ended
just when some push with the mark brought the last byte, or had no bytes. -/
theorem ended_iff_mark_brought (s : Bytes) (capacity : Nat) (us : List Use)
    (hs : s.length < capacity) (hc : capacity < 2 ^ 64)
    (hus : ∀ u ∈ us, u.PieceOf s ∧ u.EndsAt s)
    (h : Run.Along step (OnPush (fun r _ _ _ => r.WindowFits)) (new capacity) us)
    (hcov : coveredBy us = Finset.range s.length) :
    (after capacity us).reassembler.output.inputEnded = true ↔
      Run.Ever step MarksEnd (new capacity) us := by
  have hx : (after capacity us).Completing s capacity us := by
    refine Run.history (I := fun us => (after capacity us).Completing s capacity us)
      (new_completing s capacity) (h.and_mem hus) ?_
    rintro us u ih ⟨hu, hpiece, hend⟩
    rw [after, Run.final_append]
    exact ih.step hs hc hpiece hend hu
  have hall : coveredLength s.length (coveredBy us) = s.length :=
    covered_length_eq (Nat.le_refl _) (fun p hp => hcov ▸ Finset.mem_range.mpr hp)
      (fun hlt => absurd hlt (Nat.lt_irrefl _))
  rw [hx.ended_iff hs ((hx.toAssembled.written_eq hs).trans hall), hx.marked]

/-- The piece with the mark comes first and brings the last byte. -/
theorem ended_iff_mark_brought_three :
    (after 4 [.push [2, 3] 1 true, .push [1, 2] 0 false]).reassembler.output.inputEnded = true ↔
      Run.Ever step MarksEnd (new 4) [.push [2, 3] 1 true, .push [1, 2] 0 false] :=
  ended_iff_mark_brought [1, 2, 3] 4 _ (by decide) (by decide) (by decide) (by decide +kernel)
    (by decide)

/-- The last byte arrives without the mark and again with it: the second push is
a duplicate, and its mark is lost with it. -/
theorem duplicate_loses_end :
    ¬ ∀ (s : Bytes) (capacity : Nat) (us : List Use), s.length < capacity → capacity < 2 ^ 64 →
      (∀ u ∈ us, u.PieceOf s ∧ u.EndsAt s) → coveredBy us = Finset.range s.length →
      (∃ data index, .push data index true ∈ us) →
      (after capacity us).reassembler.output.inputEnded = true := by
  intro h
  have hend := h [1] 5 [.push [1] 0 false, .push [1] 0 true] (by decide) (by decide) (by decide)
    (by decide) ⟨[1], 0, by decide⟩
  revert hend
  decide +kernel

end Session

end Sponge
