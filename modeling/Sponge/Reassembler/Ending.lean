import Sponge.Reassembler.Eviction
import Sponge.Reassembler.Session

namespace Sponge

namespace StreamReassembler

open Word64

/-- End marks stand where the stream may end: a stored segment with the mark
ends there, and an ended output has been written up to there. -/
structure Sealed (fin : Nat → Prop) (r : StreamReassembler) : Prop where
  stored : ∀ e ∈ r.substrs.entries, e.2.eof = true → fin (e.2.index + e.2.data.length)
  ended : r.output.inputEnd = true → fin r.output.bytesWritten

theorem new_sealed (fin : Nat → Prop) (capacity : Nat) : Sealed fin (new capacity) :=
  ⟨by simp [new], by simp [new, ByteStream.new]⟩

theorem Sealed.imp {fin fin' : Nat → Prop} {r : StreamReassembler} (h : Sealed fin r)
    (hf : ∀ i, fin i → fin' i) : Sealed fin' r :=
  ⟨fun e he hm => hf _ (h.stored e he hm), fun he => hf _ (h.ended he)⟩

/-- A segment with the end mark lies above everything else that is stored. -/
def TopMarked (r : StreamReassembler) : Prop :=
  ∀ e ∈ r.substrs.entries, e.2.eof = true → ∀ c ∈ r.substrs.entries, c.1 ≤ e.1

instance (r : StreamReassembler) : Decidable r.TopMarked :=
  inferInstanceAs (Decidable (∀ e ∈ _, _ → ∀ c ∈ _, _))

section Marks

variable {ok : Nat → UInt8 → Prop} {fin : Nat → Prop} {taken : Bytes} {r : StreamReassembler}
  {seg : Segment}

/-- Stored bytes lie before every end of the stream. -/
theorem Faithful.before (hord : ∀ i b j, ok i b → fin j → i < j) (hok : Faithful ok taken r)
    {e : Nat × Segment} (he : e ∈ r.substrs.entries) {p j : Nat} (hc : e.2.covers p)
    (hj : fin j) : p < j := by
  obtain ⟨b, -, hb⟩ := hok.stored_byte he hc
  exact hord p b j hb hj

theorem Sealed.write_whole (hord : ∀ i b j, ok i b → fin j → i < j) (h : Sealed fin r)
    (hok : Faithful ok taken r) (hl : r.Laid)
    (hf : r.substrs.find? r.output.bytesWritten = some seg)
    (hle : seg.data.length ≤ r.output.remainingCapacity) : Sealed fin (r.writeWhole seg) := by
  have hm := OrdMap.mem_of_find? hf
  have hi : seg.index = r.output.bytesWritten := hl.keyed _ hm
  refine ⟨fun e he => h.stored e (OrdMap.mem_erase.mp he).1, ?_⟩
  rw [write_whole_written hle, ← hi]
  by_cases he : seg.eof = true
  · exact fun _ => h.stored _ hm he
  · intro hend
    simp only [writeWhole, he, Bool.false_eq_true, ↓reduceIte, ByteStream.write_input_end] at hend
    have hfin := h.ended hend
    -- a byte at the write position would lie behind the end of the stream
    rcases Nat.eq_zero_or_pos seg.data.length with h0 | hpos
    · rwa [h0, Nat.add_zero, hi]
    · have : seg.index < r.output.bytesWritten :=
        hok.before hord hm (Segment.covers_index hpos) hfin
      omega

theorem Sealed.write_part (hord : ∀ i b j, ok i b → fin j → i < j) (h : Sealed fin r)
    (hok : Faithful ok taken r) (hl : r.Laid)
    (hf : r.substrs.find? r.output.bytesWritten = some seg)
    (hlt : r.output.remainingCapacity < seg.data.length) : Sealed fin (r.writePart seg) := by
  have hm := OrdMap.mem_of_find? hf
  have hi : seg.index = r.output.bytesWritten := hl.keyed _ hm
  constructor
  · intro e he hmark
    rcases OrdMap.mem_insert.mp he with rfl | ⟨he, -⟩
    · have := h.stored _ hm hmark
      simp only [List.length_drop] at this ⊢
      rwa [show seg.index + r.output.remainingCapacity +
        (seg.data.length - r.output.remainingCapacity) = seg.index + seg.data.length by omega]
    · exact h.stored e (OrdMap.mem_erase.mp he).1 hmark
  · intro hend
    have hpos : 0 < seg.data.length := by omega
    have : seg.index < r.output.bytesWritten :=
      hok.before hord hm (Segment.covers_index hpos) (h.ended hend)
    omega

theorem Sealed.drain (hord : ∀ i b j, ok i b → fin j → i < j) (h : Sealed fin r)
    (hok : Faithful ok taken r) (hl : r.Laid) : Sealed fin r.drain :=
  (drain_preserves (Q := fun r' => Faithful ok taken r' ∧ Sealed fin r') hl ⟨hok, h⟩
    (fun _ _ hl h hf hle => ⟨h.1.write_whole hl hf hle, h.2.write_whole hord h.1 hl hf hle⟩)
    (fun _ _ hl h hf _ hlt => ⟨h.1.write_part hl hf, h.2.write_part hord h.1 hl hf hlt⟩)).2.2

theorem Sealed.put {data : Bytes} {index : Nat} {eof : Bool} (h : Sealed fin r)
    (hmark : eof = true → fin (index + data.length)) : Sealed fin (r.put data index eof) := by
  refine ⟨?_, h.ended⟩
  intro e he
  rcases put_mem.mp he with rfl | ⟨he, -⟩
  · exact hmark
  · exact h.stored e he

theorem TopMarked.shrink {r' : StreamReassembler} (h : r.TopMarked) (hs : Shrunk r r') :
    r'.TopMarked := by
  intro e' he' hmark c' hc'
  obtain ⟨e, he, hk, -, -, -, hm⟩ := hs.entry e' he'
  obtain ⟨c, hc, hkc, -⟩ := hs.entry c' hc'
  rw [hk, hkc]
  exact h e he (hm hmark) c hc

/-- Under a mark at the top, the segments that are cut lose their mark: the
highest one because the code clears it, the others because they have none. -/
theorem make_room_marks {r' : StreamReassembler} {data d : Bytes} {ib : Nat} (h : r.TopMarked)
    (hm : r.makeRoom data ib = some (r', d)) :
    ∀ e ∈ r'.substrs.entries, e.2.eof = true → e ∈ r.substrs.entries := by
  intro e' he' hmark
  unfold makeRoom at hm
  split at hm
  · split at hm
    · cases hm
      exact he'
    · rename_i key top rest he
      split at hm
      · cases hm
      split at hm
      · cases hm
        simp only [trimFront, OrdMap.entries_insert_front he] at he'
        rcases List.mem_cons.mp he' with rfl | hr
        · cases hmark
        · simp [he, hr]
      · -- no segment below the highest one has a mark, so none is left
        have hs := evict_loop_shrunk (r.dropFront top) data ib
        rw [Option.some.inj hm] at hs
        obtain ⟨e, hin, -, -, -, -, hmk⟩ := hs.1.entry e' he'
        have hrest : e ∈ rest := by simpa [dropFront, OrdMap.entries_pop_front, he] using hin
        have hle := h e (by simp [he, hrest]) (hmk hmark) (key, top) (by simp [he])
        have hgt := List.rel_of_pairwise_cons (he ▸ r.substrs.sorted) hrest
        exact absurd hle (Nat.not_le.mpr hgt)
  · cases hm
    exact he'

theorem TopMarked.write_part (hord : ∀ i b j, ok i b → fin j → i < j) (h : r.TopMarked)
    (hok : Faithful ok taken r) (hs : Sealed fin r) (hl : r.Laid)
    (hf : r.substrs.find? r.output.bytesWritten = some seg)
    (hlt : r.output.remainingCapacity < seg.data.length) : (r.writePart seg).TopMarked := by
  have hm := OrdMap.mem_of_find? hf
  have hi : seg.index = r.output.bytesWritten := hl.keyed _ hm
  intro e he hmark c hc
  rcases OrdMap.mem_insert.mp he with rfl | ⟨he, -⟩ <;>
    rcases OrdMap.mem_insert.mp hc with rfl | ⟨hc, -⟩
  · exact Nat.le_refl _
  · have := h _ hm hmark c (OrdMap.mem_erase.mp hc).1
    simp only at this ⊢
    omega
  · -- the marked segment lies behind all bytes of the one that is written
    obtain ⟨he, hk⟩ := OrdMap.mem_erase.mp he
    have hbefore := hok.before hord hm (p := seg.index + seg.data.length - 1)
      ⟨by simp only; omega, by simp only; omega⟩ (hs.stored e he hmark)
    have hkey := hl.keyed e he
    rcases Nat.eq_zero_or_pos e.2.data.length with h0 | hpos
    · simp only
      omega
    · have := hl.beyond hf he hk hpos
      simp only
      omega
  · exact h e (OrdMap.mem_erase.mp he).1 hmark c (OrdMap.mem_erase.mp hc).1

theorem TopMarked.drain (hord : ∀ i b j, ok i b → fin j → i < j) (h : r.TopMarked)
    (hok : Faithful ok taken r) (hs : Sealed fin r) (hl : r.Laid) : r.drain.TopMarked := by
  refine (drain_preserves
    (Q := fun r' => Faithful ok taken r' ∧ Sealed fin r' ∧ r'.TopMarked) hl ⟨hok, hs, h⟩ ?_ ?_).2.2.2
  · rintro r' seg hl ⟨hok, hs, h⟩ hf hle
    refine ⟨hok.write_whole hl hf hle, hs.write_whole hord hok hl hf hle, ?_⟩
    intro e he hmark c hc
    exact h e (OrdMap.mem_erase.mp he).1 hmark c (OrdMap.mem_erase.mp hc).1
  · rintro r' seg hl ⟨hok, hs, h⟩ hf - hlt
    exact ⟨hok.write_part hl hf, hs.write_part hord hok hl hf hlt,
      h.write_part hord hok hs hl hf hlt⟩

/-- Bytes put down without a mark lie below a marked segment. -/
theorem TopMarked.put (hord : ∀ i b j, ok i b → fin j → i < j) {r' : StreamReassembler}
    {data d : Bytes} {index : Nat} (h : r.TopMarked) (hs : Sealed fin r) (hl : r.Laid)
    (hsh : Shrunk r r') (hc : Carries ok data index) (hu : r.Unseen data index)
    (hempty : data = [] → r.substrs.entries = []) : (r'.put d index false).TopMarked := by
  intro e he hmark c hc'
  rcases put_mem.mp he with rfl | ⟨he, -⟩
  · cases hmark
  rcases put_mem.mp hc' with rfl | ⟨hc', -⟩
  · obtain ⟨e₀, he₀, hk, -, -, -, hm⟩ := hsh.entry e he
    have hpos : 0 < data.length := by
      by_contra h0
      simp [hempty (List.length_eq_zero_iff.mp (by omega))] at he₀
    have hlt := hord _ _ _ (hc 0 _ (List.getElem?_eq_getElem hpos)) (hs.stored e₀ he₀ (hm hmark))
    have hkey := hl.keyed e₀ he₀
    by_contra hgt
    simp only at hgt
    exact hu.clear index (Nat.le_refl _) (by omega) ⟨e₀, he₀, by omega, by omega⟩
  · exact h.shrink hsh e he hmark c hc'

/-- Storing a piece keeps the marks right if the piece fits, or if it has no
mark and no marked segment but the highest can be cut for it. -/
theorem Sealed.store (hord : ∀ i b j, ok i b → fin j → i < j) {data : Bytes} {index : Nat}
    {eof : Bool} (h : Sealed fin r) (hok : Faithful ok taken r) (hwf : r.WellFormed)
    (hu : r.Unseen data index) (hc : Carries ok data index)
    (hmark : eof = true → fin (index + data.length))
    (hcase : data.length ≤ r.emptySize ∨ (eof = false ∧ r.TopMarked)) :
    Sealed fin (r.store data index eof) := by
  rcases hcase with hle | ⟨rfl, htop⟩
  · rw [store_fits eof hle]
    exact (h.put hmark).drain hord (hok.put hc eof) (hwf.toLaid.put hu eof)
  · unfold StreamReassembler.store
    split
    · exact h
    · rename_i r' d hm
      obtain ⟨hs, hd⟩ := make_room_shrunk hm
      have hkept := make_room_marks htop hm
      have h' : Sealed fin r' := ⟨fun e he hmk => h.stored e (hkept e he hmk) hmk,
        hs.output ▸ h.ended⟩
      exact (h'.put (by simp)).drain hord ((hok.shrink hs).put (hc.cut hd) false)
        ((hwf.shrink hs).toLaid.put (hu.shrink hs hd) false)

theorem TopMarked.store (hord : ∀ i b j, ok i b → fin j → i < j) {data : Bytes} {index : Nat}
    (h : r.TopMarked) (hs : Sealed fin r) (hok : Faithful ok taken r) (hwf : r.WellFormed)
    (hu : r.Unseen data index) (hc : Carries ok data index)
    (hempty : data = [] → r.substrs.entries = []) : (r.store data index false).TopMarked := by
  unfold StreamReassembler.store
  split
  · exact h
  · rename_i r' d hm
    obtain ⟨hsh, hd⟩ := make_room_shrunk hm
    have hkept := make_room_marks h hm
    have h' : Sealed fin r' := ⟨fun e he hmk => hs.stored e (hkept e he hmk) hmk,
      hsh.output ▸ hs.ended⟩
    exact (h.put hord hs hwf.toLaid hsh hc hu hempty).drain hord
      ((hok.shrink hsh).put (hc.cut hd) false) (h'.put (by simp))
      ((hwf.shrink hsh).toLaid.put (hu.shrink hsh hd) false)

end Marks

/-- The last byte of the piece is new and refused. -/
def EndRefused (r : StreamReassembler) (data : Bytes) (index : Nat) : Prop :=
  r.Solid data index ∧
    index + data.length - 1 ∈ r.missing data index \ r.admitted data index

instance (r : StreamReassembler) (data : Bytes) (index : Nat) :
    Decidable (r.EndRefused data index) :=
  inferInstanceAs (Decidable (_ ∧ _))

/-- The call cannot cut a piece that carries the end mark: it lies beyond the
window, the new bytes it admits fit in the free space, they lie above everything
stored, or no segment below the highest one has a mark and the piece brings none: it
has none, or its last byte is stored or refused. -/
def EofSafe (r : StreamReassembler) (data : Bytes) (index : Nat) (eof : Bool) : Prop :=
  r.windowEnd ≤ index ∨ r.Admits data index ∨ r.Below data index ∨
    ((eof = true → r.EndStored data index ∨ r.EndRefused data index) ∧ r.TopMarked)

instance (r : StreamReassembler) (data : Bytes) (index : Nat) (eof : Bool) :
    Decidable (r.EofSafe data index eof) :=
  inferInstanceAs (Decidable (_ ∨ _ ∨ _ ∨ _))

/-- A genuine last piece without bytes finds no bytes stored under its index. -/
theorem Faithful.not_overwrites {ok : Nat → UInt8 → Prop} {fin : Nat → Prop} {taken : Bytes}
    {r : StreamReassembler} (hord : ∀ i b j, ok i b → fin j → i < j) (hok : Faithful ok taken r)
    (hl : r.Laid) {data : Bytes} {index : Nat} {eof : Bool}
    (hmark : eof = true → fin (index + data.length)) : ¬ r.Overwrites data index eof := by
  rintro ⟨rfl, heof, e, he, hk, hne⟩
  have hi := hl.keyed e he
  have hpos := List.length_pos_iff.mpr hne
  have := hok.before hord he (p := index) ⟨by omega, by omega⟩ (hmark heof)
  simp at this

section Push

variable {ok : Nat → UInt8 → Prop} {fin : Nat → Prop} {taken : Bytes} {r : StreamReassembler}
  {data : Bytes} {index : Nat} {eof : Bool}

theorem Sealed.push_fits (hord : ∀ i b j, ok i b → fin j → i < j) (h : Sealed fin r)
    (hok : Faithful ok taken r) (hwf : r.WellFormed) (hcap : r.capacity < 2 ^ 64)
    (hlt : index + data.length < 2 ^ 64) (hc : Carries ok data index)
    (hmark : eof = true → fin (index + data.length)) (hfit : r.Fits data index) :
    Sealed fin (r.pushSubstring data index eof) := by
  refine (StreamReassembler.push_fits (Q := fun r' => Faithful ok taken r' ∧ Sealed fin r')
    (A := fun d i e => Carries ok d i ∧ (e = true → fin (i + d.length))) ?_ ?_ hwf hcap ⟨hok, h⟩
    hlt hfit (hok.not_overwrites hord hwf.toLaid hmark) ⟨hc, hmark⟩).1.2
  · rintro d i e d' i' e' ⟨hc, hm⟩ hw he
    refine ⟨hc.within hw, fun he' => ?_⟩
    rw [(he he').2]
    exact hm (he he').1
  · rintro r' d i e hwf ⟨hok, h⟩ ⟨hc, hm⟩ hu - hle
    exact ⟨hok.store hwf hu hc e, h.store hord hok hwf hu hc hm (.inl hle)⟩

theorem Sealed.push_unmarked (hord : ∀ i b j, ok i b → fin j → i < j) (h : Sealed fin r)
    (htop : r.TopMarked) (hok : Faithful ok taken r) (hwf : r.WellFormed)
    (hlt : index + data.length < 2 ^ 64) (hc : Carries ok data index) :
    Sealed fin (r.pushSubstring data index false) := by
  refine (push_preserves
    (Q := fun r' => Faithful ok taken r' ∧ Sealed fin r' ∧ r'.TopMarked)
    (A := fun d i e => Carries ok d i ∧ e = false) ?_ ?_ hwf ⟨hok, h, htop⟩ hlt ⟨hc, rfl⟩).2.2.1
  · rintro d i e d' i' e' ⟨hc, rfl⟩ hw he
    exact ⟨hc.within hw, Bool.eq_false_iff.mpr (fun he' => by simpa using (he he').1)⟩
  · rintro r' d i e hwf ⟨hok, h, htop⟩ ⟨hc, rfl⟩ hu hempty
    exact ⟨hok.store hwf hu hc false, h.store hord hok hwf hu hc (by simp) (.inr ⟨rfl, htop⟩),
      htop.store hord h hok hwf hu hc (fun h0 => by simpa using hempty h0)⟩

theorem Sealed.push (hord : ∀ i b j, ok i b → fin j → i < j) (h : Sealed fin r)
    (hok : Faithful ok taken r) (hwf : r.WellFormed) (hcap : r.capacity < 2 ^ 64)
    (hlt : index + data.length < 2 ^ 64) (hc : Carries ok data index)
    (hmark : eof = true → fin (index + data.length)) (hsafe : r.EofSafe data index eof) :
    Sealed fin (r.pushSubstring data index eof) := by
  by_cases hfit : r.Fits data index
  · exact h.push_fits hord hok hwf hcap hlt hc hmark hfit
  rcases hsafe with hge | hadm | hbelow | ⟨hend, htop⟩
  · rwa [push_beyond hge]
  · rcases push_admits hwf hcap hlt hadm hfit eof with ⟨heq, -⟩ | ⟨d, i, hw, -, hfit', -, heq⟩
    · rwa [heq]
    · have := hw.high
      rw [heq]
      exact h.push_fits hord hok hwf hcap (by omega) (hc.within hw) (by simp) hfit'
  · rwa [push_below hwf hlt hbelow hfit]
  · have hpos := length_pos_of_not_fits hfit
    cases eof with
    | false => exact h.push_unmarked hord htop hok hwf hlt hc
    | true =>
      rcases hend rfl with hstored | ⟨hsolid, hlast⟩
      · rw [push_end_stored hwf hlt hpos hstored]
        exact h.push_unmarked hord htop hok hwf hlt hc
      · obtain ⟨hnew, hout⟩ := Finset.mem_sdiff.mp hlast
        rcases push_admitted hwf hcap hlt hpos hsolid (fun hall => hout (hall ▸ hnew)) true with
          ⟨heq, -⟩ | ⟨d, i, hw, -, -, -, -, heq⟩
        · rwa [heq]
        · have := hw.high
          rw [heq]
          exact h.push_unmarked hord htop hok hwf (by omega) (hc.within hw)

end Push

end StreamReassembler

/-- The end mark is set only on a push that reaches the end of `s`. -/
def Use.EndsAt (s : Bytes) : Use → Prop
  | .push data index eof => eof = true → index + data.length = s.length
  | .read _ => True

instance (s : Bytes) : (u : Use) → Decidable (u.EndsAt s)
  | .push _ _ _ => inferInstanceAs (Decidable (_ → _))
  | .read _ => .isTrue trivial

namespace Session

open StreamReassembler

theorem byte_before_end (s : Bytes) : ∀ i b j, byteOf s i b → j = s.length → i < j := by
  rintro i b j hb rfl
  exact (List.getElem?_eq_some_iff.mp hb).1

/-- As long as no push can cut a piece that carries the end mark, the output
ends only when the whole stream has been written. -/
theorem ended_only_when_complete (s : Bytes) (capacity : Nat) (us : List Use)
    (hs : s.length < 2 ^ 64) (hc : capacity < 2 ^ 64)
    (hus : ∀ u ∈ us, u.PieceOf s ∧ u.EndsAt s)
    (h : Run.Along step (OnPush EofSafe) (new capacity) us) :
    Run.Always step (fun x => x.reassembler.output.inputEnded = true →
      x.reassembler.output.bytesWritten = s.length) (new capacity) us := by
  have hord := byte_before_end s
  refine Run.always_of_invariant
    (I := fun x => x.Genuine s capacity ∧ Sealed (· = s.length) x.reassembler)
    ⟨⟨new_sound capacity, new_faithful _ capacity⟩, new_sealed _ capacity⟩ (h.and_mem hus) ?_
    (fun x hx => hx.2.ended)
  rintro x u ⟨hg, hsealed⟩ ⟨hsafe, hpiece, hend⟩
  refine ⟨hg.step hs hpiece, ?_⟩
  cases u with
  | push data index eof =>
    exact hsealed.push hord hg.faithful hg.wf (hg.limit ▸ hc) (Nat.lt_of_le_of_lt hpiece.1 hs)
      hpiece.carries hend hsafe
  | read len => exact ⟨hsealed.stored, hsealed.ended⟩

/-- The last piece is stored first, and ends the stream once the gap is filled. -/
theorem ended_only_when_complete_four :
    Run.Always step (fun x => x.reassembler.output.inputEnded = true →
      x.reassembler.output.bytesWritten = 4) (new 4)
      [.push [3, 4] 2 true, .push [1] 0 false, .read 1, .push [1, 2] 0 false] :=
  ended_only_when_complete [1, 2, 3, 4] 4 _ (by decide) (by decide) (by decide)
    (by decide +kernel)

/-- Three bytes with the end mark are cut to a capacity of two: the mark stays,
and the stream ends a byte short. -/
theorem trimmed_piece_ends_stream :
    ¬ ∀ (s : Bytes) (capacity : Nat) (us : List Use), s.length < 2 ^ 64 → capacity < 2 ^ 64 →
      (∀ u ∈ us, u.PieceOf s ∧ u.EndsAt s) →
      Run.Always step (fun x => x.reassembler.output.inputEnded = true →
        x.reassembler.output.bytesWritten = s.length) (new capacity) us := by
  intro h
  have hend := (h [1, 2, 3] 2 [.push [1, 2, 3] 0 true] (by decide) (by decide) (by decide)).final
  revert hend
  decide +kernel

end Session

end Sponge
