import Sponge.Reassembler.Accounting

namespace Sponge

namespace Session

open StreamReassembler Word64

/-- The byte at position `p` is in the output, read or not, or in a stored
segment. -/
def Holds (x : Session) (p : Nat) (b : UInt8) : Prop :=
  (x.taken ++ x.reassembler.output.buffer)[p]? = some b ∨
    ∃ e ∈ x.reassembler.substrs.entries, e.2.index ≤ p ∧ e.2.data[p - e.2.index]? = some b

instance (x : Session) (p : Nat) (b : UInt8) : Decidable (x.Holds p b) :=
  inferInstanceAs (Decidable (_ ∨ ∃ e ∈ _, _ ∧ _))

/-- The bytes of a faithful session are those of the stream, so that having a
position is holding its byte. -/
theorem holds_iff_has {s : Bytes} {x : Session} (hl : x.reassembler.Laid)
    (hf : Faithful (byteOf s) x.taken x.reassembler) {p : Nat} {b : UInt8}
    (hb : s[p]? = some b) : x.Holds p b ↔ x.reassembler.has p := by
  have hlen := hf.length hl.counted
  constructor
  · rintro (hp | ⟨e, he, hi, hp⟩)
    · exact .inl (hlen ▸ (List.getElem?_eq_some_iff.mp hp).1)
    · have := (List.getElem?_eq_some_iff.mp hp).1
      exact .inr ⟨e, he, hi, by omega⟩
  · rintro (hp | ⟨e, he, hc⟩)
    · obtain ⟨b', hget, hok⟩ := hf.output_byte hl.counted hp
      rw [byteOf, hb] at hok
      exact .inl (hget.trans hok.symm)
    · obtain ⟨b', hget, hok⟩ := hf.stored_byte he hc
      rw [byteOf, hb] at hok
      exact .inr ⟨e, he, hc.1, hget.trans hok.symm⟩

/-- The positions `stream_out()` has room for. -/
def InWindow (x : Session) (p : Nat) : Prop :=
  x.reassembler.output.bytesWritten ≤ p ∧
    p < x.reassembler.output.bytesWritten + x.reassembler.output.remainingCapacity

instance (x : Session) (p : Nat) : Decidable (x.InWindow p) :=
  inferInstanceAs (Decidable (_ ∧ _))

end Session

namespace StreamReassembler

open Word64

section Span

variable {r : StreamReassembler} {data : Bytes} {ib key : Nat} {top : Segment}
  {rest : List (Nat × Segment)}

/-- The stored bytes lie apart from each other behind the written ones, so they
take up at least as many positions as they are. -/
theorem Laid.span (hl : r.Laid) {n : Nat} (hn : r.output.bytesWritten ≤ n)
    (h : ∀ p, Covered r.substrs.entries p → p < n) :
    r.output.bytesWritten + r.storedBytes ≤ n := by
  have hsub : r.heldPositions ⊆ Finset.Ico r.output.bytesWritten n := by
    intro p hp
    obtain ⟨e, he, hc⟩ := mem_held.mp hp
    have := hl.above e he (by simp only [Segment.covers] at hc; omega)
    exact Finset.mem_Ico.mpr ⟨Nat.le_trans this hc.1, h p ⟨e, he, hc⟩⟩
  have hcard := Finset.card_le_card hsub
  rw [card_held hl, Nat.card_Ico] at hcard
  omega

/-- New data below everything that has to make room for it: both lie before the
end of the highest segment. -/
theorem Unseen.span_front (hu : r.Unseen data ib) (hl : r.Laid) (hpos : 0 < data.length)
    (he : r.substrs.entries = (key, top) :: rest) (hi : ib ≤ top.index)
    (htop : 0 < top.data.length) :
    r.output.bytesWritten + (data.length + r.storedBytes) ≤ top.index + top.data.length := by
  have hmem : (key, top) ∈ r.substrs.entries := by simp [he]
  have htot : (r.put data ib false).storedBytes = data.length + r.storedBytes :=
    OrdMap.total_insert (fun e : Nat × Segment => e.2.data.length)
      (fun e he hk => by simp [hu.keep hl hpos e he hk])
  have habove : ib + data.length ≤ top.index := by
    by_contra hlt
    exact hu.clear top.index hi (by omega) ⟨_, hmem, Segment.covers_index htop⟩
  rw [← htot]
  refine (hl.put hu false).span ?_ ?_
  · have := hu.above
    simp only [put]
    omega
  · rintro p ⟨e, hmem', hc⟩
    rcases put_mem.mp hmem' with rfl | ⟨hmem', -⟩
    · simp only [Segment.covers] at hc
      omega
    · by_contra hge
      have := hl.front_highest he e hmem'
      simp only [Segment.covers] at hc
      have heq := hl.apart e hmem' _ hmem top.index (by simp only [Segment.covers]; omega)
        (Segment.covers_index htop)
      subst heq
      simp only at hc
      omega

/-- New data above everything stored. -/
theorem Unseen.span_below (hu : r.Unseen data ib) (hl : r.Laid) (hpos : 0 < data.length)
    (hlow : ∀ e ∈ r.substrs.entries, e.2.index < ib) :
    r.output.bytesWritten + r.storedBytes ≤ ib := by
  refine hl.span hu.above ?_
  rintro p ⟨e, he, hc⟩
  by_contra hge
  have := hlow e he
  simp only [Segment.covers] at hc
  exact hu.clear ib (Nat.le_refl _) (by omega) ⟨e, he, by simp only [Segment.covers]; omega⟩

end Span

/-- With a right counter the window is what is stored and what is free. -/
theorem Accounted.window {r : StreamReassembler} (h : r.Accounted) (hc : r.capacity < 2 ^ 64) :
    r.output.remainingCapacity = r.storedBytes + r.emptySize := by
  have := h.within
  rw [h.empty_size hc, ByteStream.remainingCapacity, h.same]
  simp only [ByteStream.bufferSize] at *
  omega

/-- Of what lies in the window nothing is lost: neither what is there already nor
the data room is made for. -/
structure Spares (r : StreamReassembler) (data : Bytes) (ib : Nat)
    (out : StreamReassembler × Bytes) : Prop where
  kept : ∀ p, p < r.output.bytesWritten + r.output.remainingCapacity → r.has p → out.1.has p
  taken : ∀ p, ib ≤ p → p < ib + data.length →
    p < r.output.bytesWritten + r.output.remainingCapacity → p < ib + out.2.length

section Evict

variable {r : StreamReassembler} {data : Bytes} {ib key : Nat} {top : Segment}
  {rest : List (Nat × Segment)}

theorem drop_front_has (he : r.substrs.entries = (key, top) :: rest) {p : Nat} (hp : r.has p)
    (hn : ¬ top.covers p) : (r.dropFront top).has p := by
  refine hp.imp_right ?_
  rintro ⟨e, hmem, hc⟩
  rw [he] at hmem
  rcases List.mem_cons.mp hmem with rfl | hmem
  · exact absurd hc hn
  · exact ⟨e, by simpa [dropFront, he] using hmem, hc⟩

theorem trim_front_has (he : r.substrs.entries = (key, top) :: rest) {p size : Nat} (b : Bool)
    (hp : r.has p)
    (hn : top.covers p → p < top.index + sub (add top.data.length r.emptySize) size) :
    (r.trimFront key { top with eof := b } size).has p := by
  refine hp.imp_right ?_
  rintro ⟨e, hmem, hc⟩
  simp only [trimFront, OrdMap.entries_insert_front he]
  rw [he] at hmem
  rcases List.mem_cons.mp hmem with rfl | hmem
  · refine .head ?_
    have := hn hc
    simp only [Segment.covers, List.length_take] at hc ⊢
    omega
  · exact Covered.cons ⟨e, hmem, hc⟩

/-- A segment that is dropped lies beyond the window. -/
theorem Accounted.drop_front_spares (ha : r.Accounted) (hl : r.Laid) (hc : r.capacity < 2 ^ 64)
    (hu : r.Unseen data ib) (hpos : 0 < data.length)
    (he : r.substrs.entries = (key, top) :: rest) (hi : ib ≤ top.index)
    (hle : top.data.length + r.emptySize ≤ data.length) {p : Nat}
    (hp : p < r.output.bytesWritten + r.output.remainingCapacity) (hr : r.has p) :
    (r.dropFront top).has p := by
  refine drop_front_has he hr ?_
  intro hcov
  simp only [Segment.covers] at hcov
  have := hu.span_front hl hpos he hi (by omega)
  rw [ha.window hc] at hp
  omega

/-- So does what is cut off a segment. -/
theorem Accounted.trim_front_spares (ha : r.Accounted) (hl : r.Laid) (hc : r.capacity < 2 ^ 64)
    (hu : r.Unseen data ib) (he : r.substrs.entries = (key, top) :: rest) (hi : ib ≤ top.index)
    (hgt : r.emptySize < data.length) (hlt : data.length < top.data.length + r.emptySize)
    (b : Bool) : Spares r data ib (r.trimFront key { top with eof := b } data.length, data) := by
  refine ⟨fun p hp hr => trim_front_has he b hr ?_, fun p _ hp _ => hp⟩
  intro hcov
  have hadd := ha.add_front hc he
  have := hu.span_front hl (by omega) he hi (by omega)
  rw [ha.window hc] at hp
  rw [sub_of_le (by omega) (add_lt _ _), hadd]
  omega

theorem Evicted.spares {cut : Nat → Prop} {out : StreamReassembler × Bytes}
    (h : Evicted cut data ib r out) (ha : r.Accounted) (hl : r.Laid) (hc : r.capacity < 2 ^ 64)
    (hu : r.Unseen data ib) : Spares r data ib out := by
  cases h with
  | fits hle => exact ⟨fun _ _ hr => hr, fun _ _ hp _ => hp⟩
  | below hgt hlow =>
    refine ⟨fun _ _ hr => hr, fun p _ _ hp => ?_⟩
    have := hu.span_below hl (by omega) hlow
    rw [ha.window hc] at hp
    simp only [List.length_take]
    omega
  | trim he hgt hi hlt hcut => exact ha.trim_front_spares hl hc hu he hi hgt hlt _

end Evict

instance (r : StreamReassembler) : Decidable r.Accounted :=
  decidable_of_iff (r.output.capacity = r.capacity ∧ r.substrsSize = r.storedBytes ∧
      r.output.bufferSize + r.storedBytes ≤ r.capacity)
    ⟨fun ⟨h, h', h''⟩ => ⟨h, h', h''⟩, fun h => ⟨h.same, h.exact, h.within⟩⟩

/-- Making room for the bytes `new` costs nothing in the window. Above everything
stored they are dropped, so none of them may lie there. Else a cut has to be the
first thing that is done, or the counter, from which all of them are then taken
off, has to be large enough for it. -/
def EvictsBeyond (r : StreamReassembler) (new : Finset Nat) : List (Nat × Segment) → Prop
  | [] => True
  | (_, top) :: rest =>
    if ∀ p ∈ new, top.index < p then
      ∀ p ∈ new, r.output.bytesWritten + r.output.remainingCapacity ≤ p
    else new.card < top.data.length + r.emptySize ∨
      Evicts (fun free => new.card + free ≤ r.capacity) new
        (r.emptySize + top.data.length) rest

instance (r : StreamReassembler) (new : Finset Nat) : ∀ es, Decidable (r.EvictsBeyond new es)
  | [] => .isTrue trivial
  | (_, top) :: rest => inferInstanceAs (Decidable (if ∀ p ∈ new, top.index < p then
      ∀ p ∈ new, r.output.bytesWritten + r.output.remainingCapacity ≤ p
    else _ ∨ Evicts (fun free => new.card + free ≤ r.capacity) new
      (r.emptySize + top.data.length) rest))

/-- The window can be computed in 64 bits, and the piece lies beyond it, or the new
bytes it admits fit in the free space, or they are one stretch and the room made for
them lies beyond the window; for this the counter has to be right. An empty last
piece is not pushed onto stored bytes. -/
def Sparing (r : StreamReassembler) (data : Bytes) (index : Nat) (eof : Bool) : Prop :=
  (r.output.bytesWritten + r.output.remainingCapacity < 2 ^ 64 ∧
      ¬ r.Overwrites data index eof) ∧
    (r.output.bytesWritten + r.output.remainingCapacity ≤ index ∨ r.Admits data index ∨
      (r.Accounted ∧ r.TakesIn data index fun new => r.EvictsBeyond new r.substrs.entries))

instance (r : StreamReassembler) (data : Bytes) (index : Nat) (eof : Bool) :
    Decidable (r.Sparing data index eof) :=
  inferInstanceAs (Decidable ((_ ∧ _) ∧ _))

section Store

variable {r : StreamReassembler} {piece data : Bytes} {index ib : Nat} {eof e : Bool}

/-- Dropping segments one after the other spares the window, and so does what the
loop does at its end. -/
theorem evict_loop_spares (hf : FreshCall r piece index eof data ib e) (ha : r.Accounted)
    (hl : r.Laid) (hc : r.capacity < 2 ^ 64) {key : Nat} {top : Segment}
    {rest : List (Nat × Segment)} (he : r.substrs.entries = (key, top) :: rest)
    (hi : ib ≤ top.index) (hle : top.data.length + r.emptySize ≤ data.length)
    (hev : Evicts (fun free => (r.missing piece index).card + free ≤ r.capacity)
      (r.missing piece index) (r.emptySize + top.data.length) rest) :
    Spares r data ib ((r.dropFront top).evictLoop data ib) := by
  let Q := fun r' : StreamReassembler => Shrunk r r' ∧
    ∀ p, p < r.output.bytesWritten + r.output.remainingCapacity → r.has p → r'.has p
  have hdrop : ∀ r' key top rest, r'.Laid → r'.Accounted → Q r' →
      r'.substrs.entries = (key, top) :: rest → ib ≤ top.index →
      top.data.length + r'.emptySize ≤ data.length → Q (r'.dropFront top) := by
    rintro r' key top rest hl' ha' ⟨hs, hkept⟩ he hi hle
    refine ⟨hs.trans (drop_front_shrunk top), fun p hp hr => ?_⟩
    exact ha'.drop_front_spares hl' (by rw [hs.capacity]; exact hc)
      (hf.unseen.shrink hs (List.prefix_refl _)) hf.pos he hi hle
      (by rw [hs.output]; exact hp) (hkept p hp hr)
  have hfirst : Q (r.dropFront top) := hdrop r key top rest hl ha ⟨.refl r, fun _ _ h => h⟩ he hi hle
  have hrest : (r.dropFront top).substrs.entries = rest := by simp [dropFront, he]
  rw [← ha.drop_front_size hc he, ← hrest] at hev
  have hends : ∀ r' key top rest, r'.Accounted → Q r' → r'.substrs.entries = (key, top) :: rest →
      data.length < top.data.length + r'.emptySize →
      (r.missing piece index).card + r'.emptySize ≤ r.capacity →
      data.length ≤ r'.storedBytes + r'.output.bufferSize := by
    intro r' _ _ _ ha' hq _ _ hcut
    have := ha'.within
    rw [hf.card_missing, ← hq.1.capacity, ha'.empty_size (by rw [hq.1.capacity]; exact hc)] at hcut
    omega
  obtain ⟨r₁, -, ha₁, ⟨hs, hkept⟩, hend⟩ := evict_loop_rule (Q := Q) hf hdrop hends
    (hl.shrink hfirst.1) (ha.drop_front hc he) hc hfirst hev
  have hsp := hend.spares ha₁ (hl.shrink hs) (by rw [hs.capacity]; exact hc)
    (hf.unseen.shrink hs (List.prefix_refl _))
  exact ⟨fun p hp hr => hsp.kept p (by rw [hs.output]; exact hp) (hkept p hp hr),
    fun p hge hlt hp => hsp.taken p hge hlt (by rw [hs.output]; exact hp)⟩

/-- Either room is made without a loss in the window, or the data is dropped and
lies beyond it. -/
theorem make_room_spares (hf : FreshCall r piece index eof data ib e) (ha : r.Accounted)
    (hl : r.Laid) (hc : r.capacity < 2 ^ 64) (hgt : r.emptySize < data.length)
    (hev : r.EvictsBeyond (r.missing piece index) r.substrs.entries) :
    (r.makeRoom data ib = none ∧
      r.output.bytesWritten + r.output.remainingCapacity ≤ ib) ∨
    ∃ out, r.makeRoom data ib = some out ∧ Spares r data ib out := by
  have hfirst := hf.first_missing
  cases he : r.substrs.entries with
  | nil =>
    have hend : Evicted (fun _ => True) data ib r (r, data.take r.emptySize) :=
      .below hgt (by simp [he])
    exact .inr ⟨_, make_room_unstored he hgt, hend.spares ha hl hc hf.unseen⟩
  | cons c rest =>
    obtain ⟨key, top⟩ := c
    rw [he, EvictsBeyond] at hev
    by_cases hi : top.index < ib
    · have habove : ∀ p ∈ r.missing piece index, top.index < p := by
        intro p hp
        have := hf.mem_missing_iff.mp hp
        omega
      rw [if_pos habove] at hev
      exact .inl ⟨make_room_above he hgt hi, hev ib hfirst⟩
    · have hnot : ¬ ∀ p ∈ r.missing piece index, top.index < p := fun h => hi (h ib hfirst)
      have hadd := ha.add_front hc he
      rw [if_neg hnot] at hev
      by_cases hcut : data.length < top.data.length + r.emptySize
      · exact .inr ⟨_, make_room_trim he hgt (by omega) (by omega),
          ha.trim_front_spares hl hc hf.unseen he (by omega) hgt hcut false⟩
      · rw [hf.card_missing] at hev
        have hloop := hev.resolve_left hcut
        rw [← hf.card_missing] at hloop
        exact .inr ⟨_, make_room_drop he hgt (by omega) (by omega),
          evict_loop_spares hf ha hl hc he (by omega) (by omega) hloop⟩

/-- Once the room is made, everything kept and everything taken is there. -/
theorem Spares.store_has (hl : r.Laid) (hf : FreshCall r piece index eof data ib e)
    {out : StreamReassembler × Bytes} (hm : r.makeRoom data ib = some out)
    (h : Spares r data ib out) {p : Nat}
    (hp : p < r.output.bytesWritten + r.output.remainingCapacity)
    (hin : r.has p ∨ (ib ≤ p ∧ p < ib + data.length)) : (r.store data ib e).has p := by
  obtain ⟨r', d⟩ := out
  obtain ⟨hs, hd⟩ := make_room_shrunk hm
  rw [store, hm]
  change ((r'.put d ib e).drain).has p
  rw [drain_has ((hl.shrink hs).put (hf.unseen.shrink hs hd) e),
    put_has e (hs.keep (hf.unseen.keep hl hf.pos))]
  rcases hin with hr | ⟨hge, hlt⟩
  · exact .inl (h.kept p hp hr)
  · exact .inr ⟨hge, h.taken p hge hlt hp⟩

end Store

section Part

variable {r r' : StreamReassembler} {data : Bytes} {index p : Nat}

theorem Absorbs.has_of_window (h : Absorbs r r' data index) (hp : p < r.windowEnd)
    (hin : r.has p ∨ (index ≤ p ∧ p < index + data.length)) : r'.has p := by
  rcases hin with hr | ⟨hge, hlt⟩
  · exact h.keeps p hr
  · exact h.takes p hge hlt hp

theorem has_of_missing_beyond (hout : ∀ p ∈ r.missing data index, r.windowEnd ≤ p)
    (hp : p < r.windowEnd) (hin : r.has p ∨ (index ≤ p ∧ p < index + data.length)) : r.has p := by
  by_contra hr
  have := hout p (mem_missing.mpr ⟨hin.resolve_left hr, hr⟩)
  omega

/-- A part of the piece will do that has all the bytes that are missing in the window. -/
theorem missing_in_part {d : Bytes} {i : Nat}
    (hpart : ∀ p ∈ r.missing data index, p < r.windowEnd → p ∈ r.missing d i)
    (hp : p < r.windowEnd) (hin : r.has p ∨ (index ≤ p ∧ p < index + data.length)) :
    r.has p ∨ p ∈ r.missing d i :=
  or_iff_not_imp_left.mpr fun hr => hpart p (mem_missing.mpr ⟨hin.resolve_left hr, hr⟩) hp

end Part

/-- A sparing call loses no position of the window and takes in the piece's part
of it. -/
theorem push_sparing {r : StreamReassembler} {data : Bytes} {index : Nat} {eof : Bool}
    (hwf : r.WellFormed) (hc : r.capacity < 2 ^ 64) (hlt : index + data.length < 2 ^ 64)
    (h : r.Sparing data index eof) {p : Nat}
    (hp : p < r.output.bytesWritten + r.output.remainingCapacity)
    (hin : r.has p ∨ (index ≤ p ∧ p < index + data.length)) :
    (r.pushSubstring data index eof).has p := by
  obtain ⟨⟨hwin, hno⟩, hcase⟩ := h
  have hend : r.windowEnd = r.output.bytesWritten + r.output.remainingCapacity := add_of_lt hwin
  have hp' : p < r.windowEnd := hend ▸ hp
  by_cases hfit : r.Fits data index
  · exact (push_absorbs hwf hc hlt hfit hno).has_of_window hp' hin
  rcases hcase with hbeyond | hadm | ⟨ha, htakes⟩
  · rw [push_beyond (by omega)]
    exact hin.resolve_right (by omega)
  · rcases push_admits hwf hc hlt hadm hfit eof with
      ⟨heq, hout⟩ | ⟨d, i, hw, hpos, hfit', hpart, heq⟩
    · rw [heq]
      exact has_of_missing_beyond hout hp' hin
    · have := hw.high
      have hab := push_absorbs hwf hc (by omega) hfit' (not_overwrites_of_pos (e := false) hpos)
      rw [heq]
      exact hab.has_of_window hp' ((missing_in_part hpart hp' hin).imp_right fun hm =>
        (mem_missing.mp hm).1)
  · rcases push_takes_in hwf hc hlt (length_pos_of_not_fits hfit) htakes eof with
      ⟨heq, hout⟩ | ⟨piece, start, mark, d, i, e, hf, hev, hpart, heq⟩
    · rw [heq]
      exact has_of_missing_beyond hout hp' hin
    · have hin' := (missing_in_part hpart hp' hin).imp_right hf.mem_missing_iff.mp
      rw [heq]
      by_cases hle : d.length ≤ r.emptySize
      · have hkeep := hf.unseen.keep hwf.toLaid hf.pos
        exact (store_fits_has e hwf.toLaid hf.unseen hkeep hle p).mpr hin'
      rcases make_room_spares hf ha hwf.toLaid hc (by omega) hev with ⟨hnone, hout⟩ | ⟨out, hm, hsp⟩
      · rw [store, hnone]
        exact hin'.resolve_right (by omega)
      · exact hsp.store_has hwf.toLaid hf hm hp hin'

end StreamReassembler

namespace Session

open StreamReassembler

/-- Each byte of the piece that lies in the window is in the output or in a
stored segment after the push, and so is each byte of the window that was
stored before it. -/
def KeepsWindow (s : Bytes) (x : Session) (data : Bytes) (index : Nat) (eof : Bool) : Prop :=
  ∀ p b, s[p]? = some b → x.InWindow p →
    ((index ≤ p ∧ p < index + data.length) ∨ x.Holds p b) →
    (x.step (.push data index eof)).Holds p b

/-- In every state reached with pieces of one stream, a push that makes its room
beyond the window keeps the bytes of the window. -/
theorem sparing_push_keeps_window (s : Bytes) (capacity : Nat) (us : List Use) (data : Bytes)
    (index : Nat) (eof : Bool) (hs : s.length < 2 ^ 64) (hc : capacity < 2 ^ 64)
    (hus : ∀ u ∈ us, u.PieceOf s) (hpush : (Use.push data index eof).PieceOf s)
    (h : (after capacity us).reassembler.Sparing data index eof) :
    (after capacity us).KeepsWindow s data index eof := by
  intro p b hb hwin hp
  have hx := genuine_after capacity hs hus
  have hx' := hx.step hs hpush
  rw [holds_iff_has hx.wf.toLaid hx.faithful hb] at hp
  rw [holds_iff_has hx'.wf.toLaid hx'.faithful hb]
  have hlimit : (after capacity us).reassembler.capacity < 2 ^ 64 := by rwa [hx.limit]
  exact push_sparing hx.wf hlimit (Nat.lt_of_le_of_lt hpush.1 hs) h hwin.2 hp.symm

/-- Two bytes stored beyond the window of six are dropped when the first three
bytes come in. -/
theorem sparing_push_keeps_window_six :
    (after 6 [.push [4, 5, 6] 3 false, .push [6, 7, 8] 5 true]).KeepsWindow
      [1, 2, 3, 4, 5, 6, 7, 8] [1, 2, 3] 0 false :=
  sparing_push_keeps_window [1, 2, 3, 4, 5, 6, 7, 8] 6
    [.push [4, 5, 6] 3 false, .push [6, 7, 8] 5 true] [1, 2, 3] 0 false
    (by decide) (by decide) (by decide) (by decide) (by decide +kernel)

/-- With three of ten bytes stored, a piece that starts behind them in the
window and is longer than the free space is dropped whole: byte 8 lies in the
window, was pushed, and is held nowhere. -/
theorem push_above_drops_window :
    ¬ ∀ (s : Bytes) (capacity : Nat) (us : List Use) (data : Bytes) (index : Nat) (eof : Bool),
      s.length < 2 ^ 64 → capacity < 2 ^ 64 → (∀ u ∈ us, u.PieceOf s) →
      (Use.push data index eof).PieceOf s → (after capacity us).KeepsWindow s data index eof := by
  intro h
  have hkept := h [0, 1, 2, 3, 4, 5, 6, 7, 8, 9, 10, 11, 12, 13, 14, 15] 10
    [.push [5, 6, 7] 5 false] [8, 9, 10, 11, 12, 13, 14, 15] 8 true (by decide) (by decide)
    (by decide) (by decide) 8 8 rfl (by decide +kernel) (.inl (by decide))
  revert hkept
  decide +kernel

end Session

end Sponge
