import Sponge.Reassembler.Eviction
import Sponge.Reassembler.Session
import Mathlib.Data.Finset.Dedup
import Mathlib.Data.List.Nodup
import Mathlib.Data.List.Range

namespace Sponge.StreamReassembler

open Word64

/-- The byte positions held in the stored segments. -/
def heldPositions (r : StreamReassembler) : Finset Nat :=
  (r.substrs.entries.flatMap (fun e => List.range' e.2.index e.2.data.length)).toFinset

/-- The bytes stored, counted segment by segment. -/
def storedBytes (r : StreamReassembler) : Nat := r.substrs.total (fun e => e.2.data.length)

theorem mem_held {r : StreamReassembler} {p : Nat} :
    p ∈ r.heldPositions ↔ Covered r.substrs.entries p := by
  simp [heldPositions, Covered, Segment.covers]

/-- No position is counted twice. -/
theorem card_held {r : StreamReassembler} (h : r.Laid) :
    r.heldPositions.card = r.storedBytes := by
  have hnd : (r.substrs.entries.flatMap
      (fun e => List.range' e.2.index e.2.data.length)).Nodup := by
    refine List.nodup_flatMap.mpr ⟨fun e _ => List.nodup_range', ?_⟩
    refine r.substrs.sorted.imp_of_mem ?_
    intro a b ha hb hgt
    rw [Function.onFun, List.disjoint_left]
    intro p hpa hpb
    simp only [List.mem_range'_1] at hpa hpb
    have he := h.apart a ha b hb p hpa hpb
    rw [he] at hgt
    exact Nat.lt_irrefl _ hgt
  rw [heldPositions, List.toFinset_card_of_nodup hnd, List.length_flatMap]
  simp [storedBytes, OrdMap.total]

/-- The counter is the number of bytes stored, and these and the buffered bytes
together stay within the capacity. -/
structure Accounted (r : StreamReassembler) : Prop where
  same : r.output.capacity = r.capacity
  exact : r.substrsSize = r.storedBytes
  within : r.output.bufferSize + r.storedBytes ≤ r.capacity

theorem new_accounted (capacity : Nat) : (new capacity).Accounted :=
  ⟨rfl, rfl, Nat.zero_le _⟩

theorem Accounted.empty_size {r : StreamReassembler} (h : r.Accounted)
    (hc : r.capacity < 2 ^ 64) :
    r.emptySize = r.capacity - r.storedBytes - r.output.bufferSize := by
  have := h.within
  rw [empty_size_eq hc, h.exact, add_of_lt (by omega)]
  omega

section Steps

variable {r : StreamReassembler} {seg : Segment}

theorem Accounted.write_whole (h : r.Accounted) (hc : r.capacity < 2 ^ 64)
    (hf : r.substrs.find? r.output.bytesWritten = some seg)
    (hle : seg.data.length ≤ r.output.remainingCapacity) : (r.writeWhole seg).Accounted := by
  have hm := OrdMap.mem_of_find? hf
  have htot : r.storedBytes = seg.data.length + (r.writeWhole seg).storedBytes :=
    OrdMap.total_erase (fun e : Nat × Segment => e.2.data.length) hm
  have hbuf : (r.writeWhole seg).output.bufferSize = r.output.bufferSize + seg.data.length := by
    simp only [writeWhole, ByteStream.bufferSize, ByteStream.write_all hle]
    split <;> simp
  have hexact := h.exact
  have hwithin := h.within
  refine ⟨?_, ?_, ?_⟩
  · rw [show (r.writeWhole seg).capacity = r.capacity from rfl, ← h.same]
    simp only [writeWhole]
    split <;> simp
  · rw [show (r.writeWhole seg).substrsSize = sub r.substrsSize seg.data.length from rfl,
      sub_of_le (by omega) (by omega)]
    omega
  · rw [hbuf, show (r.writeWhole seg).capacity = r.capacity from rfl]
    omega

theorem Accounted.write_part (h : r.Accounted) (hl : r.Laid) (hc : r.capacity < 2 ^ 64)
    (hf : r.substrs.find? r.output.bytesWritten = some seg)
    (hlt : r.output.remainingCapacity < seg.data.length) : (r.writePart seg).Accounted := by
  have hm := OrdMap.mem_of_find? hf
  have hi : seg.index = r.output.bytesWritten := hl.keyed _ hm
  have htot := OrdMap.total_erase (fun e : Nat × Segment => e.2.data.length) hm
  -- what may already stand where the rest goes has no bytes
  have hrest : (r.writePart seg).storedBytes =
      (seg.data.drop r.output.remainingCapacity).length +
        (r.substrs.erase r.output.bytesWritten).total (fun e => e.2.data.length) := by
    refine OrdMap.total_insert (fun e : Nat × Segment => e.2.data.length) ?_
    intro e he hk
    obtain ⟨he, hne⟩ := OrdMap.mem_erase.mp he
    by_contra hpos
    have := hl.beyond hf he hne (by omega)
    have := hl.keyed e he
    omega
  have hbuf : (r.writePart seg).output.bufferSize =
      r.output.bufferSize + r.output.remainingCapacity := by
    have hw : (seg.data.take r.output.remainingCapacity).length ≤ r.output.remainingCapacity := by
      simp
    simp only [writePart, ByteStream.bufferSize, ByteStream.write_all hw, List.length_append,
      List.length_take]
    omega
  have hexact := h.exact
  have hwithin := h.within
  simp only [storedBytes, List.length_drop] at hrest hexact hwithin htot
  refine ⟨h.same, ?_, ?_⟩
  · rw [show (r.writePart seg).substrsSize = sub r.substrsSize r.output.remainingCapacity from rfl,
      sub_of_le (by omega) (by omega), storedBytes]
    omega
  · rw [hbuf, show (r.writePart seg).capacity = r.capacity from rfl, storedBytes]
    omega

theorem Accounted.drain (h : r.Accounted) (hl : r.Laid) (hc : r.capacity < 2 ^ 64) :
    r.drain.Accounted := by
  refine (drain_preserves (Q := fun r' => r'.capacity = r.capacity ∧ r'.Accounted) hl
    ⟨rfl, h⟩ ?_ ?_).2.2
  · rintro r' seg _ ⟨hcap, h⟩ hf hle
    exact ⟨hcap, h.write_whole (hcap ▸ hc) hf hle⟩
  · rintro r' seg hl ⟨hcap, h⟩ hf _ hlt
    exact ⟨hcap, h.write_part hl (hcap ▸ hc) hf hlt⟩

/-- Storing what fits, where no byte is overwritten. -/
theorem Accounted.put {data : Bytes} {index : Nat} {eof : Bool} (h : r.Accounted)
    (hc : r.capacity < 2 ^ 64) (hkeep : ∀ e ∈ r.substrs.entries, e.1 = index → e.2.data = [])
    (hle : data.length ≤ r.emptySize) : (r.put data index eof).Accounted := by
  have htot : (r.put data index eof).storedBytes = data.length + r.storedBytes :=
    OrdMap.total_insert (fun e : Nat × Segment => e.2.data.length)
      (fun e he hk => by simp [hkeep e he hk])
  have hexact := h.exact
  have hwithin := h.within
  rw [h.empty_size hc] at hle
  refine ⟨h.same, ?_, ?_⟩
  · rw [show (r.put data index eof).substrsSize = add r.substrsSize data.length from rfl,
      add_of_lt (by omega)]
    omega
  · rw [htot, show (r.put data index eof).output = r.output from rfl,
      show (r.put data index eof).capacity = r.capacity from rfl]
    omega

theorem Accounted.read_out (h : r.Accounted) (len : Nat) : (r.readOut len).Accounted := by
  refine ⟨h.same, h.exact, ?_⟩
  have := h.within
  simp only [readOut, ByteStream.bufferSize, ByteStream.popOutput, List.length_drop,
    storedBytes] at *
  omega

end Steps

section Evict

variable {r : StreamReassembler} {key : Nat} {top : Segment} {rest : List (Nat × Segment)}

theorem stored_front (he : r.substrs.entries = (key, top) :: rest) :
    r.storedBytes = top.data.length + (rest.map (fun e => e.2.data.length)).sum := by
  simp [storedBytes, OrdMap.total, he]

theorem Accounted.drop_front (h : r.Accounted) (hc : r.capacity < 2 ^ 64)
    (he : r.substrs.entries = (key, top) :: rest) : (r.dropFront top).Accounted := by
  have htot : r.storedBytes = top.data.length + (r.dropFront top).storedBytes :=
    OrdMap.total_pop_front (fun e : Nat × Segment => e.2.data.length) he
  have hexact := h.exact
  have hwithin := h.within
  refine ⟨h.same, ?_, ?_⟩
  · rw [show (r.dropFront top).substrsSize = sub r.substrsSize top.data.length from rfl,
      sub_of_le (by omega) (by omega)]
    omega
  · rw [show (r.dropFront top).output = r.output from rfl,
      show (r.dropFront top).capacity = r.capacity from rfl]
    omega

theorem Accounted.drop_front_size (h : r.Accounted) (hc : r.capacity < 2 ^ 64)
    (he : r.substrs.entries = (key, top) :: rest) :
    (r.dropFront top).emptySize = r.emptySize + top.data.length := by
  have htot : r.storedBytes = top.data.length + (r.dropFront top).storedBytes :=
    OrdMap.total_pop_front (fun e : Nat × Segment => e.2.data.length) he
  have hwithin := h.within
  rw [h.empty_size hc, (h.drop_front hc he).empty_size hc,
    show (r.dropFront top).output = r.output from rfl,
    show (r.dropFront top).capacity = r.capacity from rfl]
  omega

/-- A cut makes the room it is made for, unless the counter and the buffered
bytes together are less than what is taken off. -/
theorem Accounted.trim_front_size (h : r.Accounted) (hc : r.capacity < 2 ^ 64) {size : Nat}
    (hle : size ≤ r.storedBytes + r.output.bufferSize) (key : Nat) (seg : Segment) :
    (r.trimFront key seg size).emptySize = r.emptySize + size := by
  have hexact := h.exact
  have hwithin := h.within
  have hcount : add (r.trimFront key seg size).substrsSize
      (r.trimFront key seg size).output.bufferSize = r.storedBytes + r.output.bufferSize - size := by
    simp only [trimFront, hexact]
    unfold add sub
    omega
  rw [empty_size_eq (r := r.trimFront key seg size) hc, hcount, h.empty_size hc,
    show (r.trimFront key seg size).capacity = r.capacity from rfl]
  omega

/-- With nothing free the cut is as long as what the counter gives up. -/
theorem Accounted.trim_front (h : r.Accounted) (hc : r.capacity < 2 ^ 64) {size : Nat}
    (he : r.substrs.entries = (key, top) :: rest) (hfull : r.emptySize = 0)
    (hlt : size < top.data.length) (b : Bool) :
    (r.trimFront key { top with eof := b } size).Accounted ∧
      size ≤ (r.trimFront key { top with eof := b } size).emptySize := by
  have hexact := h.exact
  have hwithin := h.within
  have hfront := stored_front he
  have htot : (r.trimFront key { top with eof := b } size).storedBytes = r.storedBytes - size := by
    have hkeep : sub (add top.data.length 0) size = top.data.length - size := by
      rw [add_of_lt (by omega), sub_of_le (by omega) (by omega)]
      omega
    simp only [storedBytes, OrdMap.total, trimFront, OrdMap.entries_insert_front he, hfull, hkeep,
      List.map_cons, List.sum_cons, List.length_take] at hfront ⊢
    omega
  refine ⟨⟨h.same, ?_, ?_⟩, ?_⟩
  · rw [htot, show (r.trimFront key { top with eof := b } size).substrsSize =
      sub r.substrsSize size from rfl, sub_of_le (by omega) (by omega)]
    omega
  · rw [htot, show (r.trimFront key { top with eof := b } size).output = r.output from rfl,
      show (r.trimFront key { top with eof := b } size).capacity = r.capacity from rfl]
    omega
  · rw [h.trim_front_size hc (by omega)]
    omega

end Evict

/-- How the loop that makes room ends: the data fits, or nothing stored lies above
it and it is cut, or the highest segment is cut. -/
inductive Evicted (cut : Nat → Prop) (data : Bytes) (ib : Nat) (r : StreamReassembler) :
    StreamReassembler × Bytes → Prop
  | fits (hle : data.length ≤ r.emptySize) : Evicted cut data ib r (r, data)
  | below (hgt : r.emptySize < data.length) (hlow : ∀ e ∈ r.substrs.entries, e.2.index < ib) :
    Evicted cut data ib r (r, data.take r.emptySize)
  | trim {key : Nat} {top : Segment} {rest : List (Nat × Segment)}
    (he : r.substrs.entries = (key, top) :: rest) (hgt : r.emptySize < data.length)
    (hi : ib ≤ top.index) (hlt : data.length < top.data.length + r.emptySize)
    (hcut : cut r.emptySize) :
    Evicted cut data ib r (r.trimFront key top data.length, data)

theorem evict_loop_fits {r : StreamReassembler} {data : Bytes} (ib : Nat)
    (h : data.length ≤ r.emptySize) : r.evictLoop data ib = (r, data) := by
  rw [evictLoop, dif_neg (Nat.not_lt.mpr h)]

/-- Everything stored starts no higher than the first segment. -/
theorem Laid.front_highest {r : StreamReassembler} (h : r.Laid) {key : Nat} {top : Segment}
    {rest : List (Nat × Segment)} (he : r.substrs.entries = (key, top) :: rest) :
    ∀ e ∈ r.substrs.entries, e.2.index ≤ top.index := by
  intro e hmem
  have hki : top.index = key := h.keyed (key, top) (by simp [he])
  have hei := h.keyed e hmem
  have hs := r.substrs.sorted
  rw [he] at hmem hs
  rcases List.mem_cons.mp hmem with rfl | hrest
  · exact Nat.le_refl _
  · have : key > e.1 := (List.pairwise_cons.mp hs).1 e hrest
    omega

theorem Accounted.add_front {r : StreamReassembler} (h : r.Accounted) (hc : r.capacity < 2 ^ 64)
    {key : Nat} {top : Segment} {rest : List (Nat × Segment)}
    (he : r.substrs.entries = (key, top) :: rest) :
    add top.data.length r.emptySize = top.data.length + r.emptySize := by
  have := h.within
  have := stored_front he
  have := h.empty_size hc
  exact add_of_lt (by omega)

/-- The induction rule for the loop that makes room for new bytes: what holds
while segments are dropped holds when it ends. A cut ends it if what the counter
gives up is covered by the stored and the buffered bytes. -/
theorem evict_loop_rule {Q : StreamReassembler → Prop} {cut : Nat → Prop}
    {r₀ r : StreamReassembler} {piece data : Bytes} {index ib : Nat} {eof e : Bool}
    (hf : FreshCall r₀ piece index eof data ib e)
    (drop : ∀ r key top rest, r.Laid → r.Accounted → Q r →
      r.substrs.entries = (key, top) :: rest → ib ≤ top.index →
      top.data.length + r.emptySize ≤ data.length → Q (r.dropFront top))
    (ends : ∀ r key top rest, r.Accounted → Q r → r.substrs.entries = (key, top) :: rest →
      data.length < top.data.length + r.emptySize → cut r.emptySize →
      data.length ≤ r.storedBytes + r.output.bufferSize)
    (hl : r.Laid) (ha : r.Accounted) (hc : r.capacity < 2 ^ 64) (hq : Q r)
    (hev : Evicts cut (r₀.missing piece index) r.emptySize r.substrs.entries) :
    ∃ r₁, Shrunk r r₁ ∧ r₁.Accounted ∧ Q r₁ ∧
      Evicted cut data ib r₁ (r.evictLoop data ib) := by
  fun_induction evictLoop r data ib with
  | case1 r hlt he => exact ⟨r, .refl r, ha, hq, .below hlt (by simp [he])⟩
  | case2 r hlt key top rest he hi =>
    refine ⟨r, .refl r, ha, hq, .below hlt (fun e hm => ?_)⟩
    have := hl.front_highest he e hm
    omega
  | case3 r hlt key top rest he hi hgt ih =>
    rw [ha.add_front hc he] at hgt
    rw [he] at hev
    have hcut := hev.of_front (by rw [hf.card_missing]; exact hlt) ⟨ib, hf.first_missing, by omega⟩
    rw [hf.card_missing, if_pos hgt] at hcut
    have hroom := ha.trim_front_size hc (ends r key top rest ha hq he hgt hcut) key top
    rw [evict_loop_fits ib (by omega)]
    exact ⟨r, .refl r, ha, hq, .trim he hlt (by omega) hgt hcut⟩
  | case4 r hlt key top rest he hi hgt ih =>
    rw [ha.add_front hc he] at hgt
    have hle : top.data.length + r.emptySize ≤ data.length := by omega
    have hrest : (r.dropFront top).substrs.entries = rest := by simp [dropFront, he]
    have hs := drop_front_shrunk (r := r) top
    rw [he] at hev
    have hnext := hev.of_front (by rw [hf.card_missing]; exact hlt) ⟨ib, hf.first_missing, by omega⟩
    rw [hf.card_missing, if_neg (Nat.not_lt.mpr hle), ← ha.drop_front_size hc he, ← hrest] at hnext
    obtain ⟨r₁, hs₁, ha₁, hq₁, hend⟩ := ih (hl.shrink hs) (ha.drop_front hc he) hc
      (drop r key top rest hl ha hq he (by omega) hle) hnext
    exact ⟨r₁, hs.trans hs₁, ha₁, hq₁, hend⟩
  | case5 r hlt => exact ⟨r, .refl r, ha, hq, .fits (Nat.not_lt.mp hlt)⟩

theorem full_cut_counted {r : StreamReassembler} {key size : Nat} {top : Segment}
    {rest : List (Nat × Segment)} (he : r.substrs.entries = (key, top) :: rest)
    (hlt : size < top.data.length + r.emptySize) (hfull : r.emptySize = 0) :
    size ≤ r.storedBytes + r.output.bufferSize := by
  have hfront := stored_front he
  omega

theorem Evicted.accounted {r r' : StreamReassembler} {data d : Bytes} {ib : Nat}
    (h : Evicted (· = 0) data ib r (r', d)) (ha : r.Accounted) (hc : r.capacity < 2 ^ 64) :
    r'.Accounted ∧ d.length ≤ r'.emptySize := by
  cases h with
  | fits hle => exact ⟨ha, hle⟩
  | below hgt hlow => exact ⟨ha, by simp⟩
  | trim he hgt hi hlt hcut =>
    exact ha.trim_front hc he hcut (by omega) _

theorem Accounted.make_room {r r' : StreamReassembler} {piece data d : Bytes} {index ib : Nat}
    {eof e : Bool} (ha : r.Accounted) (hl : r.Laid) (hc : r.capacity < 2 ^ 64)
    (hf : FreshCall r piece index eof data ib e)
    (hev : Evicts (· = 0) (r.missing piece index) r.emptySize r.substrs.entries)
    (hm : r.makeRoom data ib = some (r', d)) : r'.Accounted ∧ d.length ≤ r'.emptySize := by
  by_cases hle : data.length ≤ r.emptySize
  · rw [make_room_fits ib hle] at hm
    cases hm
    exact ⟨ha, hle⟩
  have hgt : r.emptySize < data.length := Nat.lt_of_not_ge hle
  cases he : r.substrs.entries with
  | nil =>
    rw [make_room_unstored he hgt] at hm
    cases hm
    exact ⟨ha, by simp⟩
  | cons c rest =>
    obtain ⟨key, top⟩ := c
    by_cases hi : top.index < ib
    · rw [make_room_above he hgt hi] at hm
      cases hm
    have hadd := ha.add_front hc he
    rw [he] at hev
    have hnext := hev.of_front (by rwa [hf.card_missing]) ⟨ib, hf.first_missing, by omega⟩
    rw [hf.card_missing] at hnext
    by_cases hcut : data.length < top.data.length + r.emptySize
    · rw [make_room_trim he hgt (by omega) (by omega)] at hm
      cases hm
      rw [if_pos hcut] at hnext
      exact ha.trim_front hc he hnext (by omega) false
    · rw [make_room_drop he hgt (by omega) (by omega)] at hm
      have hrest : (r.dropFront top).substrs.entries = rest := by simp [dropFront, he]
      have hs := drop_front_shrunk (r := r) top
      rw [if_neg hcut, ← ha.drop_front_size hc he, ← hrest] at hnext
      obtain ⟨r₁, hs₁, ha₁, -, hend⟩ := evict_loop_rule (Q := fun _ => True) hf
        (fun _ _ _ _ _ _ _ _ _ _ => trivial) (fun _ _ _ _ _ _ => full_cut_counted)
        (hl.shrink hs) (ha.drop_front hc he) hc trivial hnext
      rw [Option.some.inj hm] at hend
      exact hend.accounted ha₁ (by rw [hs₁.capacity]; exact hc)

/-- The call keeps the books: the piece lies beyond the window, or the new bytes it
admits fit in the free space, or they are one stretch and each stored segment that is
evicted for them goes whole, or is cut with no byte free. The second conjunct
leaves out a piece that would run past the last stream position and an empty last
piece pushed onto stored bytes. -/
def Roomy (r : StreamReassembler) (data : Bytes) (index : Nat) (eof : Bool) : Prop :=
  r.windowEnd ≤ index ∨
    ((index + data.length < 2 ^ 64 ∧ ¬ r.Overwrites data index eof) ∧
      (r.Admits data index ∨ r.TakesIn data index fun new =>
        Evicts (· = 0) new r.emptySize r.substrs.entries))

instance (r : StreamReassembler) (data : Bytes) (index : Nat) (eof : Bool) :
    Decidable (r.Roomy data index eof) :=
  inferInstanceAs (Decidable (_ ∨ _ ∧ _))

theorem Accounted.store {r : StreamReassembler} {piece data : Bytes} {index ib : Nat}
    {eof e : Bool} (ha : r.Accounted) (hl : r.Laid) (hc : r.capacity < 2 ^ 64)
    (hf : FreshCall r piece index eof data ib e)
    (hev : Evicts (· = 0) (r.missing piece index) r.emptySize r.substrs.entries) :
    (r.store data ib e).Accounted := by
  rw [StreamReassembler.store]
  split
  · exact ha
  · rename_i r' d hm
    obtain ⟨hs, hd⟩ := make_room_shrunk hm
    obtain ⟨ha', hle⟩ := ha.make_room hl hc hf hev hm
    have hc' : r'.capacity < 2 ^ 64 := by rw [hs.capacity]; exact hc
    have hkeep := hs.keep (hf.unseen.keep hl hf.pos)
    exact (ha'.put hc' hkeep hle).drain ((hl.shrink hs).put (hf.unseen.shrink hs hd) e) hc'

theorem Accounted.push_fits {r : StreamReassembler} {data : Bytes} {index : Nat} {eof : Bool}
    (h : r.Accounted) (hwf : r.WellFormed) (hc : r.capacity < 2 ^ 64)
    (hlt : index + data.length < 2 ^ 64) (hno : ¬ r.Overwrites data index eof)
    (hfit : r.Fits data index) : (r.pushSubstring data index eof).Accounted := by
  refine (StreamReassembler.push_fits (Q := fun r' => r'.capacity = r.capacity ∧ r'.Accounted)
    (A := fun _ _ _ => True) (fun _ _ _ => trivial) ?_ hwf hc ⟨rfl, h⟩ hlt hfit hno trivial).1.2
  rintro r' d i e hwf ⟨hcap, h⟩ - hu hkeep hle
  have hl := hwf.toLaid.put hu e
  rw [store_fits e hle]
  exact ⟨(drain_capacity hl).trans hcap, (h.put (hcap ▸ hc) hkeep hle).drain hl (hcap ▸ hc)⟩

theorem Accounted.push {r : StreamReassembler} {data : Bytes} {index : Nat} {eof : Bool}
    (h : r.Accounted) (hwf : r.WellFormed) (hc : r.capacity < 2 ^ 64)
    (hr : r.Roomy data index eof) : (r.pushSubstring data index eof).Accounted := by
  rcases hr with hge | ⟨⟨hlt, hno⟩, hcase⟩
  · rwa [push_beyond hge]
  by_cases hfit : r.Fits data index
  · exact h.push_fits hwf hc hlt hno hfit
  rcases hcase with hadm | htakes
  · rcases push_admits hwf hc hlt hadm hfit eof with ⟨heq, -⟩ | ⟨d, i, hw, hpos, hfit', -, heq⟩
    · rwa [heq]
    · have := hw.high
      rw [heq]
      exact h.push_fits hwf hc (by omega) (not_overwrites_of_pos hpos) hfit'
  · rcases push_takes_in hwf hc hlt (length_pos_of_not_fits hfit) htakes eof with
      ⟨heq, -⟩ | ⟨piece, start, mark, d, i, e, hf, hev, -, heq⟩
    · rwa [heq]
    · rw [heq]
      exact h.store hwf.toLaid hc hf hev

/-- What `unassembled_bytes` is meant to be: the number of positions stored,
which together with the buffered bytes stays within the capacity. -/
def CountsHeld (r : StreamReassembler) : Prop :=
  r.unassembledBytes = r.heldPositions.card ∧
    r.output.bufferSize + r.unassembledBytes ≤ r.capacity

theorem Accounted.counts_held {r : StreamReassembler} (h : r.Accounted) (hl : r.Laid) :
    r.CountsHeld := by
  rw [CountsHeld, unassembledBytes, card_held hl, h.exact]
  exact ⟨rfl, h.within⟩

/-- As long as a push cuts stored segments only when the store is full, the counter
is exact and the memory bound holds in every state. -/
theorem counts_held_while_roomy (capacity : Nat) (us : List Use) (hc : capacity < 2 ^ 64)
    (h : Run.Along Session.step (Session.OnPush Roomy) (.new capacity) us) :
    Run.Always Session.step (fun x => x.reassembler.CountsHeld) (.new capacity) us := by
  refine Run.always_of_invariant
    (I := fun x => x.Sound capacity ∧ x.reassembler.Accounted)
    ⟨Session.new_sound capacity, new_accounted capacity⟩ h ?_
    (fun x hx => hx.2.counts_held hx.1.wf.toLaid)
  rintro x u ⟨hs, ha⟩ hu
  cases u with
  | push data index eof =>
    have hr : Session.InRange x.reassembler data index eof := hu.imp_right (fun h => h.1.1)
    exact ⟨hs.step hr, ha.push hs.wf (hs.limit ▸ hc) hu⟩
  | read len => exact ⟨hs.step (u := .read len) trivial, ha.read_out len⟩

/-- A piece fills the store and reaches past the window; it is cut twice to make
room for what comes before it, and then all is written. -/
theorem counts_held_while_roomy_four : Run.Always Session.step
    (fun x => x.reassembler.CountsHeld) (.new 4)
    [.push [3, 4, 5, 6] 3 false, .push [1, 2] 1 false, .push [0] 0 false, .read 2,
      .push [4, 5] 4 true] :=
  counts_held_while_roomy 4 _ (by decide) (by decide +kernel)

/-- Seven bytes come in under six stored ones with four bytes to spare: the
counter gives up all seven though three were cut, and ends at six with ten
positions held. -/
theorem trim_miscounts :
    ¬ ∀ (capacity : Nat) (us : List Use), capacity < 2 ^ 64 → (∀ u ∈ us, u.SizeT) →
      Run.Always Session.step (fun x => x.reassembler.CountsHeld) (.new capacity) us := by
  intro h
  have hcount := (h 10 [.push [8, 9, 10, 11, 12, 13] 8 false, .push [1, 2, 3, 4, 5, 6, 7] 1 false]
    (by decide) (by decide)).final.1
  revert hcount
  decide +kernel

end Sponge.StreamReassembler
