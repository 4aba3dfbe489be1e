import Sponge.Reassembler.Layout

namespace Sponge.StreamReassembler

open Word64

/-- Eviction: `r'` stores segments of `r`, possibly cut at their ends. -/
structure Shrunk (r r' : StreamReassembler) : Prop where
  output : r'.output = r.output
  capacity : r'.capacity = r.capacity
  entry : ∀ e' ∈ r'.substrs.entries, ∃ e ∈ r.substrs.entries, e'.1 = e.1 ∧
    e'.2.index = e.2.index ∧ e'.2.data <+: e.2.data ∧ (e'.2.data = [] → e.2.data = []) ∧
    (e'.2.eof = true → e.2.eof = true)

theorem Shrunk.refl (r : StreamReassembler) : Shrunk r r :=
  ⟨rfl, rfl, fun e he => ⟨e, he, rfl, rfl, List.prefix_refl _, id, id⟩⟩

theorem Shrunk.trans {r₁ r₂ r₃ : StreamReassembler} (h : Shrunk r₁ r₂) (h' : Shrunk r₂ r₃) :
    Shrunk r₁ r₃ := by
  refine ⟨h'.output.trans h.output, h'.capacity.trans h.capacity, ?_⟩
  intro e₃ he₃
  obtain ⟨e₂, he₂, hk, hi, hd, hn, hf⟩ := h'.entry e₃ he₃
  obtain ⟨e₁, he₁, hk', hi', hd', hn', hf'⟩ := h.entry e₂ he₂
  exact ⟨e₁, he₁, hk.trans hk', hi.trans hi', hd.trans hd', hn' ∘ hn, hf' ∘ hf⟩

section Evict

variable {r : StreamReassembler} {key : Nat} {top : Segment} {rest : List (Nat × Segment)}

theorem trim_front_shrunk {size : Nat} (he : r.substrs.entries = (key, top) :: rest) (b : Bool)
    (hgt : add top.data.length r.emptySize > size) :
    Shrunk r (r.trimFront key { top with eof := top.eof && b } size) := by
  have hkeep : 0 < sub (add top.data.length r.emptySize) size := by
    rw [sub_of_le (by omega) (add_lt _ _)]
    omega
  refine ⟨rfl, rfl, ?_⟩
  intro e' he'
  simp only [trimFront, OrdMap.entries_insert_front he] at he'
  rcases List.mem_cons.mp he' with rfl | hm
  · refine ⟨(key, top), by simp [he], rfl, rfl, List.take_prefix _ _, ?_, ?_⟩
    · intro hnil
      rcases List.take_eq_nil_iff.mp hnil with h | h
      · omega
      · exact h
    · intro hf
      exact (Bool.and_eq_true _ _ ▸ hf).1
  · exact ⟨e', by simp [he, hm], rfl, rfl, List.prefix_refl _, id, id⟩

theorem drop_front_shrunk (top : Segment) : Shrunk r (r.dropFront top) :=
  ⟨rfl, rfl, fun e he =>
    ⟨e, List.mem_of_mem_tail he, rfl, rfl, List.prefix_refl _, id, id⟩⟩

theorem evict_loop_shrunk (r : StreamReassembler) (data : Bytes) (ib : Nat) :
    Shrunk r (r.evictLoop data ib).1 ∧ (r.evictLoop data ib).2 <+: data := by
  fun_induction evictLoop r data ib with
  | case1 r hlt he => exact ⟨.refl r, List.take_prefix _ _⟩
  | case2 r hlt key top rest he hi => exact ⟨.refl r, List.take_prefix _ _⟩
  | case3 r hlt key top rest he hi hgt ih =>
    have hs := trim_front_shrunk he true hgt
    rw [Bool.and_true] at hs
    exact ⟨hs.trans ih.1, ih.2⟩
  | case4 r hlt key top rest he hi hgt ih => exact ⟨(drop_front_shrunk top).trans ih.1, ih.2⟩
  | case5 r hlt => exact ⟨.refl r, List.prefix_refl _⟩

/-- Making room drops or cuts stored segments and cuts the data, and touches
nothing else. -/
theorem make_room_shrunk {r r' : StreamReassembler} {data d : Bytes} {ib : Nat}
    (h : r.makeRoom data ib = some (r', d)) : Shrunk r r' ∧ d <+: data := by
  unfold makeRoom at h
  split at h
  · split at h
    · cases h
      exact ⟨.refl r, List.take_prefix _ _⟩
    · rename_i key top rest he
      split at h
      · cases h
      split at h
      · rename_i hgt
        cases h
        have hs := trim_front_shrunk he false hgt
        rw [Bool.and_false] at hs
        exact ⟨hs, List.prefix_refl _⟩
      · have hs := evict_loop_shrunk (r.dropFront top) data ib
        rw [Option.some.inj h] at hs
        exact ⟨(drop_front_shrunk top).trans hs.1, hs.2⟩
  · cases h
    exact ⟨.refl r, List.prefix_refl _⟩

/-- Data that fits is stored as it is. -/
theorem make_room_fits {data : Bytes} (ib : Nat) (h : data.length ≤ r.emptySize) :
    r.makeRoom data ib = some (r, data) := by
  simp [makeRoom, Nat.not_lt.mpr h]

end Evict

theorem Shrunk.covers {r r' : StreamReassembler} (h : Shrunk r r') {e' : Nat × Segment}
    (he' : e' ∈ r'.substrs.entries) : ∃ e ∈ r.substrs.entries, e'.1 = e.1 ∧
      ∀ p, e'.2.covers p → e.2.covers p := by
  obtain ⟨e, he, hk, hi, hd, -, -⟩ := h.entry e' he'
  refine ⟨e, he, hk, ?_⟩
  intro p hp
  have := hd.length_le
  simp only [Segment.covers] at hp ⊢
  omega

theorem Shrunk.covered {r r' : StreamReassembler} (h : Shrunk r r') {p : Nat}
    (hc : Covered r'.substrs.entries p) : Covered r.substrs.entries p := by
  obtain ⟨e', he', hp⟩ := hc
  obtain ⟨e, he, -, hcov⟩ := h.covers he'
  exact ⟨e, he, hcov p hp⟩

theorem Laid.shrink {r r' : StreamReassembler} (h : r.Laid) (hs : Shrunk r r') : r'.Laid := by
  refine ⟨?_, ?_, ?_, ?_, hs.output ▸ h.counted⟩
  · intro e' he'
    obtain ⟨e, he, hk, hi, -⟩ := hs.entry e' he'
    rw [hk, hi, h.keyed e he]
  · intro e' he'
    obtain ⟨e, he, -, hi, hd, -⟩ := hs.entry e' he'
    have := hd.length_le
    have := h.fits e he
    omega
  · intro a ha b hb p hpa hpb
    obtain ⟨a₀, ha₀, hka, hca⟩ := hs.covers ha
    obtain ⟨b₀, hb₀, hkb, hcb⟩ := hs.covers hb
    have he := h.apart a₀ ha₀ b₀ hb₀ p (hca p hpa) (hcb p hpb)
    exact OrdMap.entries_key_unique _ r'.substrs.sorted ha hb (by rw [hka, hkb, he])
  · intro e' he' hp
    obtain ⟨e, he, -, hi, hd, -⟩ := hs.entry e' he'
    have := hd.length_le
    rw [hs.output, hi]
    exact h.above e he (by omega)

theorem WellFormed.shrink {r r' : StreamReassembler} (h : r.WellFormed) (hs : Shrunk r r') :
    r'.WellFormed := by
  refine ⟨h.toLaid.shrink hs, ?_⟩
  intro e' he'
  obtain ⟨e, he, -, hi, -, hn, -⟩ := hs.entry e' he'
  have hz := h.nonzero e he
  by_contra hlt
  have hnil : e'.2.data = [] := List.length_eq_zero_iff.mp (by omega)
  rw [hn hnil, List.length_nil] at hz
  omega

/-- Data at `index` that is new: not written out, and no byte of it stored. -/
structure Unseen (r : StreamReassembler) (data : Bytes) (index : Nat) : Prop where
  above : r.output.bytesWritten ≤ index
  clear : ∀ p, index ≤ p → p < index + data.length → ¬ Covered r.substrs.entries p
  fits : index + data.length < 2 ^ 64

theorem Unseen.shrink {r r' : StreamReassembler} {data d : Bytes} {index : Nat}
    (h : r.Unseen data index) (hs : Shrunk r r') (hd : d <+: data) : r'.Unseen d index := by
  have hl := hd.length_le
  refine ⟨hs.output ▸ h.above, ?_, by have := h.fits; omega⟩
  intro p hp hlt hc
  exact h.clear p hp (by omega) (hs.covered hc)

theorem put_mem {r : StreamReassembler} {data : Bytes} {index : Nat} {eof : Bool}
    {e : Nat × Segment} : e ∈ (r.put data index eof).substrs.entries ↔
      e = (index, ⟨eof, data, index⟩) ∨ (e ∈ r.substrs.entries ∧ e.1 ≠ index) :=
  OrdMap.mem_insert

theorem Laid.put {r : StreamReassembler} {data : Bytes} {index : Nat} (h : r.Laid)
    (hu : r.Unseen data index) (eof : Bool) : (r.put data index eof).Laid := by
  refine ⟨?_, ?_, ?_, ?_, h.counted⟩
  · intro e he
    rcases put_mem.mp he with rfl | ⟨he, -⟩
    · rfl
    · exact h.keyed e he
  · intro e he
    rcases put_mem.mp he with rfl | ⟨he, -⟩
    · exact hu.fits
    · exact h.fits e he
  · intro a ha b hb p hpa hpb
    rcases put_mem.mp ha with rfl | ⟨ha, -⟩ <;> rcases put_mem.mp hb with rfl | ⟨hb, -⟩
    · rfl
    · exact absurd ⟨b, hb, hpb⟩ (hu.clear p hpa.1 hpa.2)
    · exact absurd ⟨a, ha, hpa⟩ (hu.clear p hpb.1 hpb.2)
    · exact h.apart a ha b hb p hpa hpb
  · intro e he hp
    rcases put_mem.mp he with rfl | ⟨he, -⟩
    · exact hu.above
    · exact h.above e he hp

/-- An empty segment put at position zero does not outlive the write-out. -/
theorem drain_nonzero {r : StreamReassembler} (h : r.Laid)
    (hz : ∀ e ∈ r.substrs.entries, 0 < e.2.index + e.2.data.length ∨
      (r.output.bytesWritten = 0 ∧ 0 < r.output.remainingCapacity)) :
    ∀ e ∈ r.drain.substrs.entries, 0 < e.2.index + e.2.data.length := by
  fun_induction drain r with
  | case1 r hf =>
    intro e he
    rcases hz e he with hz | ⟨hz, -⟩
    · exact hz
    · have hk := OrdMap.find?_none_iff.mp hf e he
      have := h.keyed e he
      omega
  | case2 r seg hf h0 =>
    intro e he
    rcases hz e he with hz | ⟨-, hz⟩
    · exact hz
    · omega
  | case3 r seg hf h0 hge ih =>
    refine ih (h.write_whole hf hge) ?_
    intro e he
    obtain ⟨he, hk⟩ := OrdMap.mem_erase.mp he
    rcases hz e he with hz | ⟨hz, -⟩
    · exact .inl hz
    · have := h.keyed e he
      exact .inl (by omega)
  | case4 r seg hf h0 hge ih =>
    refine ih (h.write_part hf (by omega)) ?_
    intro e he
    rcases OrdMap.mem_insert.mp he with rfl | ⟨he, -⟩
    · exact .inl (by simp only; omega)
    · obtain ⟨he, hk⟩ := OrdMap.mem_erase.mp he
      rcases hz e he with hz | ⟨hz, -⟩
      · exact .inl hz
      · have := h.keyed e he
        exact .inl (by omega)

/-- Storing new data keeps the layout. The stream has to take a byte while it
is still at its start, which the window check has made sure of. -/
theorem WellFormed.store {r : StreamReassembler} {data : Bytes} {index : Nat} (h : r.WellFormed)
    (hu : r.Unseen data index) (hopen : r.output.bytesWritten = 0 → 0 < r.output.remainingCapacity)
    (eof : Bool) : (r.store data index eof).WellFormed := by
  unfold StreamReassembler.store
  split
  · exact h
  · rename_i r' d hm
    obtain ⟨hs, hd⟩ := make_room_shrunk hm
    have hwf := h.shrink hs
    have hl := hwf.toLaid.put (hu.shrink hs hd) eof
    refine ⟨hl.drain, drain_nonzero hl ?_⟩
    intro e he
    rcases put_mem.mp he with rfl | ⟨he, -⟩
    · by_cases hz : 0 < index + d.length
      · exact .inl hz
      · have hb : r.output.bytesWritten = 0 := by have := hu.above; omega
        exact .inr (by rw [StreamReassembler.put, hs.output]; exact ⟨hb, hopen hb⟩)
    · exact .inl (hwf.nonzero e he)

/-- The data that is left once the written part is skipped. -/
theorem skip_written_within {r : StreamReassembler} {data d : Bytes} {index i : Nat}
    (h : r.skipWritten data index = some (d, i)) :
    Within d i data index ∧ i + d.length = index + data.length ∧
      i = max index r.output.bytesWritten ∧ (d = [] → data = []) := by
  unfold skipWritten at h
  split at h
  · split at h
    · cases h
    · cases h
      have hw := Within.drop data index (r.output.bytesWritten - index) (by omega)
      rw [show index + (r.output.bytesWritten - index) = r.output.bytesWritten by omega] at hw
      refine ⟨hw, by simp; omega, by omega, ?_⟩
      intro hnil
      have := List.drop_eq_nil_iff.mp hnil
      omega
  · cases h
    exact ⟨.refl _ _, rfl, by omega, id⟩

theorem skip_written_none {r : StreamReassembler} {data : Bytes} {index : Nat}
    (h : r.skipWritten data index = none) :
    index < r.output.bytesWritten ∧ index + data.length ≤ r.output.bytesWritten := by
  unfold skipWritten at h
  split at h
  · split at h
    · omega
    · cases h
  · cases h

/-- Below the end of the window the stream still takes bytes, if it has taken
none so far. -/
theorem window_open {r : StreamReassembler} {index : Nat} (h : index < r.windowEnd) :
    r.output.bytesWritten = 0 → 0 < r.output.remainingCapacity := by
  intro h0
  by_contra hr
  have hr : r.output.remainingCapacity = 0 := by omega
  simp [windowEnd, add, h0, hr] at h

/-- What a call finds when it gets to store a piece of nonempty data. -/
structure FreshCall (r : StreamReassembler) (data : Bytes) (index : Nat) (eof : Bool)
    (d : Bytes) (i : Nat) (e : Bool) : Prop where
  pos : 0 < d.length
  within : Within d i data index
  outside : ∀ p, index ≤ p → p < index + data.length → r.has p ∨ (i ≤ p ∧ p < i + d.length)
  unseen : r.Unseen d i
  mark : e = true ↔ eof = true ∧ i + d.length = index + data.length

/-- What a call finds when it splits its data in two: a stored segment between
them. If that segment has bytes, then all of the second part is new. -/
structure SplitCall (r : StreamReassembler) (data : Bytes) (index : Nat) (eof : Bool)
    (d₁ : Bytes) (i₁ : Nat) (e₁ : Bool) (d₂ : Bytes) (i₂ : Nat) (e₂ : Bool) : Prop where
  pos₁ : 0 < d₁.length
  pos₂ : 0 < d₂.length
  within₁ : Within d₁ i₁ data index
  within₂ : Within d₂ i₂ data index
  start : i₁ = max index r.output.bytesWritten
  order : i₁ + d₁.length ≤ i₂
  outside : ∀ p, index ≤ p → p < index + data.length → r.has p ∨
    (i₁ ≤ p ∧ p < i₁ + d₁.length) ∨ (i₂ ≤ p ∧ p < i₂ + d₂.length)
  mark₁ : e₁ = false
  mark₂ : e₂ = true ↔ eof = true ∧ i₂ + d₂.length = index + data.length
  wedge : ∃ c ∈ r.substrs.entries, c.2.index = i₁ + d₁.length ∧
    c.2.index + c.2.data.length = i₂ ∧ c.2.index < index + data.length ∧
    (c.2.data = [] ∨ ∀ p, i₂ ≤ p → p < i₂ + d₂.length → ¬ r.has p)

section Call

variable {r : StreamReassembler} {data d : Bytes} {index i : Nat} {eof : Bool}

theorem dedup_call (hwf : r.WellFormed) (hlt : index + data.length < 2 ^ 64)
    (hs : r.skipWritten data index = some (d, i)) (hpos : 0 < d.length) (eof : Bool) :
    DedupSpec r.substrs.entries d i eof
      (dedup eof r.substrs.entries d i (sub (add i d.length) 1) eof) := by
  have hend := (skip_written_within hs).2.1
  exact dedup_spec eof hwf.placed hpos (last_eq (by omega) (by omega))

theorem Laid.sorted_index (h : r.Laid) :
    r.substrs.entries.Pairwise fun a b => b.2.index < a.2.index :=
  r.substrs.sorted.imp_of_mem fun {a b} ha hb hgt => by
    rw [h.keyed a ha, h.keyed b hb]
    exact hgt

theorem dedup_call_order (hwf : r.WellFormed) (hlt : index + data.length < 2 ^ 64)
    (hs : r.skipWritten data index = some (d, i)) (hpos : 0 < d.length) (eof : Bool) :
    DedupOrder r.substrs.entries i
      (dedup eof r.substrs.entries d i (sub (add i d.length) 1) eof) := by
  have hend := (skip_written_within hs).2.1
  exact dedup_order eof hwf.toLaid.sorted_index hwf.placed hpos (last_eq (by omega) (by omega))

theorem covered_call (hwf : r.WellFormed) (hlt : index + data.length < 2 ^ 64)
    (hs : r.skipWritten data index = some (d, i))
    (hd : dedup eof r.substrs.entries d i (sub (add i d.length) 1) eof = .covered) :
    ∀ p, index ≤ p → p < index + data.length → r.has p := by
  intro p hp hp'
  obtain ⟨hw, hend, hi, -⟩ := skip_written_within hs
  by_cases hb : p < r.output.bytesWritten
  · exact .inl hb
  · have hspec := dedup_call hwf hlt hs (by omega) eof
    rw [hd] at hspec
    exact .inr (hspec p (by omega) (by omega))

theorem fresh_call (hwf : r.WellFormed) (hlt : index + data.length < 2 ^ 64)
    (hs : r.skipWritten data index = some (d, i)) (hpos : 0 < data.length)
    {d' : Bytes} {i' : Nat} {e' : Bool}
    (hd : dedup eof r.substrs.entries d i (sub (add i d.length) 1) eof = .fresh d' i' e') :
    FreshCall r data index eof d' i' e' := by
  obtain ⟨hw, hend, hi, hnil⟩ := skip_written_within hs
  have hpos' : 0 < d.length := by
    by_contra h0
    rw [hnil (List.length_eq_zero_iff.mp (by omega))] at hpos
    exact Nat.lt_irrefl _ hpos
  have hspec := dedup_call hwf hlt hs hpos' eof
  rw [hd] at hspec
  obtain ⟨hp, hw', hout, hin, he⟩ := hspec
  have := hw'.low
  have := hw'.high
  refine ⟨hp, hw'.trans hw, ?_, ⟨by omega, hin, by omega⟩, by rw [he, hend]⟩
  intro p hp hp'
  by_cases hb : p < r.output.bytesWritten
  · exact .inl (.inl hb)
  · exact (hout p (by omega) (by omega)).imp_left .inr

/-- What is stored lies above the fresh piece, or begins no later than the data does. -/
theorem fresh_call_front (hwf : r.WellFormed) (hlt : index + data.length < 2 ^ 64)
    (hs : r.skipWritten data index = some (d, i)) (hpos : 0 < data.length)
    {d' : Bytes} {i' : Nat} {e' : Bool}
    (hd : dedup eof r.substrs.entries d i (sub (add i d.length) 1) eof = .fresh d' i' e') :
    ∀ c ∈ r.substrs.entries,
      c.2.index ≤ max index r.output.bytesWritten ∨ i' + d'.length ≤ c.2.index := by
  obtain ⟨-, -, hi, hnil⟩ := skip_written_within hs
  have hpos' : 0 < d.length := by
    by_contra h0
    rw [hnil (List.length_eq_zero_iff.mp (by omega))] at hpos
    exact Nat.lt_irrefl _ hpos
  have hord := dedup_call_order hwf hlt hs hpos' eof
  rwa [hd, hi] at hord

/-- A stored segment below another one that has bytes ends where that one begins. -/
theorem wedge_clear {c b : Nat × Segment} {above below : List (Nat × Segment)} (hl : r.Laid)
    (hes : r.substrs.entries = above ++ c :: below) (hlen : 0 < c.2.data.length)
    (hb : b ∈ r.substrs.entries) (hup : b ∉ above) {p : Nat}
    (hp : c.2.index + c.2.data.length ≤ p) : ¬ b.2.covers p := by
  intro hcov
  have hmem : c ∈ r.substrs.entries := by simp [hes]
  have hne : b ≠ c := by
    rintro rfl
    simp only [Segment.covers] at hcov
    omega
  have hlow : b ∈ below := by
    rw [hes] at hb
    simpa [hup, hne] using hb
  have hgt : c.1 > b.1 := by
    have := r.substrs.sorted
    rw [hes] at this
    exact (List.pairwise_cons.mp (List.pairwise_append.mp this).2.1).1 b hlow
  have hbi := hl.keyed b hb
  have hci := hl.keyed c hmem
  simp only [Segment.covers] at hcov
  exact hne (hl.apart b hb c hmem c.2.index (by simp only [Segment.covers]; omega)
    (Segment.covers_index hlen))

theorem split_call (hwf : r.WellFormed) (hlt : index + data.length < 2 ^ 64)
    (hs : r.skipWritten data index = some (d, i))
    {d₁ d₂ : Bytes} {i₁ i₂ : Nat} {e₁ e₂ : Bool}
    (hd : dedup eof r.substrs.entries d i (sub (add i d.length) 1) eof =
      .split d₁ i₁ e₁ d₂ i₂ e₂) : SplitCall r data index eof d₁ i₁ e₁ d₂ i₂ e₂ := by
  obtain ⟨hw, hend, hi, -⟩ := skip_written_within hs
  have hpos : 0 < d.length := by
    by_contra h0
    have hnil : d = [] := List.length_eq_zero_iff.mp (by omega)
    subst hnil
    rw [dedup_empty] at hd
    split at hd <;> cases hd
  have hspec := dedup_call hwf hlt hs hpos eof
  have hstart := dedup_call_order hwf hlt hs hpos eof
  rw [hd] at hspec hstart
  obtain ⟨⟨hp₁, hw₁⟩, ⟨hp₂, hw₂⟩, hord, hout, he₁, he₂, above, c, below, hes, hci, hcl, hup⟩ := hspec
  have hmem : c ∈ r.substrs.entries := by simp [hes]
  have := hw₂.low
  have := hw₂.high
  refine ⟨hp₁, hp₂, hw₁.trans hw, hw₂.trans hw, hstart.trans hi, hord, ?_, he₁,
    by rw [he₂, hend], c, hmem, hci, hcl, by omega, ?_⟩
  · intro p hp hp'
    by_cases hb : p < r.output.bytesWritten
    · exact .inl (.inl hb)
    · exact (hout p (by omega) (by omega)).imp_left .inr
  · rcases List.eq_nil_or_concat c.2.data with hnil | ⟨_, _, hcons⟩
    · exact .inl hnil
    · have hlen : 0 < c.2.data.length := by simp [hcons]
      refine .inr ?_
      rintro p hge hlast (hb | ⟨b, hb, hcov⟩)
      · omega
      · exact wedge_clear hwf.toLaid hes hlen hb (fun h => hup p hge hlast ⟨b, h, hcov⟩)
          (by omega) hcov

theorem skip_written_nil (hs : r.skipWritten [] index = some (d, i)) : d = [] ∧ i = index := by
  obtain ⟨hw, hend, -, -⟩ := skip_written_within hs
  have hlow := hw.low
  simp only [List.length_nil] at hend
  exact ⟨List.length_eq_zero_iff.mp (by omega), by omega⟩

/-- Empty data gets to be stored only when nothing else is stored, or when it
ends the stream; it is stored as it came. -/
theorem empty_call (hs : r.skipWritten [] index = some (d, i))
    {d' : Bytes} {i' : Nat} {e' : Bool}
    (hd : dedup eof r.substrs.entries d i (sub (add i d.length) 1) eof = .fresh d' i' e')
    (hlt : index < 2 ^ 64) :
    d' = [] ∧ i' = index ∧ e' = eof ∧ (r.substrs.entries = [] ∨ eof = true) ∧
      r.Unseen [] index := by
  obtain ⟨-, -, hi, -⟩ := skip_written_within hs
  obtain ⟨rfl, rfl⟩ := skip_written_nil hs
  rw [dedup_empty] at hd
  split at hd
  · rename_i hor
    cases hd
    exact ⟨rfl, rfl, rfl, hor, by omega, by simp; omega, by simpa using hlt⟩
  · cases hd

/-- An empty piece that ends the stream is never taken for a duplicate. -/
theorem covered_call_nil (hs : r.skipWritten [] index = some (d, i))
    (hd : dedup eof r.substrs.entries d i (sub (add i d.length) 1) eof = .covered) :
    eof = false := by
  obtain ⟨rfl, rfl⟩ := skip_written_nil hs
  rw [dedup_empty] at hd
  split at hd
  · cases hd
  · rename_i hor
    exact Bool.eq_false_iff.mpr (fun h => hor (.inr h))

end Call

/-- A piece that starts beyond the window is not looked at. -/
theorem push_beyond {r : StreamReassembler} {data : Bytes} {index : Nat}
    (h : r.windowEnd ≤ index) (eof : Bool) : r.pushSubstring data index eof = r := by
  rw [pushSubstring, if_pos h]

/-- What the mark of the call matters to is the loop over the stored segments. -/
theorem push_mark_congr {r : StreamReassembler} {data : Bytes} {index : Nat} {eof eof' : Bool}
    (hsame : ∀ d i, r.skipWritten data index = some (d, i) →
      dedup eof r.substrs.entries d i (sub (add i d.length) 1) eof =
        dedup eof' r.substrs.entries d i (sub (add i d.length) 1) eof') :
    r.pushSubstring data index eof = r.pushSubstring data index eof' := by
  rw [pushSubstring, pushSubstring]
  split
  · rfl
  split
  · rfl
  · rename_i d i hs
    split
    all_goals
      rename_i hd
      split
      all_goals
        rename_i hd'
        cases (hd.symm.trans (hsame d i hs)).trans hd' <;> rfl

/-- The last byte of the piece is stored, and every segment above the one that holds it
lies behind the piece. -/
def EndStored (r : StreamReassembler) (data : Bytes) (index : Nat) : Prop :=
  ∃ e ∈ r.substrs.entries, e.2.covers (index + data.length - 1) ∧
    ∀ c ∈ r.substrs.entries, e.2.index < c.2.index → index + data.length ≤ c.2.index

instance (r : StreamReassembler) (data : Bytes) (index : Nat) :
    Decidable (r.EndStored data index) :=
  inferInstanceAs (Decidable (∃ e ∈ _, _ ∧ ∀ c ∈ _, _))

/-- The mark of a piece whose last byte is stored makes no difference. -/
theorem push_end_stored {r : StreamReassembler} {data : Bytes} {index : Nat} (hwf : r.WellFormed)
    (hlt : index + data.length < 2 ^ 64) (hpos : 0 < data.length) (h : r.EndStored data index) :
    r.pushSubstring data index true = r.pushSubstring data index false := by
  refine push_mark_congr fun d i hs => ?_
  obtain ⟨-, hend, -, hnil⟩ := skip_written_within hs
  have hpos' : 0 < d.length := by
    by_contra h0
    rw [hnil (List.length_eq_zero_iff.mp (by omega))] at hpos
    exact Nat.lt_irrefl _ hpos
  have hie : sub (add i d.length) 1 = i + d.length - 1 := last_eq (by omega) (by omega)
  obtain ⟨e, he, hlast, habove⟩ := h
  obtain ⟨above, below, hes⟩ := List.append_of_mem he
  have hplaced := hwf.placed
  rw [hes] at hplaced ⊢
  rw [dedup_mark true false hplaced hpos' hie]
  refine dedup_last_stored false true false hplaced hpos' hie (by rwa [hie, hend]) ?_
  intro c hc
  have hsorted := r.substrs.sorted
  rw [hes] at hsorted
  have hgt : c.1 > e.1 := (List.pairwise_append.mp hsorted).2.2 c hc e List.mem_cons_self
  have hmem : c ∈ r.substrs.entries := by simp [hes, hc]
  have := hwf.keyed c hmem
  have := hwf.keyed e he
  have := habove c hmem (by omega)
  omega

/-- The induction rule for `push_substring`. A property of the state that
storing a new piece preserves is preserved by a whole call, with all the calls
it makes of itself, as long as the pieces it is cut into are as admissible as
the piece pushed. -/
theorem push_preserves {Q : StreamReassembler → Prop} {A : Bytes → Nat → Bool → Prop}
    (hsub : ∀ {d i e d' i' e'}, A d i e → Within d' i' d i →
      (e' = true → e = true ∧ i' + d'.length = i + d.length) → A d' i' e')
    (hstore : ∀ r d i e, r.WellFormed → Q r → A d i e → r.Unseen d i →
      (d = [] → r.substrs.entries = [] ∨ e = true) → Q (r.store d i e))
    {r : StreamReassembler} {data : Bytes} {index : Nat} {eof : Bool} (hwf : r.WellFormed)
    (hq : Q r) (hlt : index + data.length < 2 ^ 64) (ha : A data index eof) :
    (r.pushSubstring data index eof).WellFormed ∧ Q (r.pushSubstring data index eof) := by
  fun_induction pushSubstring r data index eof with
  | case1 r data index eof hge => exact ⟨hwf, hq⟩
  | case2 r data index eof hlt' hs => exact ⟨hwf, hq⟩
  | case3 r data index eof hlt' d i hs hd => exact ⟨hwf, hq⟩
  | case4 r data index eof hlt' d i hs d' i' e' hd =>
    have hopen := window_open (Nat.lt_of_not_ge hlt')
    rcases Nat.eq_zero_or_pos data.length with h0 | hpos
    · have hnil := List.length_eq_zero_iff.mp h0
      subst hnil
      obtain ⟨rfl, rfl, rfl, hor, hu⟩ := empty_call hs hd hlt
      exact ⟨hwf.store hu hopen _, hstore r [] _ _ hwf hq ha hu (fun _ => hor)⟩
    · have hf := fresh_call hwf hlt hs hpos hd
      exact ⟨hwf.store hf.unseen hopen _,
        hstore r d' i' e' hwf hq (hsub ha hf.within hf.mark.mp) hf.unseen
          (fun hnil => by simpa [hnil] using hf.pos)⟩
  | case5 r data index eof hlt' d i hs d₁ i₁ e₁ d₂ i₂ e₂ hd ih₁ ih₂ =>
    have hc := split_call hwf hlt hs hd
    have := hc.within₁.high
    have := hc.within₂.high
    obtain ⟨hwf₁, hq₁⟩ := ih₁ hwf hq (by omega)
      (hsub ha hc.within₁ (fun h => by simp [hc.mark₁] at h))
    exact ih₂ hwf₁ hq₁ (by omega) (hsub ha hc.within₂ hc.mark₂.mp)

/-- Every call keeps the layout, whatever is pushed. -/
theorem WellFormed.push {r : StreamReassembler} (h : r.WellFormed) {data : Bytes} {index : Nat}
    (hlt : index + data.length < 2 ^ 64) (eof : Bool) :
    (r.pushSubstring data index eof).WellFormed :=
  (push_preserves (Q := fun _ => True) (A := fun _ _ _ => True) (fun _ _ _ => trivial)
    (fun _ _ _ _ _ _ _ _ _ => trivial) h trivial hlt trivial).1

section First

theorem drain_none {r : StreamReassembler} (h : r.substrs.find? r.output.bytesWritten = none) :
    r.drain = r := by
  rw [drain]
  split
  · rfl
  · rename_i seg hf
    rw [h] at hf
    cases hf

theorem drain_empty {r : StreamReassembler} (he : r.substrs.entries = []) : r.drain = r :=
  drain_none (by simp [OrdMap.find?, he])

theorem drain_whole {r : StreamReassembler} {seg : Segment}
    (hf : r.substrs.find? r.output.bytesWritten = some seg) (hpos : r.output.remainingCapacity ≠ 0)
    (hle : seg.data.length ≤ r.output.remainingCapacity) : r.drain = (r.writeWhole seg).drain := by
  rw [drain]
  split
  · simp_all
  · rename_i seg' hf'
    rw [hf] at hf'
    cases hf'
    rw [dif_neg hpos, dif_pos hle]

/-- Data that fits and stands at the write position of an empty reassembler is
written out at once. -/
theorem push_first {r : StreamReassembler} {data : Bytes} (he : r.substrs.entries = [])
    (hwin : r.output.bytesWritten < r.windowEnd) (hfit : data.length ≤ r.emptySize)
    (hroom : data.length ≤ r.output.remainingCapacity) (hpos : r.output.remainingCapacity ≠ 0) :
    (r.pushSubstring data r.output.bytesWritten false).output = r.output.write data := by
  have hput : (r.put data r.output.bytesWritten false).substrs.entries =
      [(r.output.bytesWritten, ⟨false, data, r.output.bytesWritten⟩)] := by
    simp [put, OrdMap.insert, OrdMap.insertEntries, he]
  have hstore : (r.store data r.output.bytesWritten false).output = r.output.write data := by
    have hfind : (r.put data r.output.bytesWritten false).substrs.find?
        (r.put data r.output.bytesWritten false).output.bytesWritten =
        some ⟨false, data, r.output.bytesWritten⟩ := by
      simp only [OrdMap.find?, hput]
      simp [put]
    rw [store, make_room_fits _ hfit]
    simp only
    rw [drain_whole hfind hpos hroom, drain_empty]
    · rfl
    · simp only [writeWhole, OrdMap.erase, hput]
      simp [put]
  rw [pushSubstring, if_neg (by omega)]
  split
  · simp_all [skipWritten]
  · rename_i d i hs
    simp only [skipWritten, gt_iff_lt, Nat.lt_irrefl, ↓reduceIte, Option.some.injEq,
      Prod.mk.injEq] at hs
    obtain ⟨rfl, rfl⟩ := hs
    split <;> simp_all [dedup]
end First

/-- Reading from the output. -/
def readOut (r : StreamReassembler) (len : Nat) : StreamReassembler :=
  { r with output := r.output.popOutput len }

theorem WellFormed.read_out {r : StreamReassembler} (h : r.WellFormed) (len : Nat) :
    (r.readOut len).WellFormed :=
  ⟨⟨h.keyed, h.fits, h.apart, h.above, h.counted.pop len⟩, h.nonzero⟩

end Sponge.StreamReassembler
