import Sponge.Reassembler.Model

namespace Sponge

/-- The stream positions a stored segment holds. -/
def Segment.covers (seg : Segment) (p : Nat) : Prop :=
  seg.index ≤ p ∧ p < seg.index + seg.data.length

instance (seg : Segment) (p : Nat) : Decidable (seg.covers p) :=
  inferInstanceAs (Decidable (_ ∧ _))

theorem Segment.covers_index {seg : Segment} (h : 0 < seg.data.length) : seg.covers seg.index :=
  ⟨Nat.le_refl _, by omega⟩

/-- The data at `index` is a stretch of `data₀` at `index₀`. -/
structure Within (data : Bytes) (index : Nat) (data₀ : Bytes) (index₀ : Nat) : Prop where
  low : index₀ ≤ index
  high : index + data.length ≤ index₀ + data₀.length
  bytes : ∀ t, t < data.length → data[t]? = data₀[index - index₀ + t]?

theorem Within.refl (data : Bytes) (index : Nat) : Within data index data index :=
  ⟨Nat.le_refl _, Nat.le_refl _, by simp⟩

theorem Within.trans {d₁ d₂ d₃ : Bytes} {i₁ i₂ i₃ : Nat} (h : Within d₁ i₁ d₂ i₂)
    (h' : Within d₂ i₂ d₃ i₃) : Within d₁ i₁ d₃ i₃ := by
  obtain ⟨hl, hh, hb⟩ := h
  obtain ⟨hl', hh', hb'⟩ := h'
  refine ⟨by omega, by omega, ?_⟩
  intro t ht
  rw [hb t ht, hb' _ (by omega)]
  congr 1
  omega

theorem Within.drop (data : Bytes) (index n : Nat) (hn : n ≤ data.length) :
    Within (data.drop n) (index + n) data index := by
  refine ⟨by omega, by simp; omega, ?_⟩
  intro t _
  simp

/-- What is left behind a stretch that ends in the data at position `n`. -/
theorem Within.drop_behind (data : Bytes) {index n : Nat} (hlo : index ≤ n)
    (hhi : n < index + data.length) :
    Within (data.drop (n - index + 1)) (n + 1) data index ∧
      (data.drop (n - index + 1)).length = index + data.length - (n + 1) := by
  have hw := Within.drop data index (n - index + 1) (by omega)
  have hn : index + (n - index + 1) = n + 1 := by omega
  rw [hn] at hw
  refine ⟨hw, ?_⟩
  rw [List.length_drop]
  omega

theorem Within.take (data : Bytes) (index n : Nat) : Within (data.take n) index data index := by
  refine ⟨Nat.le_refl _, by simp, ?_⟩
  intro t ht
  simp only [List.length_take] at ht
  simp [List.getElem?_take_of_lt (show t < n by omega)]

namespace StreamReassembler

open Word64

/-- Some listed segment holds the position. -/
def Covered (es : List (Nat × Segment)) (p : Nat) : Prop := ∃ e ∈ es, e.2.covers p

instance (es : List (Nat × Segment)) (p : Nat) : Decidable (Covered es p) :=
  inferInstanceAs (Decidable (∃ e ∈ es, e.2.covers p))

/-- The segment's last position, `index + size - 1`, is a 64-bit number as it
stands: it neither overflows nor is it the one before position zero. -/
def Placed (seg : Segment) : Prop :=
  seg.index + seg.data.length < 2 ^ 64 ∧ 0 < seg.index + seg.data.length

theorem Covered.cons {e : Nat × Segment} {es : List (Nat × Segment)} {p : Nat}
    (h : Covered es p) : Covered (e :: es) p := by
  obtain ⟨d, hd, hc⟩ := h
  exact ⟨d, List.mem_cons_of_mem _ hd, hc⟩

theorem Covered.head {e : Nat × Segment} {es : List (Nat × Segment)} {p : Nat}
    (h : e.2.covers p) : Covered (e :: es) p :=
  ⟨e, List.mem_cons_self, h⟩

theorem not_covered_cons {e : Nat × Segment} {es : List (Nat × Segment)} {p : Nat}
    (h : ¬ e.2.covers p) (hs : ¬ Covered es p) : ¬ Covered (e :: es) p := by
  rintro ⟨d, hd, hc⟩
  rcases List.mem_cons.mp hd with rfl | hd
  · exact h hc
  · exact hs ⟨d, hd, hc⟩

/-- One turn of the loop for nonempty data: the segment's last position is the number that the
code computes. -/
theorem dedup_cons (eof : Bool) {k : Nat} {curr : Segment} {rest : List (Nat × Segment)}
    {data : Bytes} {ib ie : Nat} {e : Bool} (hcurr : Placed curr) (hpos : 0 < data.length) :
    dedup eof ((k, curr) :: rest) data ib ie e =
      let currEnd := curr.data.length + curr.index - 1
      if ie < curr.index ∨ currEnd < ib then dedup eof rest data ib ie e
      else if curr.index ≤ ib ∧ currEnd ≥ ie then .covered
      else if curr.index ≤ ib ∧ currEnd < ie then
        dedup eof rest (data.drop (currEnd - ib + 1)) (currEnd + 1) ie e
      else if curr.index > ib ∧ ie ≤ currEnd then
        dedup eof rest (data.take (curr.index - 1 - ib + 1)) ib (curr.index - 1) false
      else .split (data.take (curr.index - ib)) ib false
        (data.drop (currEnd - ib + 1)) (currEnd + 1) e := by
  obtain ⟨hlt, hnz⟩ := hcurr
  have hce : sub (add curr.data.length curr.index) 1 = curr.data.length + curr.index - 1 :=
    last_eq (by omega) (by omega)
  have hn : data.length ≠ 0 := by omega
  simp only [dedup, hce, hn, false_and, ↓reduceIte]

/-- What the de-duplication loop promises for nonempty data. A mark is carried
exactly as far as the end of the data is. A split is made at a stored segment
inside the data, and its second part is clear of the segments above that one. -/
def DedupSpec (es : List (Nat × Segment)) (data : Bytes) (ib : Nat) (e : Bool) : Dedup → Prop
  | .covered => ∀ p, ib ≤ p → p < ib + data.length → Covered es p
  | .fresh d i e' =>
    0 < d.length ∧ Within d i data ib ∧
    (∀ p, ib ≤ p → p < ib + data.length → Covered es p ∨ (i ≤ p ∧ p < i + d.length)) ∧
    (∀ p, i ≤ p → p < i + d.length → ¬ Covered es p) ∧
    (e' = true ↔ e = true ∧ i + d.length = ib + data.length)
  | .split d₁ i₁ e₁ d₂ i₂ e₂ =>
    (0 < d₁.length ∧ Within d₁ i₁ data ib) ∧ (0 < d₂.length ∧ Within d₂ i₂ data ib) ∧
    i₁ + d₁.length ≤ i₂ ∧
    (∀ p, ib ≤ p → p < ib + data.length → Covered es p ∨
      (i₁ ≤ p ∧ p < i₁ + d₁.length) ∨ (i₂ ≤ p ∧ p < i₂ + d₂.length)) ∧
    e₁ = false ∧ (e₂ = true ↔ e = true ∧ i₂ + d₂.length = ib + data.length) ∧
    ∃ above c below, es = above ++ c :: below ∧ c.2.index = i₁ + d₁.length ∧
      c.2.index + c.2.data.length = i₂ ∧ ∀ p, i₂ ≤ p → p < i₂ + d₂.length → ¬ Covered above p

/-- Passing over a stored segment: what lies outside the narrowed data is held
by it, and the narrowed data is clear of it. -/
theorem DedupSpec.step {c : Nat × Segment} {rest : List (Nat × Segment)} {data d : Bytes}
    {ib i : Nat} {e e' : Bool} {res : Dedup} (hw : Within d i data ib)
    (hout : ∀ p, ib ≤ p → p < ib + data.length → c.2.covers p ∨ (i ≤ p ∧ p < i + d.length))
    (hin : ∀ p, i ≤ p → p < i + d.length → ¬ c.2.covers p)
    (he : e' = true ↔ e = true ∧ i + d.length = ib + data.length)
    (h : DedupSpec rest d i e' res) : DedupSpec (c :: rest) data ib e res := by
  have hhigh := hw.high
  cases res with
  | covered =>
    intro p hl hu
    rcases hout p hl hu with hc | ⟨hl', hu'⟩
    · exact .head hc
    · exact (h p hl' hu').cons
  | fresh d' i' e'' =>
    obtain ⟨hpos, hw', hout', hin', he'⟩ := h
    have hlow := hw'.low
    have hhigh' := hw'.high
    refine ⟨hpos, hw'.trans hw, ?_, ?_, ?_⟩
    · intro p hl hu
      rcases hout p hl hu with hc | ⟨hl', hu'⟩
      · exact .inl (.head hc)
      · exact (hout' p hl' hu').imp_left .cons
    · intro p hl hu
      exact not_covered_cons (hin p (by omega) (by omega)) (hin' p hl hu)
    · rw [he', he, and_assoc]
      exact and_congr_right fun _ => ⟨fun h => by omega, fun h => ⟨by omega, by omega⟩⟩
  | split d₁ i₁ e₁ d₂ i₂ e₂ =>
    obtain ⟨⟨hp₁, hw₁⟩, ⟨hp₂, hw₂⟩, hord, hout', he₁, he₂, above, w, below, rfl, hwi, hwl, hup⟩ := h
    have hlow₂ := hw₂.low
    have hhigh₂ := hw₂.high
    refine ⟨⟨hp₁, hw₁.trans hw⟩, ⟨hp₂, hw₂.trans hw⟩, hord, ?_, he₁, ?_,
      c :: above, w, below, rfl, hwi, hwl, ?_⟩
    · intro p hl hu
      rcases hout p hl hu with hc | ⟨hl', hu'⟩
      · exact .inl (.head hc)
      · exact (hout' p hl' hu').imp_left .cons
    · rw [he₂, he, and_assoc]
      exact and_congr_right fun _ => ⟨fun h => by omega, fun h => ⟨by omega, by omega⟩⟩
    · intro p hl hu
      exact not_covered_cons (hin p (by omega) (by omega)) (hup p hl hu)

/-- The loop meets its specification whatever is stored, overlapping or not,
as long as the stored positions are 64-bit numbers. -/
theorem dedup_spec (eof : Bool) {es : List (Nat × Segment)} {data : Bytes} {ib ie : Nat} {e : Bool}
    (hes : ∀ c ∈ es, Placed c.2) (hpos : 0 < data.length) (hie : ie = ib + data.length - 1) :
    DedupSpec es data ib e (dedup eof es data ib ie e) := by
  induction es generalizing data ib ie e with
  | nil =>
    refine ⟨hpos, .refl _ _, fun p hl hu => .inr ⟨hl, hu⟩, ?_, by simp⟩
    rintro p - - ⟨c, hc, -⟩
    simp at hc
  | cons p rest ih =>
    obtain ⟨k, curr⟩ := p
    have hrest : ∀ c ∈ rest, Placed c.2 := fun c hc => hes c (List.mem_cons_of_mem _ hc)
    have hcurr : Placed curr := hes (k, curr) List.mem_cons_self
    have hnz := hcurr.2
    simp only [dedup_cons eof hcurr hpos]
    split
    · -- no common position
      refine DedupSpec.step (.refl _ _) (fun p hl hu => .inr ⟨hl, hu⟩) ?_ (by simp)
        (ih hrest hpos hie)
      intro p hl hu hc
      simp only [Segment.covers] at hc
      omega
    rename_i hoverlap
    split
    · -- [()]
      intro p hl hu
      refine .head ?_
      simp only [Segment.covers]
      omega
    split
    · -- [(])
      obtain ⟨hw, hd⟩ := Within.drop_behind data
        (show ib ≤ curr.data.length + curr.index - 1 by omega) (by omega)
      refine DedupSpec.step hw ?_ ?_ ?_ (ih hrest (by omega) (by omega))
      · intro p hl hu
        simp only [Segment.covers]
        omega
      · intro p hl hu hc
        simp only [Segment.covers] at hc
        omega
      · exact ⟨fun h => ⟨h, by omega⟩, fun h => h.1⟩
    split
    · -- ([)]
      have hd : (data.take (curr.index - 1 - ib + 1)).length = curr.index - ib := by
        simp only [List.length_take]
        omega
      refine DedupSpec.step (.take _ _ _) ?_ ?_ ?_ (ih hrest (by omega) (by omega))
      · intro p hl hu
        simp only [Segment.covers]
        omega
      · intro p hl hu hc
        simp only [Segment.covers] at hc
        omega
      · constructor
        · intro h
          cases h
        · rintro ⟨-, h⟩
          omega
    · -- ([])
      have hd₁ : (data.take (curr.index - ib)).length = curr.index - ib := by
        simp only [List.length_take]
        omega
      obtain ⟨hw, hd₂⟩ := Within.drop_behind data
        (show ib ≤ curr.data.length + curr.index - 1 by omega) (by omega)
      refine ⟨⟨by omega, .take _ _ _⟩, ⟨by omega, hw⟩, by omega, ?_, rfl, ?_,
        [], (k, curr), rest, rfl, by simp only; omega, by simp only; omega, ?_⟩
      · intro p hl hu
        by_cases hc : curr.covers p
        · exact .inl (.head hc)
        · simp only [Segment.covers] at hc
          exact .inr (by omega)
      · exact ⟨fun h => ⟨h, by omega⟩, fun h => h.1⟩
      · rintro p - - ⟨c, hc, -⟩
        simp at hc

/-- What the order of the stored segments, the highest first, adds to it: what is left of
the data lies below every segment that begins behind its first byte, and a split leaves the
front of the data as it is. -/
def DedupOrder (es : List (Nat × Segment)) (ib : Nat) : Dedup → Prop
  | .covered => True
  | .fresh d i _ => ∀ c ∈ es, c.2.index ≤ ib ∨ i + d.length ≤ c.2.index
  | .split _ i₁ _ _ _ _ => i₁ = ib

section Order

variable {c : Nat × Segment} {rest : List (Nat × Segment)} {d : Bytes} {ib i : Nat} {e : Bool}
  {res : Dedup}

theorem DedupOrder.pass (hspec : DedupSpec rest d ib e res)
    (hc : c.2.index ≤ ib ∨ ib + d.length ≤ c.2.index) (h : DedupOrder rest ib res) :
    DedupOrder (c :: rest) ib res := by
  cases res with
  | covered => trivial
  | fresh d' i' e' =>
    have hhigh := hspec.2.1.high
    intro b hb
    rcases List.mem_cons.mp hb with rfl | hb
    · omega
    · exact h b hb
  | split d₁ i₁ e₁ d₂ i₂ e₂ => exact h

/-- Behind a segment that begins before the data, all the others do. -/
theorem DedupOrder.behind (hle : c.2.index ≤ ib) (hi : c.2.index ≤ i)
    (hbelow : ∀ b ∈ rest, b.2.index < c.2.index) (hspec : DedupSpec rest d i e res)
    (h : DedupOrder rest i res) : DedupOrder (c :: rest) ib res := by
  cases res with
  | covered => trivial
  | fresh d' i' e' =>
    intro b hb
    rcases List.mem_cons.mp hb with rfl | hb
    · exact .inl hle
    · have := hbelow b hb
      exact .inl (by omega)
  | split d₁ i₁ e₁ d₂ i₂ e₂ =>
    obtain ⟨⟨hpos, -⟩, -, -, -, -, -, above, w, below, hes, hwi, -⟩ := hspec
    have hw := hbelow w (by simp [hes])
    simp only [DedupOrder] at h
    omega

end Order

theorem dedup_order (eof : Bool) {es : List (Nat × Segment)} {data : Bytes} {ib ie : Nat} {e : Bool}
    (hsorted : es.Pairwise fun a b => b.2.index < a.2.index) (hes : ∀ c ∈ es, Placed c.2)
    (hpos : 0 < data.length) (hie : ie = ib + data.length - 1) :
    DedupOrder es ib (dedup eof es data ib ie e) := by
  induction es generalizing data ib ie e with
  | nil => simp [dedup, DedupOrder]
  | cons p rest ih =>
    obtain ⟨k, curr⟩ := p
    obtain ⟨hbelow, hsorted⟩ := List.pairwise_cons.mp hsorted
    have hrest : ∀ c ∈ rest, Placed c.2 := fun c hc => hes c (List.mem_cons_of_mem _ hc)
    have hcurr : Placed curr := hes (k, curr) List.mem_cons_self
    have hnz := hcurr.2
    simp only [dedup_cons eof hcurr hpos]
    split
    · -- no common position
      exact .pass (dedup_spec eof hrest hpos hie) (by simp only; omega)
        (ih hsorted hrest hpos hie)
    rename_i hoverlap
    split
    · trivial
    split
    · -- [(])
      have hlen : (data.drop (curr.data.length + curr.index - 1 - ib + 1)).length =
          ib + data.length - (curr.data.length + curr.index) := by
        simp only [List.length_drop]
        omega
      exact .behind (by simp only; omega) (by simp only; omega) hbelow
        (dedup_spec eof hrest (by omega) (by omega)) (ih hsorted hrest (by omega) (by omega))
    split
    · -- ([)]
      have hlen : (data.take (curr.index - 1 - ib + 1)).length = curr.index - ib := by
        simp only [List.length_take]
        omega
      exact .pass (dedup_spec eof hrest (by omega) (by omega)) (by simp only; omega)
        (ih hsorted hrest (by omega) (by omega))
    · rfl

/-- With bytes to look at, the loop does not ask for the call's own mark. -/
theorem dedup_mark (eof eof' : Bool) {es : List (Nat × Segment)} {data : Bytes} {ib ie : Nat}
    {e : Bool} (hes : ∀ c ∈ es, Placed c.2) (hpos : 0 < data.length)
    (hie : ie = ib + data.length - 1) :
    dedup eof es data ib ie e = dedup eof' es data ib ie e := by
  induction es generalizing data ib ie e with
  | nil => rfl
  | cons p rest ih =>
    obtain ⟨k, curr⟩ := p
    have hrest : ∀ c ∈ rest, Placed c.2 := fun c hc => hes c (List.mem_cons_of_mem _ hc)
    have hcurr : Placed curr := hes (k, curr) List.mem_cons_self
    have hnz := hcurr.2
    simp only [dedup_cons eof hcurr hpos, dedup_cons eof' hcurr hpos]
    split
    · exact ih hrest hpos hie
    split
    · rfl
    split
    · exact ih hrest (by simp only [List.length_drop]; omega)
        (by simp only [List.length_drop]; omega)
    split
    · exact ih hrest (by simp only [List.length_take]; omega)
        (by simp only [List.length_take]; omega)
    · rfl

/-- If the last byte is stored, and what is stored above it lies behind the data, then no
mark comes out of the loop. -/
theorem dedup_last_stored (eof e e' : Bool) {above below : List (Nat × Segment)}
    {c : Nat × Segment} {data : Bytes} {ib ie : Nat}
    (hes : ∀ d ∈ above ++ c :: below, Placed d.2) (hpos : 0 < data.length)
    (hie : ie = ib + data.length - 1) (hlast : c.2.covers ie)
    (habove : ∀ d ∈ above, ie < d.2.index) :
    dedup eof (above ++ c :: below) data ib ie e =
      dedup eof (above ++ c :: below) data ib ie e' := by
  have hn : data.length ≠ 0 := by omega
  induction above with
  | nil =>
    obtain ⟨k, curr⟩ := c
    have hcurr : Placed curr := hes (k, curr) (by simp)
    obtain ⟨hfrom, hto⟩ : curr.covers ie := hlast
    have hoverlap : ¬ (ie < curr.index ∨ curr.data.length + curr.index - 1 < ib) := by omega
    have hend : ¬ curr.data.length + curr.index - 1 < ie := by omega
    simp only [List.nil_append, dedup_cons eof hcurr hpos, hoverlap, hend, and_false, ↓reduceIte]
    split
    · rfl
    split
    · rfl
    · omega
  | cons d above ih =>
    have hbehind : ie < d.2.index := habove d List.mem_cons_self
    simp only [List.cons_append, dedup, hn, hbehind, true_or, false_and, ↓reduceIte]
    exact ih (fun b hb => hes b (List.mem_cons_of_mem _ hb))
      (fun b hb => habove b (List.mem_cons_of_mem _ hb))

/-- Empty data is stored only when nothing else is, or when it carries the end
of the stream. -/
theorem dedup_empty (eof : Bool) (es : List (Nat × Segment)) (ib ie : Nat) (e : Bool) :
    dedup eof es [] ib ie e = if es = [] ∨ eof = true then .fresh [] ib e else .covered := by
  cases es with
  | nil => simp [dedup]
  | cons p rest => cases eof <;> simp [dedup]

end StreamReassembler

end Sponge
