import Sponge.Reassembler.Room

namespace Sponge.StreamReassembler

open Word64

/-- To `push_substring` the missing bytes of the piece are one stretch: no stored
segment begins between two of them, and none without bytes lies inside the piece
behind one of them. -/
def Unbroken (r : StreamReassembler) (data : Bytes) (index : Nat) : Prop :=
  ∀ e ∈ r.substrs.entries, (∀ p ∈ r.missing data index, e.2.index ≤ p) ∨
    ((∀ p ∈ r.missing data index, p < e.2.index) ∧
      (e.2.data = [] → index + data.length ≤ e.2.index))

instance (r : StreamReassembler) (data : Bytes) (index : Nat) :
    Decidable (r.Unbroken data index) :=
  inferInstanceAs (Decidable (∀ e ∈ _, _))

theorem Unbroken.part {r : StreamReassembler} {data d : Bytes} {index i : Nat}
    (h : r.Unbroken data index) (hw : Within d i data index) : r.Unbroken d i := by
  intro e he
  have hsub := missing_within (r := r) hw
  have := hw.high
  exact (h e he).imp (fun hle p hp => hle p (hsub hp))
    (And.imp (fun hlt p hp => hlt p (hsub hp)) (fun hnil hd => by have := hnil hd; omega))

/-- The first part of a split brings nothing new if the missing bytes are one
stretch. -/
theorem SplitCall.first_missing {r : StreamReassembler} {data d₁ d₂ : Bytes}
    {index i₁ i₂ : Nat} {eof e₁ e₂ : Bool} (h : SplitCall r data index eof d₁ i₁ e₁ d₂ i₂ e₂)
    (hu : r.Unbroken data index) : r.missing d₁ i₁ = ∅ := by
  obtain ⟨c, hc, hci, -, hin, hlast⟩ := h.wedge
  rw [Finset.eq_empty_iff_forall_notMem]
  intro p hp
  have hlt := (mem_missing.mp hp).1.2
  rcases hu c hc with hle | ⟨hgt, hnil⟩
  · have := hle p (missing_within h.within₁ hp)
    omega
  · rcases hlast with hempty | hlast
    · have := hnil hempty
      omega
    · have := h.within₂.low
      have := h.within₂.high
      have := h.pos₂
      have := h.order
      have := hgt _ (mem_missing.mpr ⟨by omega, hlast i₂ (Nat.le_refl _) (by omega)⟩)
      omega

/-- What is new in the second part of a split is what is new in all of it, if
the first part brings nothing new. -/
theorem SplitCall.fresh {r : StreamReassembler} {data d₁ d₂ d : Bytes}
    {index i₁ i₂ i : Nat} {eof e₁ e₂ e : Bool} (h : SplitCall r data index eof d₁ i₁ e₁ d₂ i₂ e₂)
    (hm : r.missing d₁ i₁ = ∅) (hf : FreshCall r d₂ i₂ e₂ d i e) :
    FreshCall r data index eof d i e := by
  refine ⟨hf.pos, hf.within.trans h.within₂, ?_, hf.unseen, ?_⟩
  · intro p hp hp'
    rcases h.outside p hp hp' with hr | h₁ | h₂
    · exact .inl hr
    · by_contra hn
      have hin : p ∈ r.missing d₁ i₁ := mem_missing.mpr ⟨h₁, fun hr => hn (.inl hr)⟩
      simp [hm] at hin
    · exact hf.outside p h₂.1 h₂.2
  · have := hf.within.high
    have := h.within₂.high
    rw [hf.mark, h.mark₂, and_assoc]
    exact and_congr_right fun _ => ⟨fun h => by omega, fun h => ⟨by omega, by omega⟩⟩

theorem missing_of_skipped {r : StreamReassembler} {data : Bytes} {index : Nat}
    (hs : r.skipWritten data index = none) : r.missing data index = ∅ := by
  rw [Finset.eq_empty_iff_forall_notMem]
  intro p hp
  obtain ⟨_, _⟩ := skip_written_none hs
  obtain ⟨_, hn⟩ := mem_missing.mp hp
  exact hn (.inl (by omega))

theorem missing_of_covered {r : StreamReassembler} {data d : Bytes} {index i : Nat} {eof : Bool}
    (hwf : r.WellFormed)
    (hlt : index + data.length < 2 ^ 64) (hs : r.skipWritten data index = some (d, i))
    (hd : dedup eof r.substrs.entries d i (sub (add i d.length) 1) eof = .covered) :
    r.missing data index = ∅ := by
  rw [Finset.eq_empty_iff_forall_notMem]
  intro p hp
  obtain ⟨hb, hn⟩ := mem_missing.mp hp
  exact hn (covered_call hwf hlt hs hd p hb.1 hb.2)

/-- Data of which no byte is missing changes nothing. -/
theorem push_nothing_missing {r : StreamReassembler} {data : Bytes} {index : Nat} {eof : Bool}
    (hwf : r.WellFormed) (hlt : index + data.length < 2 ^ 64) (hpos : 0 < data.length)
    (hm : r.missing data index = ∅) : r.pushSubstring data index eof = r := by
  fun_induction pushSubstring r data index eof with
  | case1 => rfl
  | case2 => rfl
  | case3 => rfl
  | case4 r data index eof hlt' d i hs d' i' e' hd =>
    have hf := fresh_call hwf hlt hs hpos hd
    have := hf.card_missing
    have := hf.pos
    simp [hm] at *
    omega
  | case5 r data index eof hlt' d i hs d₁ i₁ e₁ d₂ i₂ e₂ hd ih₁ ih₂ =>
    have hsp := split_call hwf hlt hs hd
    have := hsp.within₁.high
    have := hsp.within₂.high
    have hcard := hsp.card_missing r (fun _ => id)
    rw [hm, Finset.card_empty] at hcard
    have h₁ := ih₁ hwf (by omega) hsp.pos₁ (Finset.card_eq_zero.mp (by omega))
    rw [h₁] at ih₂ ⊢
    exact ih₂ hwf (by omega) hsp.pos₂ (Finset.card_eq_zero.mp (by omega))

theorem length_pos_of_not_fits {r : StreamReassembler} {data : Bytes} {index : Nat}
    (h : ¬ r.Fits data index) : 0 < data.length := by
  by_contra h0
  have hnil : data = [] := List.length_eq_zero_iff.mp (by omega)
  exact h (by simp [Fits, missing, hnil])

/-- A call whose missing bytes are one stretch stores them all at once, or finds
none in the window and does nothing. -/
theorem push_unbroken {r : StreamReassembler} {data : Bytes} {index : Nat} (hwf : r.WellFormed)
    (hlt : index + data.length < 2 ^ 64) (hpos : 0 < data.length) (hu : r.Unbroken data index)
    (eof : Bool) :
    (r.pushSubstring data index eof = r ∧ ∀ p ∈ r.missing data index, r.windowEnd ≤ p) ∨
      ∃ d i e, FreshCall r data index eof d i e ∧
        r.pushSubstring data index eof = r.store d i e := by
  fun_induction pushSubstring r data index eof with
  | case1 r data index eof hge =>
    refine .inl ⟨rfl, fun p hp => ?_⟩
    have := (mem_missing.mp hp).1
    omega
  | case2 r data index eof hlt' hs => exact .inl ⟨rfl, by simp [missing_of_skipped hs]⟩
  | case3 r data index eof hlt' d i hs hd =>
    exact .inl ⟨rfl, by simp [missing_of_covered hwf hlt hs hd]⟩
  | case4 r data index eof hlt' d i hs d' i' e' hd =>
    exact .inr ⟨d', i', e', fresh_call hwf hlt hs hpos hd, rfl⟩
  | case5 r data index eof hlt' d i hs d₁ i₁ e₁ d₂ i₂ e₂ hd ih₁ ih₂ =>
    have hsp := split_call hwf hlt hs hd
    have := hsp.within₁.high
    have := hsp.within₂.high
    have hm := hsp.first_missing hu
    rw [push_nothing_missing hwf (by omega) hsp.pos₁ hm] at ih₂ ⊢
    rcases ih₂ hwf (by omega) hsp.pos₂ (hu.part hsp.within₂) with ⟨heq, hout⟩ | ⟨d, i, e, hf, heq⟩
    · refine .inl ⟨heq, fun p hp => ?_⟩
      obtain ⟨hb, hn⟩ := mem_missing.mp hp
      rcases hsp.outside p hb.1 hb.2 with hr | h₁ | h₂
      · exact absurd hr hn
      · have hin : p ∈ r.missing d₁ i₁ := mem_missing.mpr ⟨h₁, hn⟩
        simp [hm] at hin
      · exact hout p (mem_missing.mpr ⟨h₂, hn⟩)
    · exact .inr ⟨d, i, e, hsp.fresh hm hf, heq⟩

/-- No stored segment without bytes lies inside the piece. -/
def Solid (r : StreamReassembler) (data : Bytes) (index : Nat) : Prop :=
  ∀ e ∈ r.substrs.entries, e.2.data = [] →
    e.2.index ≤ index ∨ index + data.length ≤ e.2.index

instance (r : StreamReassembler) (data : Bytes) (index : Nat) : Decidable (r.Solid data index) :=
  inferInstanceAs (Decidable (∀ e ∈ _, _ → _))

/-- The missing bytes of a solid piece that are not refused. The piece is cut at the stored
segments that begin inside it, and what comes behind them is pushed by a call of its own,
which looks at the window again: behind a segment that reaches the end of the window nothing
is taken. -/
def admitted (r : StreamReassembler) (data : Bytes) (index : Nat) : Finset Nat :=
  (r.missing data index).filter fun p => ∀ e ∈ r.substrs.entries,
    index < e.2.index → r.output.bytesWritten < e.2.index →
      r.windowEnd ≤ e.2.index + e.2.data.length → p < e.2.index + e.2.data.length

/-- The new bytes of the piece fit in the free space, all of them or those that are not
refused. -/
def Admits (r : StreamReassembler) (data : Bytes) (index : Nat) : Prop :=
  r.Fits data index ∨ (r.Solid data index ∧ (r.admitted data index).card ≤ r.emptySize)

instance (r : StreamReassembler) (data : Bytes) (index : Nat) : Decidable (r.Admits data index) :=
  inferInstanceAs (Decidable (_ ∨ _ ∧ _))

section Admit

variable {r : StreamReassembler} {data : Bytes} {index : Nat}

theorem mem_admitted {p : Nat} : p ∈ r.admitted data index ↔ p ∈ r.missing data index ∧
    ∀ e ∈ r.substrs.entries, index < e.2.index → r.output.bytesWritten < e.2.index →
      r.windowEnd ≤ e.2.index + e.2.data.length → p < e.2.index + e.2.data.length :=
  Finset.mem_filter

/-- Of a fresh piece nothing is refused. -/
theorem FreshCall.admitted_eq {d : Bytes} {i : Nat} {eof e : Bool}
    (h : FreshCall r data index eof d i e)
    (hfront : ∀ c ∈ r.substrs.entries,
      c.2.index ≤ max index r.output.bytesWritten ∨ i + d.length ≤ c.2.index) :
    r.admitted data index = r.missing data index := by
  refine Finset.filter_true_of_mem fun p hp c hc hi hw _ => ?_
  have := h.mem_missing_iff.mp hp
  rcases hfront c hc with hle | hge
  · omega
  · omega

section Split

variable {d₁ d₂ : Bytes} {i₁ i₂ : Nat} {eof e₁ e₂ : Bool}
  (h : SplitCall r data index eof d₁ i₁ e₁ d₂ i₂ e₂)
include h

theorem SplitCall.solid_first (hsolid : r.Solid data index) : r.Solid d₁ i₁ := by
  intro e he hempty
  have := h.within₁.low
  have := h.within₁.high
  rcases hsolid e he hempty with hle | hge
  · exact .inl (by omega)
  · exact .inr (by omega)

/-- If the second part begins beyond the window, the first part is what is admitted. -/
theorem SplitCall.admitted_first (hi : r.windowEnd ≤ i₂) :
    r.admitted data index = r.admitted d₁ i₁ := by
  have hstart := h.start
  have hpos := h.pos₁
  obtain ⟨c, hc, hci, hcl, -⟩ := h.wedge
  ext p
  rw [mem_admitted, mem_admitted]
  constructor
  · rintro ⟨hp, hall⟩
    obtain ⟨hb, hn⟩ := mem_missing.mp hp
    have hlast := hall c hc (by omega) (by omega) (by omega)
    have hin := (h.outside p hb.1 hb.2).resolve_left hn
    exact ⟨mem_missing.mpr ⟨by omega, hn⟩, fun e he hie hwe => hall e he (by omega) hwe⟩
  · rintro ⟨hp, hall⟩
    exact ⟨missing_within h.within₁ hp, fun e he hie hwe => hall e he (by omega) hwe⟩

/-- If it begins in the window, nothing is refused. -/
theorem SplitCall.admitted_eq (hsolid : r.Solid data index) (hi : i₂ < r.windowEnd) :
    r.admitted data index = r.missing data index := by
  refine Finset.filter_true_of_mem fun p hp e he hie _ hwin => ?_
  obtain ⟨hb, hn⟩ := mem_missing.mp hp
  by_contra hge
  have hbytes : e.2.data ≠ [] := by
    intro hempty
    have := hsolid e he hempty
    simp only [hempty, List.length_nil] at hge
    omega
  have hlen := List.length_pos_iff.mpr hbytes
  obtain ⟨c, hc, hci, hcl, hin, hempty | hnew⟩ := h.wedge
  · have := h.pos₁
    have := h.within₁.low
    have := hsolid c hc hempty
    omega
  · -- the segment would hold a byte of the second part
    have hord := h.order
    have hp₂ := (h.outside p hb.1 hb.2).resolve_left hn
    refine hnew (e.2.index + e.2.data.length - 1) (by omega) (by omega) (.inr ⟨e, he, ?_⟩)
    simp only [Segment.covers]
    omega

end Split

/-- A solid piece of which some bytes are refused comes down to the part of it that is
admitted. -/
theorem push_admitted (hwf : r.WellFormed) (hc : r.capacity < 2 ^ 64)
    (hlt : index + data.length < 2 ^ 64) (hpos : 0 < data.length) (hsolid : r.Solid data index)
    (hne : r.admitted data index ≠ r.missing data index) (eof : Bool) :
    (r.pushSubstring data index eof = r ∧ ∀ p ∈ r.missing data index, r.windowEnd ≤ p) ∨
      ∃ d i, Within d i data index ∧ 0 < d.length ∧ r.Solid d i ∧
        r.missing d i = r.admitted data index ∧
        (∀ p ∈ r.missing data index, p < r.windowEnd → p ∈ r.missing d i) ∧
        r.pushSubstring data index eof = r.pushSubstring d i false := by
  fun_induction pushSubstring r data index eof with
  | case1 r data index eof hge =>
    refine .inl ⟨rfl, fun p hp => ?_⟩
    have := (mem_missing.mp hp).1
    omega
  | case2 r data index eof hlt' hs => exact .inl ⟨rfl, by simp [missing_of_skipped hs]⟩
  | case3 r data index eof hlt' d i hs hd =>
    exact .inl ⟨rfl, by simp [missing_of_covered hwf hlt hs hd]⟩
  | case4 r data index eof hlt' d i hs d' i' e' hd =>
    exact absurd ((fresh_call hwf hlt hs hpos hd).admitted_eq
      (fresh_call_front hwf hlt hs hpos hd)) hne
  | case5 r data index eof hlt' d i hs d₁ i₁ e₁ d₂ i₂ e₂ hd ih₁ ih₂ =>
    have hsp := split_call hwf hlt hs hd
    have := hsp.within₁.high
    have hi₂ : r.windowEnd ≤ i₂ := by
      by_contra hin
      exact hne (hsp.admitted_eq hsolid (by omega))
    have hsecond : (r.pushSubstring d₁ i₁ e₁).windowEnd ≤ i₂ := by
      rwa [push_window hwf hc (by omega)]
    have hfirst : ∀ p ∈ r.missing data index, p < r.windowEnd → p ∈ r.missing d₁ i₁ := by
      intro p hp hwin
      obtain ⟨hb, hn⟩ := mem_missing.mp hp
      have := (hsp.outside p hb.1 hb.2).resolve_left hn
      exact mem_missing.mpr ⟨by omega, hn⟩
    rw [push_beyond hsecond, hsp.admitted_first hi₂]
    by_cases hall : r.admitted d₁ i₁ = r.missing d₁ i₁
    · exact .inr ⟨d₁, i₁, hsp.within₁, hsp.pos₁, hsp.solid_first hsolid, hall.symm, hfirst,
        by rw [hsp.mark₁]⟩
    · rcases ih₁ hwf hc (by omega) hsp.pos₁ (hsp.solid_first hsolid) hall with
        ⟨heq, hout⟩ | ⟨d', i', hw, hpos', hsolid', hmiss, hin, heq⟩
      · refine .inl ⟨heq, fun p hp => ?_⟩
        by_contra hwin
        exact hwin (hout p (hfirst p hp (by omega)))
      · exact .inr ⟨d', i', hw.trans hsp.within₁, hpos', hsolid', hmiss,
          fun p hp hwin => hin p (hfirst p hp hwin) hwin, heq⟩

/-- A call that has to refuse some bytes so that the others fit comes down to a call for a
part of the piece that fits. -/
theorem push_admits (hwf : r.WellFormed) (hc : r.capacity < 2 ^ 64)
    (hlt : index + data.length < 2 ^ 64) (h : r.Admits data index) (hfit : ¬ r.Fits data index)
    (eof : Bool) :
    (r.pushSubstring data index eof = r ∧ ∀ p ∈ r.missing data index, r.windowEnd ≤ p) ∨
      ∃ d i, Within d i data index ∧ 0 < d.length ∧ r.Fits d i ∧
        (∀ p ∈ r.missing data index, p < r.windowEnd → p ∈ r.missing d i) ∧
        r.pushSubstring data index eof = r.pushSubstring d i false := by
  obtain ⟨hsolid, hcard⟩ := h.resolve_left hfit
  have hne : r.admitted data index ≠ r.missing data index := fun hall => hfit (by rwa [Fits, ← hall])
  refine (push_admitted hwf hc hlt (length_pos_of_not_fits hfit) hsolid hne eof).imp_right ?_
  rintro ⟨d, i, hw, hpos, -, hmiss, hin, heq⟩
  exact ⟨d, i, hw, hpos, by rwa [Fits, hmiss], hin, heq⟩

end Admit

/-- No stored segment begins between two of the bytes `new`. -/
def OneStretch (r : StreamReassembler) (new : Finset Nat) : Prop :=
  ∀ e ∈ r.substrs.entries, (∀ p ∈ new, e.2.index ≤ p) ∨ ∀ p ∈ new, p < e.2.index

instance (r : StreamReassembler) (new : Finset Nat) : Decidable (r.OneStretch new) :=
  inferInstanceAs (Decidable (∀ e ∈ _, _ ∨ _))

/-- The call takes in one stretch of new bytes, all that is missing or all that is not
refused, and `P` holds of them. -/
def TakesIn (r : StreamReassembler) (data : Bytes) (index : Nat) (P : Finset Nat → Prop) : Prop :=
  (r.Unbroken data index ∧ P (r.missing data index)) ∨
    (r.Solid data index ∧ r.OneStretch (r.admitted data index) ∧ P (r.admitted data index))

instance (r : StreamReassembler) (data : Bytes) (index : Nat) (P : Finset Nat → Prop)
    [DecidablePred P] : Decidable (r.TakesIn data index P) :=
  inferInstanceAs (Decidable (_ ∧ _ ∨ _ ∧ _ ∧ _))

theorem Solid.unbroken {r : StreamReassembler} {data : Bytes} {index : Nat}
    (hsolid : r.Solid data index) (h : r.OneStretch (r.missing data index)) :
    r.Unbroken data index := by
  intro e he
  rcases h e he with hle | hgt
  · exact .inl hle
  · rcases (r.missing data index).eq_empty_or_nonempty with hnone | ⟨p, hp⟩
    · exact .inl (by simp [hnone])
    · refine .inr ⟨hgt, fun hempty => (hsolid e he hempty).resolve_left ?_⟩
      have := hgt p hp
      have := (mem_missing.mp hp).1
      omega

/-- Such a call stores the stretch, or finds none of it in the window and does nothing. -/
theorem push_takes_in {r : StreamReassembler} {data : Bytes} {index : Nat}
    {P : Finset Nat → Prop} (hwf : r.WellFormed) (hc : r.capacity < 2 ^ 64)
    (hlt : index + data.length < 2 ^ 64) (hpos : 0 < data.length) (h : r.TakesIn data index P)
    (eof : Bool) :
    (r.pushSubstring data index eof = r ∧ ∀ p ∈ r.missing data index, r.windowEnd ≤ p) ∨
      ∃ piece start mark d i e, FreshCall r piece start mark d i e ∧ P (r.missing piece start) ∧
        (∀ p ∈ r.missing data index, p < r.windowEnd → p ∈ r.missing piece start) ∧
        r.pushSubstring data index eof = r.store d i e := by
  by_cases hwhole : r.Unbroken data index ∧ P (r.missing data index)
  · refine (push_unbroken hwf hlt hpos hwhole.1 eof).imp_right ?_
    rintro ⟨d, i, e, hf, heq⟩
    exact ⟨data, index, eof, d, i, e, hf, hwhole.2, fun p hp _ => hp, heq⟩
  obtain ⟨hsolid, hone, hP⟩ := h.resolve_left hwhole
  have hne : r.admitted data index ≠ r.missing data index := by
    intro hall
    rw [hall] at hone hP
    exact hwhole ⟨hsolid.unbroken hone, hP⟩
  rcases push_admitted hwf hc hlt hpos hsolid hne eof with
    hnone | ⟨d, i, hw, hpos', hsolid', hmiss, hin, heq⟩
  · exact .inl hnone
  have := hw.high
  rw [← hmiss] at hone hP
  rw [heq]
  rcases push_unbroken hwf (by omega) hpos' (hsolid'.unbroken hone) false with
    ⟨heq', hout⟩ | ⟨d', i', e', hf, heq'⟩
  · refine .inl ⟨heq', fun p hp => ?_⟩
    by_contra hwin
    exact hwin (hout p (hin p hp (by omega)))
  · exact .inr ⟨d, i, false, d', i', e', hf, hP, hin, heq'⟩

/-- Something is stored, and all of it begins below the bytes that are missing. -/
def Below (r : StreamReassembler) (data : Bytes) (index : Nat) : Prop :=
  r.substrs.entries ≠ [] ∧ ∀ e ∈ r.substrs.entries, ∀ p ∈ r.missing data index, e.2.index < p

instance (r : StreamReassembler) (data : Bytes) (index : Nat) : Decidable (r.Below data index) :=
  inferInstanceAs (Decidable (_ ∧ _))

theorem Below.unbroken {r : StreamReassembler} {data : Bytes} {index : Nat}
    (h : r.Below data index) : r.Unbroken data index :=
  fun e he => .inl fun p hp => Nat.le_of_lt (h.2 e he p hp)

section MakeRoom

variable {r : StreamReassembler} {data : Bytes} {ib key : Nat} {top : Segment}
  {rest : List (Nat × Segment)}

theorem make_room_unstored (he : r.substrs.entries = []) (hgt : r.emptySize < data.length) :
    r.makeRoom data ib = some (r, data.take r.emptySize) := by
  simp only [makeRoom, he, hgt, ↓reduceIte]

theorem make_room_above (he : r.substrs.entries = (key, top) :: rest)
    (hgt : r.emptySize < data.length) (hi : top.index < ib) : r.makeRoom data ib = none := by
  simp only [makeRoom, he, hgt, hi, ↓reduceIte]

theorem make_room_trim (he : r.substrs.entries = (key, top) :: rest)
    (hgt : r.emptySize < data.length) (hi : ib ≤ top.index)
    (hcut : data.length < add top.data.length r.emptySize) :
    r.makeRoom data ib = some (r.trimFront key { top with eof := false } data.length, data) := by
  simp only [makeRoom, he, hgt, Nat.not_lt.mpr hi, hcut, ↓reduceIte]

theorem make_room_drop (he : r.substrs.entries = (key, top) :: rest)
    (hgt : r.emptySize < data.length) (hi : ib ≤ top.index)
    (hcut : add top.data.length r.emptySize ≤ data.length) :
    r.makeRoom data ib = some ((r.dropFront top).evictLoop data ib) := by
  simp only [makeRoom, he, hgt, Nat.not_lt.mpr hi, Nat.not_lt.mpr hcut, ↓reduceIte]

end MakeRoom

/-- The stored segments that share an index with the data still have no bytes. -/
theorem Shrunk.keep {r r' : StreamReassembler} {index : Nat} (h : Shrunk r r')
    (hk : ∀ e ∈ r.substrs.entries, e.1 = index → e.2.data = []) :
    ∀ e ∈ r'.substrs.entries, e.1 = index → e.2.data = [] := by
  intro e' he' hi
  obtain ⟨e, he, hke, -, hd, -⟩ := h.entry e' he'
  rw [hk e he (hke.symm.trans hi)] at hd
  exact List.prefix_nil.mp hd

/-- A piece whose new bytes lie above everything stored and do not fit is dropped
whole. -/
theorem push_below {r : StreamReassembler} {data : Bytes} {index : Nat} (hwf : r.WellFormed)
    (hlt : index + data.length < 2 ^ 64) (hb : r.Below data index) (hfit : ¬ r.Fits data index)
    (eof : Bool) : r.pushSubstring data index eof = r := by
  have hpos := length_pos_of_not_fits hfit
  rcases push_unbroken hwf hlt hpos hb.unbroken eof with ⟨heq, -⟩ | ⟨d, i, e, hf, heq⟩
  · exact heq
  · obtain ⟨c, cs, hcs⟩ := List.exists_cons_of_ne_nil hb.1
    have hgt : r.emptySize < d.length := hf.card_missing ▸ Nat.lt_of_not_ge hfit
    rw [heq, store, make_room_above hcs hgt (hb.2 c (by simp [hcs]) i hf.first_missing)]

/-- How the store makes room for the bytes `new`, from the highest segment down,
with `free` bytes to spare: as soon as they fit or the segment lies below them it
stops; else it drops the segment, or cuts it if that is enough. Of a cut `cut` is
asked, with the bytes that are free at that moment. -/
def Evicts (cut : Nat → Prop) (new : Finset Nat) : Nat → List (Nat × Segment) → Prop
  | _, [] => True
  | free, (_, top) :: rest =>
    new.card ≤ free ∨ (∀ p ∈ new, top.index < p) ∨
      if new.card < top.data.length + free then cut free
      else Evicts cut new (free + top.data.length) rest

instance decidableEvicts (cut : Nat → Prop) [DecidablePred cut] (new : Finset Nat) :
    ∀ free es, Decidable (Evicts cut new free es)
  | _, [] => .isTrue trivial
  | free, (_, top) :: rest =>
    have := decidableEvicts cut new (free + top.data.length) rest
    inferInstanceAs (Decidable (new.card ≤ free ∨ (∀ p ∈ new, top.index < p) ∨
      if new.card < top.data.length + free then cut free
      else Evicts cut new (free + top.data.length) rest))

theorem Evicts.of_front {cut : Nat → Prop} {new : Finset Nat} {free key : Nat} {top : Segment}
    {rest : List (Nat × Segment)} (h : Evicts cut new free ((key, top) :: rest))
    (hgt : free < new.card) (hi : ∃ p ∈ new, p ≤ top.index) :
    if new.card < top.data.length + free then cut free
    else Evicts cut new (free + top.data.length) rest := by
  rcases h with h | h | h
  · omega
  · obtain ⟨p, hp, hle⟩ := hi
    have := h p hp
    omega
  · exact h

end Sponge.StreamReassembler
