import Sponge.Reassembler.Push
import Mathlib.Order.Interval.Finset.Nat
import Mathlib.Data.Finset.Card
import Mathlib.Data.Finset.Union

namespace Sponge.StreamReassembler

open Word64

/-- The positions of a piece the reassembler does not have yet. -/
def missing (r : StreamReassembler) (data : Bytes) (index : Nat) : Finset Nat :=
  (Finset.Ico index (index + data.length)).filter (fun p => ¬ r.has p)

/-- The new bytes of the piece fit in the free space, so that nothing has to be
evicted for them. -/
def Fits (r : StreamReassembler) (data : Bytes) (index : Nat) : Prop :=
  (r.missing data index).card ≤ r.emptySize

instance (r : StreamReassembler) (data : Bytes) (index : Nat) : Decidable (r.Fits data index) :=
  inferInstanceAs (Decidable (_ ≤ _))

/-- An empty piece that ends the stream takes the place of whatever is stored
under its index, bytes included. -/
def Overwrites (r : StreamReassembler) (data : Bytes) (index : Nat) (eof : Bool) : Prop :=
  data = [] ∧ eof = true ∧ ∃ e ∈ r.substrs.entries, e.1 = index ∧ e.2.data ≠ []

instance (r : StreamReassembler) (data : Bytes) (index : Nat) (eof : Bool) :
    Decidable (r.Overwrites data index eof) :=
  inferInstanceAs (Decidable (_ ∧ _ ∧ _))

theorem not_overwrites_of_pos {r : StreamReassembler} {data : Bytes} {index : Nat} {e : Bool}
    (h : 0 < data.length) : ¬ r.Overwrites data index e := by
  rintro ⟨rfl, -⟩
  exact Nat.lt_irrefl _ h

theorem mem_missing {r : StreamReassembler} {data : Bytes} {index p : Nat} :
    p ∈ r.missing data index ↔ (index ≤ p ∧ p < index + data.length) ∧ ¬ r.has p := by
  simp [missing]

theorem missing_within {r : StreamReassembler} {data d : Bytes} {index i : Nat}
    (hw : Within d i data index) : r.missing d i ⊆ r.missing data index := by
  intro p hp
  obtain ⟨hb, hn⟩ := mem_missing.mp hp
  have := hw.low
  have := hw.high
  exact mem_missing.mpr ⟨by omega, hn⟩

theorem empty_size_eq {r : StreamReassembler} (hc : r.capacity < 2 ^ 64) :
    r.emptySize = r.capacity - add r.substrsSize r.output.bufferSize := by
  unfold emptySize sub add
  split <;> omega

/-- Room is a matter of the capacity and of two counters taken together: the
window and the free space stay as long as bytes only move from the store to
the output. -/
structure SameRoom (r r' : StreamReassembler) : Prop where
  capacity : r'.capacity = r.capacity
  window : r'.windowEnd = r.windowEnd
  free : r'.emptySize = r.emptySize

theorem SameRoom.trans {r₁ r₂ r₃ : StreamReassembler} (h : SameRoom r₁ r₂)
    (h' : SameRoom r₂ r₃) : SameRoom r₁ r₃ :=
  ⟨h'.capacity.trans h.capacity, h'.window.trans h.window, h'.free.trans h.free⟩

/-- Some bytes move from the store to the output. -/
theorem move_same_room {r r' : StreamReassembler} {k : Nat} (hc : r.capacity < 2 ^ 64)
    (hk : k ≤ r.output.remainingCapacity) (hcap : r'.capacity = r.capacity)
    (hcap' : r'.output.capacity = r.output.capacity)
    (hw : r'.output.written = r.output.written + k)
    (hb : r'.output.buffer.length = r.output.buffer.length + k)
    (hs : r'.substrsSize = sub r.substrsSize k) : SameRoom r r' := by
  simp only [ByteStream.remainingCapacity] at hk
  refine ⟨hcap, ?_, ?_⟩
  · simp only [windowEnd, ByteStream.bytesWritten, ByteStream.remainingCapacity, hw, hb, hcap']
    unfold add
    congr 1
    omega
  · rw [empty_size_eq (hcap ▸ hc), empty_size_eq hc, hcap]
    simp only [ByteStream.bufferSize, hs, hb]
    unfold sub add
    omega

theorem write_whole_room {r : StreamReassembler} {seg : Segment} (hc : r.capacity < 2 ^ 64)
    (hle : seg.data.length ≤ r.output.remainingCapacity) : SameRoom r (r.writeWhole seg) := by
  refine move_same_room hc hle rfl ?_ ?_ ?_ rfl
  all_goals simp only [writeWhole, ByteStream.write_all hle]
  all_goals split
  all_goals simp

theorem write_part_room {r : StreamReassembler} {seg : Segment} (hc : r.capacity < 2 ^ 64)
    (hlt : r.output.remainingCapacity < seg.data.length) : SameRoom r (r.writePart seg) := by
  have hw : (seg.data.take r.output.remainingCapacity).length ≤ r.output.remainingCapacity := by
    simp
  refine move_same_room hc (Nat.le_refl _) rfl rfl ?_ ?_ rfl
  all_goals simp only [writePart, ByteStream.write_all hw, List.length_take, List.length_append]
  all_goals omega

theorem drain_room {r : StreamReassembler} (hl : r.Laid) (hc : r.capacity < 2 ^ 64) :
    SameRoom r r.drain := by
  refine (drain_preserves (Q := SameRoom r) hl ⟨rfl, rfl, rfl⟩ ?_ ?_).2
  · intro r' seg _ h _ hle
    exact h.trans (write_whole_room (h.capacity ▸ hc) hle)
  · intro r' seg _ h _ _ hlt
    exact h.trans (write_part_room (h.capacity ▸ hc) hlt)

/-- No call moves the end of the window; only a read does. -/
theorem push_window {r : StreamReassembler} {data : Bytes} {index : Nat} (hwf : r.WellFormed)
    (hc : r.capacity < 2 ^ 64) (hlt : index + data.length < 2 ^ 64) (eof : Bool) :
    (r.pushSubstring data index eof).windowEnd = r.windowEnd := by
  refine (push_preserves
    (Q := fun r' => r'.capacity = r.capacity ∧ r'.windowEnd = r.windowEnd)
    (A := fun _ _ _ => True) (fun _ _ _ => trivial) ?_ hwf ⟨rfl, rfl⟩ hlt trivial).2.2
  rintro r' d i e hwf ⟨hcap, hwin⟩ - hu -
  unfold store
  split
  · exact ⟨hcap, hwin⟩
  · rename_i r'' d' hm
    obtain ⟨hs, hd⟩ := make_room_shrunk hm
    have hl := (hwf.shrink hs).toLaid.put (hu.shrink hs hd) e
    have hcap' : (r''.put d' i e).capacity = r.capacity := hs.capacity.trans hcap
    have hroom := drain_room hl (hcap' ▸ hc)
    refine ⟨hroom.capacity.trans hcap', hroom.window.trans ?_⟩
    rw [← hwin, windowEnd, put, hs.output]
    rfl

section StoreFits

variable {r : StreamReassembler} {data : Bytes} {index : Nat} (eof : Bool)

/-- Data that fits is put down as it is and written out. -/
theorem store_fits (h : data.length ≤ r.emptySize) :
    r.store data index eof = (r.put data index eof).drain := by
  simp [store, make_room_fits index h]

theorem put_has (hkeep : ∀ e ∈ r.substrs.entries, e.1 = index → e.2.data = []) (p : Nat) :
    (r.put data index eof).has p ↔ r.has p ∨ (index ≤ p ∧ p < index + data.length) := by
  constructor
  · rintro (hp | ⟨e, he, hc⟩)
    · exact .inl (.inl hp)
    · rcases put_mem.mp he with rfl | ⟨he, -⟩
      · exact .inr hc
      · exact .inl (.inr ⟨e, he, hc⟩)
  · rintro ((hp | ⟨e, he, hc⟩) | hp)
    · exact .inl hp
    · refine .inr ⟨e, put_mem.mpr (.inr ⟨he, ?_⟩), hc⟩
      intro hk
      simp [Segment.covers, hkeep e he hk] at hc
      omega
    · exact .inr ⟨_, put_mem.mpr (.inl rfl), hp⟩

/-- New bytes share no index with stored bytes. -/
theorem Unseen.keep (hl : r.Laid) (hu : r.Unseen data index) (hpos : 0 < data.length) :
    ∀ e ∈ r.substrs.entries, e.1 = index → e.2.data = [] := by
  intro e he hk
  by_contra hne
  have hlen := List.length_pos_iff.mpr hne
  have hi := hl.keyed e he
  exact hu.clear index (Nat.le_refl _) (by omega) ⟨e, he, by simp only [Segment.covers]; omega⟩

/-- Neither does an empty piece that overwrites nothing. -/
theorem keep_of_not_overwrites (hno : ¬ r.Overwrites [] index eof)
    (hor : r.substrs.entries = [] ∨ eof = true) :
    ∀ e ∈ r.substrs.entries, e.1 = index → e.2.data = [] := by
  intro e he hk
  rcases hor with hor | hor
  · simp [hor] at he
  · by_contra hne
    exact hno ⟨rfl, hor, e, he, hk, hne⟩

theorem put_empty_size (hc : r.capacity < 2 ^ 64) (h : data.length ≤ r.emptySize) :
    (r.put data index eof).emptySize = r.emptySize - data.length := by
  rw [empty_size_eq hc] at h
  rw [empty_size_eq (r := r.put data index eof) hc, empty_size_eq hc]
  simp only [put, ByteStream.bufferSize] at *
  unfold add at *
  omega

theorem store_fits_has (hl : r.Laid) (hu : r.Unseen data index)
    (hkeep : ∀ e ∈ r.substrs.entries, e.1 = index → e.2.data = [])
    (h : data.length ≤ r.emptySize) (p : Nat) :
    (r.store data index eof).has p ↔ r.has p ∨ (index ≤ p ∧ p < index + data.length) := by
  rw [store_fits eof h, drain_has (hl.put hu eof), put_has eof hkeep]

theorem store_fits_room (hl : r.Laid) (hc : r.capacity < 2 ^ 64) (hu : r.Unseen data index)
    (h : data.length ≤ r.emptySize) :
    (r.store data index eof).capacity = r.capacity ∧
      (r.store data index eof).windowEnd = r.windowEnd ∧
      (r.store data index eof).emptySize = r.emptySize - data.length := by
  rw [store_fits eof h]
  obtain ⟨hcap, hwin, hfree⟩ := drain_room (hl.put hu eof) hc
  exact ⟨hcap, hwin, hfree.trans (put_empty_size eof hc h)⟩

end StoreFits

/-- A fresh piece is exactly what was missing of the data. -/
theorem FreshCall.mem_missing_iff {r : StreamReassembler} {data d : Bytes} {index i : Nat}
    {eof e : Bool} (h : FreshCall r data index eof d i e) {p : Nat} :
    p ∈ r.missing data index ↔ i ≤ p ∧ p < i + d.length := by
  have := h.within.low
  have := h.within.high
  rw [mem_missing]
  constructor
  · rintro ⟨⟨hl, hlt⟩, hn⟩
    exact (h.outside p hl hlt).resolve_left hn
  · rintro ⟨hl, hlt⟩
    refine ⟨⟨by omega, by omega⟩, ?_⟩
    rintro (hb | hc)
    · have := h.unseen.above
      omega
    · exact h.unseen.clear p hl hlt hc

theorem FreshCall.first_missing {r : StreamReassembler} {data d : Bytes} {index i : Nat}
    {eof e : Bool} (h : FreshCall r data index eof d i e) : i ∈ r.missing data index := by
  have := h.pos
  exact h.mem_missing_iff.mpr ⟨Nat.le_refl i, by omega⟩

theorem FreshCall.card_missing {r : StreamReassembler} {data d : Bytes} {index i : Nat}
    {eof e : Bool} (h : FreshCall r data index eof d i e) :
    (r.missing data index).card = d.length := by
  have he : r.missing data index = Finset.Ico i (i + d.length) := by
    ext p
    rw [h.mem_missing_iff, Finset.mem_Ico]
  rw [he, Nat.card_Ico]
  omega

/-- The two parts of a split miss no more than the whole. -/
theorem SplitCall.card_missing {r : StreamReassembler} {data d₁ d₂ : Bytes}
    {index i₁ i₂ : Nat} {eof e₁ e₂ : Bool} (h : SplitCall r data index eof d₁ i₁ e₁ d₂ i₂ e₂)
    (r' : StreamReassembler) (hmono : ∀ p, r.has p → r'.has p) :
    (r.missing d₁ i₁).card + (r'.missing d₂ i₂).card ≤ (r.missing data index).card := by
  have hord := h.order
  have hdisj : Disjoint (r.missing d₁ i₁) (r'.missing d₂ i₂) := by
    rw [Finset.disjoint_left]
    intro p h₁ h₂
    have := (mem_missing.mp h₁).1
    have := (mem_missing.mp h₂).1
    omega
  rw [← Finset.card_union_of_disjoint hdisj]
  apply Finset.card_le_card
  intro p hp
  rcases Finset.mem_union.mp hp with hp | hp
  · exact missing_within h.within₁ hp
  · obtain ⟨hb, hn⟩ := mem_missing.mp (missing_within h.within₂ hp)
    exact mem_missing.mpr ⟨hb, fun hr => hn (hmono p hr)⟩

/-- What a call does whose new bytes fit: it loses nothing, takes in every byte
of the piece that lies in the window, and uses up no more room than that. -/
structure Absorbs (r r' : StreamReassembler) (data : Bytes) (index : Nat) : Prop where
  keeps : ∀ p, r.has p → r'.has p
  takes : ∀ p, index ≤ p → p < index + data.length → p < r.windowEnd → r'.has p
  only : ∀ p, r'.has p → r.has p ∨ (index ≤ p ∧ p < index + data.length)
  capacity : r'.capacity = r.capacity
  window : r'.windowEnd = r.windowEnd
  free : r.emptySize ≤ r'.emptySize + (r.missing data index).card

/-- A call that changes nothing takes in what is there already. -/
theorem Absorbs.same {r : StreamReassembler} {data : Bytes} {index : Nat}
    (h : ∀ p, index ≤ p → p < index + data.length → p < r.windowEnd → r.has p) :
    Absorbs r r data index :=
  ⟨fun _ => id, h, fun _ => .inl, rfl, rfl, Nat.le_add_right _ _⟩

/-- Storing data that fits takes in the piece it is a part of, if it is all that was missing. -/
theorem store_absorbs {r : StreamReassembler} {data d : Bytes} {index i : Nat} (e : Bool)
    (hl : r.Laid) (hc : r.capacity < 2 ^ 64) (hu : r.Unseen d i)
    (hkeep : ∀ c ∈ r.substrs.entries, c.1 = i → c.2.data = []) (hle : d.length ≤ r.emptySize)
    (hw : Within d i data index) (hcard : (r.missing data index).card = d.length)
    (hout : ∀ p, index ≤ p → p < index + data.length → r.has p ∨ (i ≤ p ∧ p < i + d.length)) :
    Absorbs r (r.store d i e) data index := by
  obtain ⟨hcap, hwin, hfree⟩ := store_fits_room e hl hc hu hle
  have hhas := store_fits_has e hl hu hkeep hle
  refine ⟨fun p hp => (hhas p).mpr (.inl hp), fun p hp hp' _ => (hhas p).mpr (hout p hp hp'),
    ?_, hcap, hwin, by omega⟩
  intro p hp
  have := hw.low
  have := hw.high
  exact ((hhas p).mp hp).imp_right (fun h => ⟨by omega, by omega⟩)

section Split

variable {r : StreamReassembler} {data d₁ d₂ : Bytes} {index i₁ i₂ : Nat} {eof e₁ e₂ : Bool}

theorem SplitCall.fits_first (h : SplitCall r data index eof d₁ i₁ e₁ d₂ i₂ e₂)
    (hfit : r.Fits data index) : r.Fits d₁ i₁ := by
  have := h.card_missing r (fun _ => id)
  unfold Fits at *
  omega

/-- What the first part uses up is not what the second part needs. -/
theorem SplitCall.fits_second (h : SplitCall r data index eof d₁ i₁ e₁ d₂ i₂ e₂)
    (hfit : r.Fits data index) {r₁ : StreamReassembler} (hab : Absorbs r r₁ d₁ i₁) :
    r₁.Fits d₂ i₂ := by
  have := h.card_missing _ hab.keeps
  have := hab.free
  unfold Fits at *
  omega

/-- What the two parts take in is what the whole takes in. -/
theorem SplitCall.absorbs (h : SplitCall r data index eof d₁ i₁ e₁ d₂ i₂ e₂)
    {r₁ r₂ : StreamReassembler} (hab₁ : Absorbs r r₁ d₁ i₁) (hab₂ : Absorbs r₁ r₂ d₂ i₂) :
    Absorbs r r₂ data index := by
  refine ⟨fun p hp => hab₂.keeps p (hab₁.keeps p hp), ?_, ?_,
    hab₂.capacity.trans hab₁.capacity, hab₂.window.trans hab₁.window, ?_⟩
  · intro p hp hp' hwin
    rcases h.outside p hp hp' with hr | h₁ | h₂
    · exact hab₂.keeps p (hab₁.keeps p hr)
    · exact hab₂.keeps p (hab₁.takes p h₁.1 h₁.2 hwin)
    · exact hab₂.takes p h₂.1 h₂.2 (hab₁.window ▸ hwin)
  · intro p hp
    have hlow₁ := h.within₁.low
    have hhigh₁ := h.within₁.high
    have hlow₂ := h.within₂.low
    have hhigh₂ := h.within₂.high
    rcases hab₂.only p hp with hr₁ | h₂
    · rcases hab₁.only p hr₁ with hr | h₁
      · exact .inl hr
      · exact .inr ⟨by omega, by omega⟩
    · exact .inr ⟨by omega, by omega⟩
  · have hcard := h.card_missing _ hab₁.keeps
    have hfree₁ := hab₁.free
    have hfree₂ := hab₂.free
    omega

end Split

/-- The induction rule for a call whose new bytes fit: every piece it stores,
itself or in the calls it makes of itself, fits too. -/
theorem push_fits {Q : StreamReassembler → Prop} {A : Bytes → Nat → Bool → Prop}
    (hsub : ∀ {d i e d' i' e'}, A d i e → Within d' i' d i →
      (e' = true → e = true ∧ i' + d'.length = i + d.length) → A d' i' e')
    (hstore : ∀ r d i e, r.WellFormed → Q r → A d i e → r.Unseen d i →
      (∀ c ∈ r.substrs.entries, c.1 = i → c.2.data = []) → d.length ≤ r.emptySize →
      Q (r.store d i e))
    {r : StreamReassembler} {data : Bytes} {index : Nat} {eof : Bool} (hwf : r.WellFormed)
    (hc : r.capacity < 2 ^ 64) (hq : Q r) (hlt : index + data.length < 2 ^ 64)
    (hfit : r.Fits data index) (hno : ¬ r.Overwrites data index eof) (ha : A data index eof) :
    Q (r.pushSubstring data index eof) ∧
      Absorbs r (r.pushSubstring data index eof) data index := by
  fun_induction pushSubstring r data index eof with
  | case1 r data index eof hge => exact ⟨hq, .same (fun p _ _ _ => by omega)⟩
  | case2 r data index eof hlt' hs =>
    obtain ⟨_, _⟩ := skip_written_none hs
    exact ⟨hq, .same (fun p _ _ _ => .inl (by omega))⟩
  | case3 r data index eof hlt' d i hs hd =>
    exact ⟨hq, .same (fun p hp hp' _ => covered_call hwf hlt hs hd p hp hp')⟩
  | case4 r data index eof hlt' d i hs d' i' e' hd =>
    rcases Nat.eq_zero_or_pos data.length with h0 | hpos
    · have hnil := List.length_eq_zero_iff.mp h0
      subst hnil
      obtain ⟨rfl, rfl, rfl, hor, hu⟩ := empty_call hs hd hlt
      have hle : ([] : Bytes).length ≤ r.emptySize := Nat.zero_le _
      have hkeep := keep_of_not_overwrites e' hno hor
      exact ⟨hstore r [] i' e' hwf hq ha hu hkeep hle, store_absorbs e' hwf.toLaid hc hu hkeep hle
        (.refl _ _) (by simp [missing]) fun p hp hp' => .inr ⟨hp, hp'⟩⟩
    · have hf := fresh_call hwf hlt hs hpos hd
      have hle : d'.length ≤ r.emptySize := hf.card_missing ▸ hfit
      have hkeep := hf.unseen.keep hwf.toLaid hf.pos
      exact ⟨hstore r d' i' e' hwf hq (hsub ha hf.within hf.mark.mp) hf.unseen hkeep hle,
        store_absorbs e' hwf.toLaid hc hf.unseen hkeep hle hf.within hf.card_missing hf.outside⟩
  | case5 r data index eof hlt' d i hs d₁ i₁ e₁ d₂ i₂ e₂ hd ih₁ ih₂ =>
    have hsp := split_call hwf hlt hs hd
    have := hsp.within₁.high
    have := hsp.within₂.high
    obtain ⟨hq₁, hab₁⟩ := ih₁ hwf hc hq (by omega) (hsp.fits_first hfit)
      (not_overwrites_of_pos hsp.pos₁) (hsub ha hsp.within₁ (fun h => by simp [hsp.mark₁] at h))
    have hwf₁ : (r.pushSubstring d₁ i₁ e₁).WellFormed := hwf.push (by omega) e₁
    obtain ⟨hq₂, hab₂⟩ := ih₂ hwf₁ (hab₁.capacity ▸ hc) hq₁ (by omega)
      (hsp.fits_second hfit hab₁) (not_overwrites_of_pos hsp.pos₂)
      (hsub ha hsp.within₂ hsp.mark₂.mp)
    exact ⟨hq₂, hsp.absorbs hab₁ hab₂⟩

theorem push_absorbs {r : StreamReassembler} {data : Bytes} {index : Nat} {eof : Bool}
    (hwf : r.WellFormed) (hc : r.capacity < 2 ^ 64) (hlt : index + data.length < 2 ^ 64)
    (hfit : r.Fits data index) (hno : ¬ r.Overwrites data index eof) :
    Absorbs r (r.pushSubstring data index eof) data index :=
  (push_fits (Q := fun _ => True) (A := fun _ _ _ => True) (fun _ _ _ => trivial)
    (fun _ _ _ _ _ _ _ _ _ _ => trivial) hwf hc trivial hlt hfit hno trivial).2

end Sponge.StreamReassembler
