import Sponge.Reassembler.Push

namespace Sponge

/-- Every byte of the data may stand where it stands: `ok i b` says that the
stream has byte `b` at position `i`. -/
def Carries (ok : Nat → UInt8 → Prop) (data : Bytes) (index : Nat) : Prop :=
  ∀ t b, data[t]? = some b → ok (index + t) b

namespace Carries

variable {ok ok' : Nat → UInt8 → Prop} {data d : Bytes} {index i : Nat}

theorem nil (ok : Nat → UInt8 → Prop) (index : Nat) : Carries ok [] index := by
  intro t b h
  simp at h

theorem imp (h : Carries ok data index) (hok : ∀ i b, ok i b → ok' i b) :
    Carries ok' data index :=
  fun t b hb => hok _ _ (h t b hb)

theorem within (h : Carries ok data index) (hw : Within d i data index) : Carries ok d i := by
  intro t b hb
  have ht := (List.getElem?_eq_some_iff.mp hb).1
  have := h (i - index + t) b (hw.bytes t ht ▸ hb)
  rwa [show index + (i - index + t) = i + t by have := hw.low; omega] at this

theorem cut (h : Carries ok data index) (hp : d <+: data) : Carries ok d index := by
  intro t b hb
  obtain ⟨tail, rfl⟩ := hp
  have ht := (List.getElem?_eq_some_iff.mp hb).1
  exact h t b (by rw [List.getElem?_append_left ht, hb])

theorem drop (h : Carries ok data index) (n : Nat) : Carries ok (data.drop n) (index + n) := by
  intro t b hb
  have := h (n + t) b (by rwa [List.getElem?_drop] at hb)
  rwa [← Nat.add_assoc] at this

theorem append (h : Carries ok data index) (h' : Carries ok d (index + data.length)) :
    Carries ok (data ++ d) index := by
  intro t b hb
  by_cases ht : t < data.length
  · exact h t b (by rwa [List.getElem?_append_left ht] at hb)
  · rw [List.getElem?_append_right (by omega)] at hb
    have := h' _ b hb
    rwa [show index + data.length + (t - data.length) = index + t by omega] at this

end Carries

namespace StreamReassembler

open Word64

/-- All bytes are where the stream has them: the stored ones, and the ones
written out, of which the reader has taken `taken`. -/
structure Faithful (ok : Nat → UInt8 → Prop) (taken : Bytes) (r : StreamReassembler) : Prop where
  stored : ∀ e ∈ r.substrs.entries, Carries ok e.2.data e.2.index
  count : taken.length = r.output.bytesRead
  output : Carries ok (taken ++ r.output.buffer) 0

variable {ok ok' : Nat → UInt8 → Prop} {taken : Bytes} {r : StreamReassembler}

theorem new_faithful (ok : Nat → UInt8 → Prop) (capacity : Nat) :
    Faithful ok [] (new capacity) :=
  ⟨by simp [new], rfl, .nil _ _⟩

theorem Faithful.imp (h : Faithful ok taken r) (hok : ∀ i b, ok i b → ok' i b) :
    Faithful ok' taken r :=
  ⟨fun e he => (h.stored e he).imp hok, h.count, h.output.imp hok⟩

theorem Faithful.length (h : Faithful ok taken r) (hc : r.output.Counted) :
    (taken ++ r.output.buffer).length = r.output.bytesWritten := by
  have := h.count
  have := hc.counted
  simp only [ByteStream.bytesRead, ByteStream.bytesWritten, List.length_append] at *
  omega

/-- The byte stored at a position is the stream's. -/
theorem Faithful.stored_byte (h : Faithful ok taken r) {e : Nat × Segment}
    (he : e ∈ r.substrs.entries) {p : Nat} (hc : e.2.covers p) :
    ∃ b, e.2.data[p - e.2.index]? = some b ∧ ok p b := by
  obtain ⟨hi, hp⟩ := hc
  have hget := List.getElem?_eq_getElem (show p - e.2.index < e.2.data.length by omega)
  have hok := h.stored e he _ _ hget
  rw [show e.2.index + (p - e.2.index) = p by omega] at hok
  exact ⟨_, hget, hok⟩

/-- The byte written out at a position is the stream's. -/
theorem Faithful.output_byte (h : Faithful ok taken r) (hc : r.output.Counted) {p : Nat}
    (hp : p < r.output.bytesWritten) : ∃ b, (taken ++ r.output.buffer)[p]? = some b ∧ ok p b := by
  have hget := List.getElem?_eq_getElem (h.length hc ▸ hp)
  have hok := h.output p _ hget
  rw [Nat.zero_add] at hok
  exact ⟨_, hget, hok⟩

/-- Bytes of the segment at the write position extend the output in place. -/
theorem Faithful.write (h : Faithful ok taken r) (hl : r.Laid) {seg : Segment}
    (hf : r.substrs.find? r.output.bytesWritten = some seg) {d : Bytes} (hd : d <+: seg.data) :
    Carries ok (taken ++ (r.output.buffer ++ d)) 0 := by
  have hm := OrdMap.mem_of_find? hf
  have hi : seg.index = r.output.bytesWritten := hl.keyed _ hm
  rw [← List.append_assoc]
  refine h.output.append ?_
  rw [h.length hl.counted, Nat.zero_add, ← hi]
  exact (h.stored _ hm).cut hd

theorem Faithful.write_whole (h : Faithful ok taken r) (hl : r.Laid) {seg : Segment}
    (hf : r.substrs.find? r.output.bytesWritten = some seg)
    (hle : seg.data.length ≤ r.output.remainingCapacity) :
    Faithful ok taken (r.writeWhole seg) := by
  refine ⟨fun e he => h.stored e (OrdMap.mem_erase.mp he).1, ?_, ?_⟩
  · rw [h.count]
    simp only [writeWhole, ByteStream.bytesRead]
    split <;> rfl
  · have := h.write hl hf (List.prefix_refl _)
    simp only [writeWhole, ByteStream.write_all hle]
    split <;> exact this

theorem Faithful.write_part (h : Faithful ok taken r) (hl : r.Laid) {seg : Segment}
    (hf : r.substrs.find? r.output.bytesWritten = some seg) :
    Faithful ok taken (r.writePart seg) := by
  have hw : (seg.data.take r.output.remainingCapacity).length ≤ r.output.remainingCapacity := by
    simp
  refine ⟨?_, h.count, ?_⟩
  · intro e he
    rcases OrdMap.mem_insert.mp he with rfl | ⟨he, -⟩
    · exact (h.stored _ (OrdMap.mem_of_find? hf)).drop _
    · exact h.stored e (OrdMap.mem_erase.mp he).1
  · have := h.write hl hf ( List.take_prefix r.output.remainingCapacity seg.data)
    simpa only [writePart, ByteStream.write_all hw] using this

theorem Faithful.drain (h : Faithful ok taken r) (hl : r.Laid) : Faithful ok taken r.drain :=
  (drain_preserves (Q := Faithful ok taken) hl h
    (fun _ _ hl h hf hle => h.write_whole hl hf hle)
    (fun _ _ hl h hf _ _ => h.write_part hl hf)).2

theorem Faithful.shrink {r' : StreamReassembler} (h : Faithful ok taken r) (hs : Shrunk r r') :
    Faithful ok taken r' := by
  refine ⟨?_, hs.output ▸ h.count, hs.output ▸ h.output⟩
  intro e' he'
  obtain ⟨e, he, -, hi, hd, -, -⟩ := hs.entry e' he'
  exact hi ▸ (h.stored e he).cut hd

theorem Faithful.put (h : Faithful ok taken r) {data : Bytes} {index : Nat}
    (hc : Carries ok data index) (eof : Bool) : Faithful ok taken (r.put data index eof) := by
  refine ⟨?_, h.count, h.output⟩
  intro e he
  rcases put_mem.mp he with rfl | ⟨he, -⟩
  · exact hc
  · exact h.stored e he

theorem Faithful.store (h : Faithful ok taken r) (hwf : r.WellFormed) {data : Bytes} {index : Nat}
    (hu : r.Unseen data index) (hc : Carries ok data index) (eof : Bool) :
    Faithful ok taken (r.store data index eof) := by
  unfold StreamReassembler.store
  split
  · exact h
  · rename_i r' d hm
    obtain ⟨hs, hd⟩ := make_room_shrunk hm
    exact ((h.shrink hs).put (hc.cut hd) eof).drain
      ((hwf.shrink hs).toLaid.put (hu.shrink hs hd) eof)

/-- A call with genuine data leaves genuine bytes only, in the store and in the
output, whatever it evicts. -/
theorem Faithful.push (h : Faithful ok taken r) (hwf : r.WellFormed) {data : Bytes} {index : Nat}
    (hlt : index + data.length < 2 ^ 64) (hc : Carries ok data index) (eof : Bool) :
    Faithful ok taken (r.pushSubstring data index eof) :=
  (push_preserves (Q := Faithful ok taken) (A := fun d i _ => Carries ok d i)
    (fun ha hw _ => ha.within hw) (fun _ _ _ e hwf h hc hu _ => h.store hwf hu hc e)
    hwf h hlt hc).2

/-- The bytes a read returns move from the buffer to the reader. -/
theorem Faithful.read_out (h : Faithful ok taken r) (len : Nat) :
    Faithful ok (taken ++ r.output.peekOutput len) (r.readOut len) := by
  refine ⟨h.stored, ?_, ?_⟩
  · have := h.count
    simp only [readOut, ByteStream.bytesRead, ByteStream.popOutput, ByteStream.peekOutput,
      List.length_append, List.length_take] at *
    omega
  · rw [List.append_assoc]
    exact (ByteStream.peek_append_pop r.output len).symm ▸ h.output

/-- What a call leaves alone or only moves forward in the output. -/
structure Onward (s s' : ByteStream) : Prop where
  written : s.written ≤ s'.written
  ended : s.inputEnd = true → s'.inputEnd = true
  read : s'.read = s.read
  capacity : s'.capacity = s.capacity
  error : s'.error = s.error

theorem Onward.refl (s : ByteStream) : Onward s s := ⟨Nat.le_refl _, id, rfl, rfl, rfl⟩

theorem Onward.trans {s₁ s₂ s₃ : ByteStream} (h : Onward s₁ s₂) (h' : Onward s₂ s₃) :
    Onward s₁ s₃ :=
  ⟨Nat.le_trans h.written h'.written, fun he => h'.ended (h.ended he), h'.read.trans h.read,
    h'.capacity.trans h.capacity, h'.error.trans h.error⟩

section Output

variable {Q : ByteStream → Prop} (write : ∀ s data, Q s → Q (s.write data))
  (endInput : ∀ s, Q s → Q s.endInput)
include write endInput

theorem drain_output_preserves (h : Q r.output) : Q r.drain.output := by
  fun_induction drain r with
  | case1 r hf => exact h
  | case2 r seg hf h0 => exact h
  | case3 r seg hf h0 hge ih =>
    refine ih ?_
    simp only [writeWhole]
    split
    · exact endInput _ (write _ _ h)
    · exact write _ _ h
  | case4 r seg hf h0 hlt ih => exact ih (write _ _ h)

/-- The rule for the output: whatever is pushed, wherever it claims to stand, bytes
are written to it and its input is ended, and nothing else. -/
theorem push_output_preserves (h : Q r.output) (data : Bytes) (index : Nat) (eof : Bool) :
    Q (r.pushSubstring data index eof).output := by
  fun_induction pushSubstring r data index eof with
  | case1 r data index eof hge => exact h
  | case2 r data index eof hlt hs => exact h
  | case3 r data index eof hlt d ib hs hd => exact h
  | case4 r data index eof hlt d ib hs d' i e hd =>
    unfold store
    split
    · exact h
    · rename_i r' d'' hm
      exact drain_output_preserves write endInput ((make_room_shrunk hm).1.output ▸ h)
  | case5 r data index eof hlt d ib hs d₁ i₁ e₁ d₂ i₂ e₂ hd ih₂ ih₁ => exact ih₁ (ih₂ h)

end Output

theorem push_onward (r : StreamReassembler) (data : Bytes) (index : Nat) (eof : Bool) :
    Onward r.output (r.pushSubstring data index eof).output :=
  push_output_preserves
    (fun _ _ h => h.trans ⟨Nat.le_add_right _ _, id, rfl, rfl, rfl⟩)
    (fun _ h => h.trans ⟨Nat.le_refl _, fun _ => rfl, rfl, rfl, rfl⟩) (.refl _) data index eof

theorem push_counted (h : r.output.Counted) (data : Bytes) (index : Nat) (eof : Bool) :
    (r.pushSubstring data index eof).output.Counted :=
  push_output_preserves (fun _ data h => h.write data) (fun _ h => ⟨h.counted, h.bounded⟩) h
    data index eof

end StreamReassembler

end Sponge
