import Sponge.Lib.Fuel
import Sponge.Reassembler.Model
import Sponge.Wire.Parser

namespace Sponge

/-- `std::string::substr`; without a length, up to the end. It throws if the part would start
behind the end. -/
def substr (s : Bytes) (pos : Nat) (len : Option Nat := none) : Fuelled Fault Bytes :=
  if pos > s.length then throw .outOfRange else pure ((s.drop pos).take (len.getD s.length))

theorem substr_from {s : Bytes} {pos : Nat} (h : pos ≤ s.length) :
    substr s pos = pure (s.drop pos) := by
  rw [substr, if_neg (Nat.not_lt.mpr h), Option.getD_none, List.take_of_length_le (by simp)]

theorem substr_front (s : Bytes) (len : Nat) : substr s 0 (some len) = pure (s.take len) := by
  rw [substr, if_neg (Nat.not_lt_zero _)]
  rfl

namespace StreamReassembler

open Word64 Fuelled

/-! The code of `push_substring` once more, in which `substr` may throw, every difference is
taken in 64 bits, and the loops and the recursion go on only while there is fuel. -/

def dedupChecked (eof : Bool) :
    List (Nat × Segment) → Bytes → Nat → Nat → Bool → Fuelled Fault Dedup
  | [], data, indexBegin, _, eofNoDup => pure (.fresh data indexBegin eofNoDup)
  | (_, curr) :: rest, data, indexBegin, indexEnd, eofNoDup =>
    if data.length = 0 ∧ eof = false then pure .covered
    else if data.length = 0 ∧ eof = true then pure (.fresh data indexBegin eofNoDup)
    else
      let currBegin := curr.index
      let currEnd := sub (add curr.data.length currBegin) 1
      if indexEnd < currBegin ∨ currEnd < indexBegin then
        dedupChecked eof rest data indexBegin indexEnd eofNoDup
      else if currBegin ≤ indexBegin ∧ currEnd ≥ indexEnd then pure .covered
      else if currBegin ≤ indexBegin ∧ currEnd < indexEnd then do
        let data ← substr data (add (sub currEnd indexBegin) 1)
        dedupChecked eof rest data (add currEnd 1) indexEnd eofNoDup
      else if currBegin > indexBegin ∧ indexEnd ≤ currEnd then do
        let indexEnd := sub currBegin 1
        let data ← substr data 0 (some (add (sub indexEnd indexBegin) 1))
        dedupChecked eof rest data indexBegin indexEnd false
      else do
        let data' ← substr data (add (sub currEnd indexBegin) 1)
        let data ← substr data 0 (some (sub currBegin indexBegin))
        pure (.split data indexBegin false data' (add currEnd 1) eofNoDup)

def skipWrittenChecked (r : StreamReassembler) (data : Bytes) (index : Nat) :
    Fuelled Fault (Option (Bytes × Nat)) :=
  if r.output.bytesWritten > index then
    let startIndex := r.output.bytesWritten - index
    if startIndex ≥ data.length then pure none
    else do
      let data ← substr data startIndex
      pure (some (data, r.output.bytesWritten))
  else pure (some (data, index))

def trimFrontChecked (r : StreamReassembler) (key : Nat) (top : Segment) (size : Nat) :
    Fuelled Fault StreamReassembler := do
  let data ← substr top.data 0 (some (sub (add top.data.length r.emptySize) size))
  pure { r with
    substrs := r.substrs.insert key { top with data }
    substrsSize := sub r.substrsSize size }

def evictLoopChecked : Nat → StreamReassembler → Bytes → Nat →
    Fuelled Fault (StreamReassembler × Bytes)
  | 0, _, _, _ => outOfFuel
  | fuel + 1, r, data, indexBegin =>
    if r.emptySize < data.length then
      match r.substrs.entries with
      | [] => do
        let data ← substr data 0 (some r.emptySize)
        pure (r, data)
      | (key, top) :: _ =>
        if top.index < indexBegin then do
          let data ← substr data 0 (some r.emptySize)
          pure (r, data)
        else if add top.data.length r.emptySize > data.length then do
          let r ← r.trimFrontChecked key top data.length
          evictLoopChecked fuel r data indexBegin
        else evictLoopChecked fuel (r.dropFront top) data indexBegin
    else pure (r, data)

def makeRoomChecked (fuel : Nat) (r : StreamReassembler) (data : Bytes) (indexBegin : Nat) :
    Fuelled Fault (Option (StreamReassembler × Bytes)) :=
  if data.length > r.emptySize then
    match r.substrs.entries with
    | [] => do
      let data ← substr data 0 (some r.emptySize)
      pure (some (r, data))
    | (key, top) :: _ =>
      if top.index < indexBegin then pure none
      else if add top.data.length r.emptySize > data.length then do
        let r ← r.trimFrontChecked key { top with eof := false } data.length
        pure (some (r, data))
      else some <$> evictLoopChecked fuel (r.dropFront top) data indexBegin
  else pure (some (r, data))

def writePartChecked (r : StreamReassembler) (seg : Segment) :
    Fuelled Fault StreamReassembler := do
  let sizeWrite := r.output.remainingCapacity
  let written ← substr seg.data 0 (some sizeWrite)
  let data ← substr seg.data sizeWrite
  pure { r with
    output := r.output.write written
    substrs := (r.substrs.erase r.output.bytesWritten).insert (seg.index + sizeWrite)
      { seg with index := seg.index + sizeWrite, data }
    substrsSize := sub r.substrsSize sizeWrite }

def drainChecked : Nat → StreamReassembler → Fuelled Fault StreamReassembler
  | 0, _ => outOfFuel
  | fuel + 1, r =>
    match r.substrs.find? r.output.bytesWritten with
    | none => pure r
    | some seg =>
      if r.output.remainingCapacity = 0 then pure r
      else if r.output.remainingCapacity ≥ seg.data.length then
        drainChecked fuel (r.writeWhole seg)
      else do
        let r ← r.writePartChecked seg
        drainChecked fuel r

def storeChecked (fuel : Nat) (r : StreamReassembler) (data : Bytes) (index : Nat) (eof : Bool) :
    Fuelled Fault StreamReassembler := do
  match ← r.makeRoomChecked fuel data index with
  | none => pure r
  | some (r', data') => drainChecked fuel (r'.put data' index eof)

def pushSubstringChecked : Nat → StreamReassembler → Bytes → Nat → Bool →
    Fuelled Fault StreamReassembler
  | 0, _, _, _, _ => outOfFuel
  | fuel + 1, r, data, index, eof =>
    if index ≥ r.windowEnd then pure r
    else do
      match ← r.skipWrittenChecked data index with
      | none => pure r
      | some (data', indexBegin) =>
        match ← dedupChecked eof r.substrs.entries data' indexBegin
            (sub (add indexBegin data'.length) 1) eof with
        | .covered => pure r
        | .fresh d i e => r.storeChecked fuel d i e
        | .split d₁ i₁ e₁ d₂ i₂ e₂ => do
          let r ← pushSubstringChecked fuel r d₁ i₁ e₁
          pushSubstringChecked fuel r d₂ i₂ e₂

section Returns

variable {r : StreamReassembler}

/-- The parts of a split, if there is one, end before `n`. -/
def EndsBefore (n : Nat) : Dedup → Prop
  | .split d₁ i₁ _ d₂ i₂ _ => i₁ + d₁.length < n ∧ i₂ + d₂.length < n
  | .covered | .fresh .. => True

/-- The loop keeps `index_end` the last position of the data, so that no part of it starts
behind its end. -/
theorem dedup_checked {eof : Bool} {es : List (Nat × Segment)} {data : Bytes} {ib ie n : Nat}
    {e : Bool} (hie : data.length ≠ 0 → ie + 1 = ib + data.length) (hb : ib + data.length < n)
    (hn : n ≤ 2 ^ 64) :
    dedupChecked eof es data ib ie e = pure (dedup eof es data ib ie e) ∧
      EndsBefore n (dedup eof es data ib ie e) := by
  induction es generalizing data ib ie e with
  | nil => exact ⟨rfl, trivial⟩
  | cons p rest ih =>
    obtain ⟨k, curr⟩ := p
    simp only [dedupChecked, dedup]
    split
    · exact ⟨rfl, trivial⟩
    split
    · exact ⟨rfl, trivial⟩
    rename_i h1 h2
    have hpos : data.length ≠ 0 := by
      intro h0
      cases eof <;> simp_all
    have hend := hie hpos
    have hce : sub (add curr.data.length curr.index) 1 < 2 ^ 64 := sub_lt _ _
    generalize sub (add curr.data.length curr.index) 1 = ce at hce ⊢
    split
    · exact ih hie hb
    split
    · exact ⟨rfl, trivial⟩
    rename_i hover hcov
    have hin : ib ≤ ce ∧ curr.index ≤ ie := by omega
    -- where the data goes on behind the stored piece, if it does
    have hcut : ce < ie → add (sub ce ib) 1 = ce - ib + 1 ∧ add ce 1 = ce + 1 := by
      intro hlt
      rw [sub_of_le hin.1 hce]
      exact ⟨add_of_lt (by omega), add_of_lt (by omega)⟩
    split
    · rename_i hleft
      obtain ⟨hstart, hrest⟩ := hcut hleft.2
      rw [hstart, hrest, substr_from (by omega), pure_bind]
      refine ih (fun hn => ?_) ?_
      · simp only [List.length_drop] at hn ⊢
        omega
      · simp only [List.length_drop]
        omega
    rename_i hleft
    split
    · rename_i hright
      have hlast : sub curr.index 1 = curr.index - 1 := sub_of_le (by omega) (by omega)
      have hlen : add (sub (curr.index - 1) ib) 1 = curr.index - 1 - ib + 1 := by
        rw [sub_of_le (by omega) (by omega), add_of_lt (by omega)]
      rw [hlast, hlen, substr_front, pure_bind]
      refine ih (fun hn => ?_) ?_
      · simp only [List.length_take] at hn ⊢
        omega
      · simp only [List.length_take]
        omega
    · rename_i hright
      obtain ⟨hstart, hrest⟩ := hcut (by omega)
      have hlen : sub curr.index ib = curr.index - ib := sub_of_le (by omega) (by omega)
      rw [hstart, hrest, hlen, substr_from (by omega), pure_bind, substr_front, pure_bind]
      refine ⟨rfl, ?_, ?_⟩
      · simp only [List.length_take]
        omega
      · simp only [List.length_drop]
        omega

theorem skip_written_checked (r : StreamReassembler) (data : Bytes) (index : Nat) :
    r.skipWrittenChecked data index = pure (r.skipWritten data index) := by
  unfold skipWrittenChecked skipWritten
  split
  · simp only
    split
    · rfl
    · rw [substr_from (by omega), pure_bind]
  · rfl

theorem skip_written_end {data d : Bytes} {index i : Nat}
    (h : r.skipWritten data index = some (d, i)) : i + d.length = index + data.length := by
  unfold skipWritten at h
  split at h
  · split at h
    · cases h
    · cases h
      simp only [List.length_drop]
      omega
  · cases h
    rfl

theorem trim_front_checked (r : StreamReassembler) (key : Nat) (top : Segment) (size : Nat) :
    r.trimFrontChecked key top size = pure (r.trimFront key top size) := by
  rw [trimFrontChecked, substr_front, pure_bind]
  rfl

theorem evict_loop_ends (r : StreamReassembler) (data : Bytes) (ib : Nat) :
    Ends (fun fuel => evictLoopChecked fuel r data ib) (r.evictLoop data ib) := by
  fun_induction evictLoop r data ib with
  | case1 r hlt he =>
    refine (ends_pure _).turn fun fuel => ?_
    rw [evictLoopChecked, if_pos hlt, he]
    simp only [substr_front, pure_bind]
  | case2 r hlt key top rest he hlow =>
    refine (ends_pure _).turn fun fuel => ?_
    rw [evictLoopChecked, if_pos hlt, he]
    simp only [if_pos hlow, substr_front, pure_bind]
  | case3 r hlt key top rest he hlow hgt ih =>
    refine ih.turn fun fuel => ?_
    rw [evictLoopChecked, if_pos hlt, he]
    simp only [if_neg hlow, if_pos hgt, trim_front_checked, pure_bind]
  | case4 r hlt key top rest he hlow hle ih =>
    refine ih.turn fun fuel => ?_
    rw [evictLoopChecked, if_pos hlt, he]
    simp only [if_neg hlow, if_neg hle]
  | case5 r hge =>
    refine (ends_pure _).turn fun fuel => ?_
    rw [evictLoopChecked, if_neg hge]

theorem make_room_ends (r : StreamReassembler) (data : Bytes) (ib : Nat) :
    Ends (fun fuel => r.makeRoomChecked fuel data ib) (r.makeRoom data ib) := by
  unfold makeRoomChecked makeRoom
  split
  · cases r.substrs.entries with
    | nil =>
      simp only [substr_front, pure_bind]
      exact ends_pure _
    | cons e rest =>
      obtain ⟨key, top⟩ := e
      simp only
      split
      · exact ends_pure _
      split
      · simp only [trim_front_checked, pure_bind]
        exact ends_pure _
      · simp only [map_eq_pure_bind]
        exact (evict_loop_ends _ _ _).bind (ends_pure _)
  · exact ends_pure _

theorem write_part_checked {seg : Segment} (h : r.output.remainingCapacity ≤ seg.data.length) :
    r.writePartChecked seg = pure (r.writePart seg) := by
  rw [writePartChecked]
  simp only [substr_front, substr_from h, pure_bind]
  rfl

theorem drain_ends (r : StreamReassembler) : Ends (fun fuel => drainChecked fuel r) r.drain := by
  fun_induction drain r with
  | case1 r hf =>
    refine (ends_pure _).turn fun fuel => ?_
    rw [drainChecked, hf]
  | case2 r seg hf h0 =>
    refine (ends_pure _).turn fun fuel => ?_
    rw [drainChecked, hf]
    simp only [if_pos h0]
  | case3 r seg hf h0 hge ih =>
    refine ih.turn fun fuel => ?_
    rw [drainChecked, hf]
    simp only [if_neg h0, if_pos hge]
  | case4 r seg hf h0 hlt ih =>
    refine ih.turn fun fuel => ?_
    rw [drainChecked, hf]
    simp only [if_neg h0, if_neg hlt]
    rw [write_part_checked (by omega), pure_bind]

theorem store_ends (r : StreamReassembler) (data : Bytes) (index : Nat) (eof : Bool) :
    Ends (fun fuel => r.storeChecked fuel data index eof) (r.store data index eof) := by
  unfold storeChecked store
  refine (r.make_room_ends data index).bind ?_
  cases r.makeRoom data index with
  | none => exact ends_pure _
  | some p => exact drain_ends _

/-- The loop as it is started. -/
theorem dedup_checked_whole (eof : Bool) {data data' : Bytes} {index ib : Nat}
    (hs : r.skipWritten data index = some (data', ib)) (h : index + data.length < 2 ^ 63) :
    dedupChecked eof r.substrs.entries data' ib (sub (add ib data'.length) 1) eof =
        pure (dedup eof r.substrs.entries data' ib (sub (add ib data'.length) 1) eof) ∧
      EndsBefore (2 ^ 63) (dedup eof r.substrs.entries data' ib
        (sub (add ib data'.length) 1) eof) := by
  have hend := skip_written_end hs
  refine dedup_checked (fun hpos => ?_) (by omega) (by decide)
  rw [last_eq (by omega) (by omega)]
  omega

/-- One turn, up to the point where it is known what of the data is new. -/
theorem push_substring_turn {data data' : Bytes} {index ib : Nat} (eof : Bool) (fuel : Nat)
    (hin : ¬index ≥ r.windowEnd) (hs : r.skipWritten data index = some (data', ib))
    (h : index + data.length < 2 ^ 63) :
    pushSubstringChecked (fuel + 1) r data index eof =
      match dedup eof r.substrs.entries data' ib (sub (add ib data'.length) 1) eof with
      | .covered => pure r
      | .fresh d i e => r.storeChecked fuel d i e
      | .split d₁ i₁ e₁ d₂ i₂ e₂ => pushSubstringChecked fuel r d₁ i₁ e₁ >>= fun r =>
        pushSubstringChecked fuel r d₂ i₂ e₂ := by
  rw [pushSubstringChecked, if_neg hin, skip_written_checked, hs, pure_bind]
  simp only
  rw [(dedup_checked_whole eof hs h).1, pure_bind]

end Returns

/-- Whatever the state, `push_substring` comes to its end, with no `substr` that starts behind
the end of its string, and does what the model says. -/
theorem push_substring_ends (r : StreamReassembler) (data : Bytes) (index : Nat) (eof : Bool)
    (h : index + data.length < 2 ^ 63) :
    ∃ bound, ∀ fuel, bound ≤ fuel →
      pushSubstringChecked fuel r data index eof = pure (r.pushSubstring data index eof) := by
  change Ends (fun fuel => pushSubstringChecked fuel r data index eof) _
  fun_induction pushSubstring r data index eof with
  | case1 r data index eof hout =>
    refine (ends_pure _).turn fun fuel => ?_
    rw [pushSubstringChecked, if_pos hout]
  | case2 r data index eof hin hs =>
    refine (ends_pure _).turn fun fuel => ?_
    rw [pushSubstringChecked, if_neg hin, skip_written_checked, hs]
    rfl
  | case3 r data index eof hin data' ib hs hd =>
    refine (ends_pure _).turn fun fuel => ?_
    rw [push_substring_turn eof fuel hin hs h, hd]
  | case4 r data index eof hin data' ib hs d i e hd =>
    refine (r.store_ends d i e).turn fun fuel => ?_
    rw [push_substring_turn eof fuel hin hs h, hd]
  | case5 r data index eof hin data' ib hs d₁ i₁ e₁ d₂ i₂ e₂ hd ih₁ ih₂ =>
    have hends := (dedup_checked_whole eof hs h).2
    rw [hd] at hends
    have hboth := (ih₁ hends.1).bind (g := fun fuel r => pushSubstringChecked fuel r d₂ i₂ e₂)
      (ih₂ hends.2)
    refine hboth.turn fun fuel => ?_
    rw [push_substring_turn eof fuel hin hs h, hd]

/-- A state whose counter has gone below zero; the data is split by what is stored. -/
theorem push_substring_ends_wrapped :
    let r : StreamReassembler :=
      { output := .new 8
        capacity := 8
        substrs := OrdMap.empty.insert 2 ⟨false, [1], 2⟩
        substrsSize := 2 ^ 64 - 1 }
    ∃ bound, ∀ fuel, bound ≤ fuel →
      pushSubstringChecked fuel r [4, 5, 6, 7] 1 true =
        pure (r.pushSubstring [4, 5, 6, 7] 1 true) :=
  push_substring_ends _ [4, 5, 6, 7] 1 true (by decide)

end StreamReassembler

end Sponge
