import Sponge.ByteStream
import Sponge.Lib.OrdMap
import Sponge.Lib.Word
import Mathlib.Order.RelClasses
import Mathlib.Order.Basic
import Mathlib.Algebra.Order.Group.Nat

namespace Sponge

/-- A stored `StreamReassembler::Segment`. -/
structure Segment where
  eof : Bool := false
  data : Bytes := []
  index : Nat := 0
  deriving DecidableEq, Repr

/-- The map `std::map<size_t, Segment, std::greater<size_t>>`: the highest index first. -/
abbrev SegmentMap := OrdMap Nat Segment (· > ·)

/-- Stream positions are natural numbers; the sums and differences of the
source that can leave 64 bits are written with `Word64`. -/
structure StreamReassembler where
  output : ByteStream
  capacity : Nat
  substrs : SegmentMap := .empty
  substrsSize : Nat := 0

namespace StreamReassembler

open Word64

def new (capacity : Nat) : StreamReassembler :=
  { output := .new capacity, capacity }

def unassembledBytes (r : StreamReassembler) : Nat := r.substrsSize

def empty (r : StreamReassembler) : Bool := r.substrs.entries.length = 0

def emptySize (r : StreamReassembler) : Nat :=
  if r.capacity ≥ add r.substrsSize r.output.bufferSize then
    sub (sub r.capacity r.substrsSize) r.output.bufferSize
  else 0

/-- The first index `push_substring` refuses: `bytes_written() +
remaining_capacity()`, computed in 64 bits. -/
def windowEnd (r : StreamReassembler) : Nat :=
  add r.output.bytesWritten r.output.remainingCapacity

/-- What the loop over the stored segments makes of the new data. -/
inductive Dedup where
  /-- Everything is stored already: `push_substring` returns. -/
  | covered
  /-- The loop ran to its end (or broke off on empty data). -/
  | fresh (data : Bytes) (index : Nat) (eof : Bool)
  /-- A stored segment lies strictly inside: the part before it and the part
  after it are pushed one after the other. -/
  | split (data : Bytes) (index : Nat) (eof : Bool) (data' : Bytes) (index' : Nat) (eof' : Bool)
  deriving DecidableEq, Repr

/-- The de-duplication loop over `_substrs`; `eof` is the argument of the call,
the other arguments are the loop's variables `data_no_dup`, `index_begin`,
`index_end` and `eof_no_dup`. -/
def dedup (eof : Bool) : List (Nat × Segment) → Bytes → Nat → Nat → Bool → Dedup
  | [], data, indexBegin, _, eofNoDup => .fresh data indexBegin eofNoDup
  | (_, curr) :: rest, data, indexBegin, indexEnd, eofNoDup =>
    if data.length = 0 ∧ eof = false then .covered
    else if data.length = 0 ∧ eof = true then .fresh data indexBegin eofNoDup
    else
      let currBegin := curr.index
      let currEnd := sub (add curr.data.length currBegin) 1
      if indexEnd < currBegin ∨ currEnd < indexBegin then
        dedup eof rest data indexBegin indexEnd eofNoDup
      else if currBegin ≤ indexBegin ∧ currEnd ≥ indexEnd then .covered
      else if currBegin ≤ indexBegin ∧ currEnd < indexEnd then
        dedup eof rest (data.drop (currEnd - indexBegin + 1)) (currEnd + 1) indexEnd eofNoDup
      else if currBegin > indexBegin ∧ indexEnd ≤ currEnd then
        dedup eof rest (data.take (currBegin - 1 - indexBegin + 1)) indexBegin (currBegin - 1) false
      else
        .split (data.take (currBegin - indexBegin)) indexBegin false
          (data.drop (currEnd - indexBegin + 1)) (currEnd + 1) eofNoDup

/-- The part of the data that is not written yet and where it starts; `none`
when all of it is. -/
def skipWritten (r : StreamReassembler) (data : Bytes) (index : Nat) : Option (Bytes × Nat) :=
  if r.output.bytesWritten > index then
    if r.output.bytesWritten - index ≥ data.length then none
    else some (data.drop (r.output.bytesWritten - index), r.output.bytesWritten)
  else some (data, index)

theorem skip_written_length {r : StreamReassembler} {data d : Bytes} {index i : Nat}
    (h : r.skipWritten data index = some (d, i)) : d.length ≤ data.length := by
  unfold skipWritten at h
  split at h
  · split at h
    · cases h
    · cases h
      simp
  · cases h
    exact Nat.le_refl _

/-- Cut the highest segment, `top`, so that `size` new bytes fit. The counter gives up
the whole of `size`, not what was cut. -/
def trimFront (r : StreamReassembler) (key : Nat) (top : Segment) (size : Nat) : StreamReassembler :=
  { r with
    substrs := r.substrs.insert key
      { top with data := top.data.take (sub (add top.data.length r.emptySize) size) }
    substrsSize := sub r.substrsSize size }

/-- Erase the highest segment. -/
def dropFront (r : StreamReassembler) (top : Segment) : StreamReassembler :=
  { r with
    substrs := r.substrs.popFront
    substrsSize := sub r.substrsSize top.data.length }

/-- Bytes and entries stored: what each turn of the eviction loop reduces. -/
def weight (r : StreamReassembler) : Nat := r.substrs.total (fun e => e.2.data.length + 1)

theorem trim_length_lt {S E D : Nat} (hlt : E < D) (hgt : add S E > D) : sub (add S E) D < S := by
  have := add_lt S E
  rw [sub_of_le (by omega) this]
  unfold add at *
  omega

theorem trim_front_weight {r : StreamReassembler} {key : Nat} {top : Segment}
    {rest : List (Nat × Segment)} {size : Nat} (he : r.substrs.entries = (key, top) :: rest)
    (hlt : r.emptySize < size) (hgt : add top.data.length r.emptySize > size) :
    (r.trimFront key top size).weight < r.weight := by
  have := trim_length_lt hlt hgt
  simp only [weight, trimFront, OrdMap.total, OrdMap.entries_insert_front he, he, List.map_cons,
    List.sum_cons, List.length_take]
  omega

theorem drop_front_weight {r : StreamReassembler} {key : Nat} {top : Segment}
    {rest : List (Nat × Segment)} (he : r.substrs.entries = (key, top) :: rest) :
    (r.dropFront top).weight < r.weight := by
  simp only [weight, dropFront, OrdMap.total_pop_front _ he]
  omega

/-- The loop that pops the segments of highest index until the data fits. -/
def evictLoop (r : StreamReassembler) (data : Bytes) (indexBegin : Nat) :
    StreamReassembler × Bytes :=
  if _hlt : r.emptySize < data.length then
    match _he : r.substrs.entries with
    | [] => (r, data.take r.emptySize)
    | (key, top) :: _ =>
      if top.index < indexBegin then (r, data.take r.emptySize)
      else if _hgt : add top.data.length r.emptySize > data.length then
        evictLoop (r.trimFront key top data.length) data indexBegin
      else evictLoop (r.dropFront top) data indexBegin
  else (r, data)
termination_by r.weight
decreasing_by
  · exact trim_front_weight _he _hlt _hgt
  · exact drop_front_weight _he

/-- Step two of `push_substring`: make room for the data. `none` is its early
return. -/
def makeRoom (r : StreamReassembler) (data : Bytes) (indexBegin : Nat) :
    Option (StreamReassembler × Bytes) :=
  if data.length > r.emptySize then
    match r.substrs.entries with
    | [] => some (r, data.take r.emptySize)
    | (key, top) :: _ =>
      if top.index < indexBegin then none
      else if add top.data.length r.emptySize > data.length then
        some (r.trimFront key { top with eof := false } data.length, data)
      else some (evictLoop (r.dropFront top) data indexBegin)
  else some (r, data)

/-- The assignment `_substrs[index] = Segment(eof, data, index)`, counted. -/
def put (r : StreamReassembler) (data : Bytes) (index : Nat) (eof : Bool) : StreamReassembler :=
  { r with
    substrs := r.substrs.insert index ⟨eof, data, index⟩
    substrsSize := add r.substrsSize data.length }

/-- Write out the whole of the segment found at the write position. -/
def writeWhole (r : StreamReassembler) (seg : Segment) : StreamReassembler :=
  { r with
    output := if seg.eof then (r.output.write seg.data).endInput else r.output.write seg.data
    substrs := r.substrs.erase r.output.bytesWritten
    substrsSize := sub r.substrsSize seg.data.length }

/-- Write out as much of the segment as the stream takes and store the rest. -/
def writePart (r : StreamReassembler) (seg : Segment) : StreamReassembler :=
  let sizeWrite := r.output.remainingCapacity
  { r with
    output := r.output.write (seg.data.take sizeWrite)
    substrs := (r.substrs.erase r.output.bytesWritten).insert (seg.index + sizeWrite)
      { seg with index := seg.index + sizeWrite, data := seg.data.drop sizeWrite }
    substrsSize := sub r.substrsSize sizeWrite }

theorem write_whole_measure {r : StreamReassembler} {seg : Segment}
    (hf : r.substrs.find? r.output.bytesWritten = some seg) :
    (r.writeWhole seg).output.remainingCapacity + (r.writeWhole seg).substrs.entries.length <
      r.output.remainingCapacity + r.substrs.entries.length := by
  have hl := OrdMap.length_erase (OrdMap.mem_of_find? hf)
  have hr : (r.writeWhole seg).output.remainingCapacity ≤ r.output.remainingCapacity := by
    unfold writeWhole ByteStream.remainingCapacity
    split <;> simp [ByteStream.write] <;> omega
  simp only [writeWhole] at hr ⊢
  omega

theorem write_part_measure {r : StreamReassembler} {seg : Segment}
    (hf : r.substrs.find? r.output.bytesWritten = some seg)
    (h0 : r.output.remainingCapacity ≠ 0) (hlt : ¬ r.output.remainingCapacity ≥ seg.data.length) :
    (r.writePart seg).output.remainingCapacity + (r.writePart seg).substrs.entries.length <
      r.output.remainingCapacity + r.substrs.entries.length := by
  have hl := OrdMap.length_erase (OrdMap.mem_of_find? hf)
  have hi := OrdMap.length_insert_le (r.substrs.erase r.output.bytesWritten)
    (seg.index + r.output.remainingCapacity)
    { seg with index := seg.index + r.output.remainingCapacity,
               data := seg.data.drop r.output.remainingCapacity }
  have hr : (r.writePart seg).output.remainingCapacity = 0 := by
    have hw : (seg.data.take r.output.remainingCapacity).length ≤ r.output.remainingCapacity := by
      simp
    simp only [writePart, ByteStream.write_all hw]
    simp only [ByteStream.remainingCapacity, List.length_append, List.length_take] at *
    omega
  simp only [writePart] at hr ⊢
  omega

/-- Step three of `push_substring`: write out what has become contiguous. -/
def drain (r : StreamReassembler) : StreamReassembler :=
  match _hf : r.substrs.find? r.output.bytesWritten with
  | none => r
  | some seg =>
    if _h0 : r.output.remainingCapacity = 0 then r
    else if _hge : r.output.remainingCapacity ≥ seg.data.length then drain (r.writeWhole seg)
    else drain (r.writePart seg)
termination_by r.output.remainingCapacity + r.substrs.entries.length
decreasing_by
  · exact write_whole_measure _hf
  · exact write_part_measure _hf _h0 _hge

/-- The rest of a call once the data is known to be new: make room, store,
write out. -/
def store (r : StreamReassembler) (data : Bytes) (index : Nat) (eof : Bool) : StreamReassembler :=
  match r.makeRoom data index with
  | none => r
  | some (r', data') => (r'.put data' index eof).drain

/-- The loop keeps `index_end` the last position of the data it carries, so
both parts of a split are shorter than the data that was split. -/
theorem dedup_split_length {eof : Bool} {es : List (Nat × Segment)} {data : Bytes} {ib ie : Nat}
    {e : Bool} {d₁ d₂ : Bytes} {i₁ i₂ : Nat} {e₁ e₂ : Bool}
    (hie : data.length ≠ 0 → ie = sub (add ib data.length) 1)
    (h : dedup eof es data ib ie e = .split d₁ i₁ e₁ d₂ i₂ e₂) :
    d₁.length < data.length ∧ d₂.length < data.length := by
  induction es generalizing data ib ie e with
  | nil => simp [dedup] at h
  | cons p rest ih =>
    obtain ⟨k, curr⟩ := p
    simp only [dedup] at h
    split at h
    · cases h
    split at h
    · cases h
    rename_i h1 h2
    have hpos : data.length ≠ 0 := by
      intro h0
      cases eof <;> simp_all
    have hle := sub_add_one_le ib data.length (by omega)
    have hieq := hie hpos
    have hlt : ie < 2 ^ 64 := hieq ▸ sub_lt _ _
    generalize sub (add curr.data.length curr.index) 1 = ce at h
    split at h
    · exact ih (fun _ => hieq) h
    split at h
    · cases h
    split at h
    · -- the cut keeps the end of the data where it was
      have hend : (data.drop (ce - ib + 1)).length ≠ 0 →
          ie = sub (add (ce + 1) (data.drop (ce - ib + 1)).length) 1 := by
        intro hn
        simp only [List.length_drop] at hn ⊢
        rw [hieq]
        unfold sub add
        omega
      have := ih hend h
      simp only [List.length_drop] at this
      omega
    split at h
    · have hend : (data.take (curr.index - 1 - ib + 1)).length ≠ 0 →
          curr.index - 1 = sub (add ib (data.take (curr.index - 1 - ib + 1)).length) 1 := by
        intro hn
        simp only [List.length_take] at hn ⊢
        unfold sub add
        omega
      have := ih hend h
      simp only [List.length_take] at this
      omega
    · simp only [Dedup.split.injEq] at h
      obtain ⟨rfl, -, -, rfl, -, -⟩ := h
      simp only [List.length_take, List.length_drop]
      omega

/-- Receive a substring and write any newly contiguous bytes into the stream. -/
def pushSubstring (r : StreamReassembler) (data : Bytes) (index : Nat) (eof : Bool) :
    StreamReassembler :=
  if index ≥ r.windowEnd then r
  else
    match _hs : r.skipWritten data index with
    | none => r
    | some (data', indexBegin) =>
      match _hd : dedup eof r.substrs.entries data' indexBegin
          (sub (add indexBegin data'.length) 1) eof with
      | .covered => r
      | .fresh d i e => r.store d i e
      | .split d₁ i₁ e₁ d₂ i₂ e₂ => (r.pushSubstring d₁ i₁ e₁).pushSubstring d₂ i₂ e₂
termination_by data.length
decreasing_by
  all_goals
    have hlt := dedup_split_length (fun _ => rfl) _hd
    have hle := skip_written_length _hs
    omega

end StreamReassembler

end Sponge
