import Sponge.Reassembler.Content
import Sponge.Lib.Run

namespace Sponge

/-- What is done with a reassembler: a substring is pushed, or its output is
read. -/
inductive Use where
  | push (data : Bytes) (index : Nat) (eof : Bool)
  | read (len : Nat)
  deriving DecidableEq, Repr

/-- The numbers of a call are values of `size_t`. -/
def Use.SizeT : Use → Prop
  | .push data index _ => data.length < 2 ^ 64 ∧ index < 2 ^ 64
  | .read len => len < 2 ^ 64

instance : (u : Use) → Decidable u.SizeT
  | .push _ _ _ => inferInstanceAs (Decidable (_ ∧ _))
  | .read _ => inferInstanceAs (Decidable (_ < _))

/-- A reassembler in use, and the bytes its reader has taken so far. -/
structure Session where
  reassembler : StreamReassembler
  taken : Bytes := []

namespace Session

open StreamReassembler

def new (capacity : Nat) : Session := { reassembler := .new capacity }

def step (x : Session) : Use → Session
  | .push data index eof => { x with reassembler := x.reassembler.pushSubstring data index eof }
  | .read len =>
    { reassembler := x.reassembler.readOut len
      taken := x.taken ++ x.reassembler.output.peekOutput len }

/-- The session after a list of uses of a new reassembler. -/
def after (capacity : Nat) (us : List Use) : Session := Run.final step (new capacity) us

/-- A condition on the pushes alone, given the reassembler they meet. -/
def OnPush (P : StreamReassembler → Bytes → Nat → Bool → Prop) (x : Session) : Use → Prop
  | .push data index eof => P x.reassembler data index eof
  | .read _ => True

instance {P : StreamReassembler → Bytes → Nat → Bool → Prop} [∀ r d i e, Decidable (P r d i e)]
    (x : Session) : (u : Use) → Decidable (OnPush P x u)
  | .push data index eof => inferInstanceAs (Decidable (P x.reassembler data index eof))
  | .read _ => .isTrue trivial

/-- What holds of every session, whatever was pushed. -/
structure Sound (capacity : Nat) (x : Session) : Prop where
  wf : x.reassembler.WellFormed
  limit : x.reassembler.capacity = capacity
  stream : x.reassembler.output.capacity = capacity

theorem new_sound (capacity : Nat) : (new capacity).Sound capacity :=
  ⟨new_well_formed capacity, rfl, rfl⟩

end Session

namespace StreamReassembler

variable {r : StreamReassembler} {data : Bytes} {index : Nat}

theorem new_window_end (capacity : Nat) : (new capacity).windowEnd = capacity % 2 ^ 64 := by
  simp [windowEnd, Word64.add, new, ByteStream.new, ByteStream.bytesWritten,
    ByteStream.remainingCapacity]

theorem new_empty_size (capacity : Nat) : (new capacity).emptySize = capacity % 2 ^ 64 := by
  simp [emptySize, Word64.add, Word64.sub, new, ByteStream.new, ByteStream.bufferSize]

theorem drain_capacity (hl : r.Laid) : r.drain.capacity = r.capacity :=
  (drain_preserves (Q := fun r' => r'.capacity = r.capacity) hl rfl (fun _ _ _ h _ _ => h)
    (fun _ _ _ h _ _ _ => h)).2

theorem push_capacity (hwf : r.WellFormed) (hlt : index + data.length < 2 ^ 64) (eof : Bool) :
    (r.pushSubstring data index eof).capacity = r.capacity := by
  refine (push_preserves (Q := fun r' => r'.capacity = r.capacity) (A := fun _ _ _ => True)
    (fun _ _ _ => trivial) ?_ hwf rfl hlt trivial).2
  intro r' d i e hwf h _ hu _
  unfold store
  split
  · exact h
  · rename_i r'' d' hm
    obtain ⟨hs, hd⟩ := make_room_shrunk hm
    exact (drain_capacity ((hwf.shrink hs).toLaid.put (hu.shrink hs hd) e)).trans
      (hs.capacity.trans h)

end StreamReassembler

namespace Session

open StreamReassembler

/-- The piece lies beyond the window, or its end is a stream position. -/
def InRange (r : StreamReassembler) (data : Bytes) (index : Nat) (_ : Bool) : Prop :=
  r.windowEnd ≤ index ∨ index + data.length < 2 ^ 64

theorem Sound.step {capacity : Nat} {x : Session} {u : Use} (h : x.Sound capacity)
    (hu : OnPush InRange x u) : (x.step u).Sound capacity := by
  cases u with
  | push data index eof =>
    rcases hu with hge | hlt
    · rwa [Session.step, push_beyond hge]
    · exact ⟨h.wf.push hlt eof, (push_capacity h.wf hlt eof).trans h.limit,
        (push_onward _ data index eof).capacity.trans h.stream⟩
  | read len => exact ⟨h.wf.read_out len, h.limit, h.stream⟩

end Session

/-- The stream `s` has byte `b` at position `i`. -/
def byteOf (s : Bytes) (i : Nat) (b : UInt8) : Prop := s[i]? = some b

/-- A push of `s[index .. index + size)` at `index`, or a read. -/
def Use.PieceOf (s : Bytes) : Use → Prop
  | .push data index _ => index + data.length ≤ s.length ∧ (s.drop index).take data.length = data
  | .read _ => True

instance (s : Bytes) : (u : Use) → Decidable (u.PieceOf s)
  | .push _ _ _ => inferInstanceAs (Decidable (_ ∧ _))
  | .read _ => .isTrue trivial

theorem Use.PieceOf.carries {s data : Bytes} {index : Nat} {eof : Bool}
    (h : (Use.push data index eof).PieceOf s) : Carries (byteOf s) data index := by
  intro t b hb
  have ht := (List.getElem?_eq_some_iff.mp hb).1
  rw [← h.2, List.getElem?_take_of_lt ht, List.getElem?_drop] at hb
  exact hb

namespace Session

open StreamReassembler

/-- What holds of every session with one stream's pieces. -/
structure Genuine (s : Bytes) (capacity : Nat) (x : Session) : Prop extends
    Sound capacity x where
  faithful : Faithful (byteOf s) x.taken x.reassembler

theorem Genuine.step {s : Bytes} {capacity : Nat} {x : Session} {u : Use}
    (h : x.Genuine s capacity) (hs : s.length < 2 ^ 64) (hu : u.PieceOf s) :
    (x.step u).Genuine s capacity := by
  cases u with
  | push data index eof =>
    have hlt : index + data.length < 2 ^ 64 := Nat.lt_of_le_of_lt hu.1 hs
    exact ⟨h.toSound.step (u := .push data index eof) (.inr hlt),
      h.faithful.push h.wf hlt hu.carries eof⟩
  | read len =>
    exact ⟨h.toSound.step (u := .read len) trivial, h.faithful.read_out len⟩

theorem genuine_after {s : Bytes} (capacity : Nat) (hs : s.length < 2 ^ 64) {us : List Use}
    (hu : ∀ u ∈ us, u.PieceOf s) : (after capacity us).Genuine s capacity :=
  Run.invariant_of_mem ⟨new_sound capacity, new_faithful _ capacity⟩
    (fun _ u hm h => h.step hs (hu u hm))

end Session

end Sponge
