import Sponge.Lib.Pieces
import Sponge.Lib.RefHeap
import Sponge.Wire.Parser

namespace Sponge

/-- The strings that buffers share, with the number of `shared_ptr`s to each of them. -/
abbrev Storage := RefHeap Bytes

/-- A reference-counted string without the first of its bytes. -/
structure Buffer where
  storage : Option Nat := none
  startingOffset : Nat := 0
  deriving DecidableEq, Repr

namespace Buffer

/-- The string that the buffer is a part of, `*_storage`. -/
def whole (h : Storage) (b : Buffer) : Bytes := (b.storage.bind h.value?).getD []

def str (h : Storage) (b : Buffer) : Bytes :=
  if b.storage = none then [] else (b.whole h).drop b.startingOffset

/-- Another buffer is made from this one. -/
def copied (h : Storage) (b : Buffer) : Storage :=
  match b.storage with
  | none => h
  | some p => h.retain p

/-- The buffer is destroyed, or lets go of its storage. -/
def reset (h : Storage) (b : Buffer) : Storage :=
  match b.storage with
  | none => h
  | some p => h.release p

def removePrefix (h : Storage) (b : Buffer) (n : Nat) : Outcome Fault (Storage × Buffer) Unit :=
  if n > (b.str h).length then .fail (h, b) .outOfRange
  else
    let b := { b with startingOffset := b.startingOffset + n }
    if b.storage ≠ none ∧ b.startingOffset = (b.whole h).length then
      .done (b.reset h, { b with storage := none }) ()
    else .done (h, b) ()

end Buffer

/-- A `string_view`: a part of a string, or no string at all. -/
structure View where
  storage : Option Nat := none
  offset : Nat := 0
  length : Nat := 0
  deriving DecidableEq, Repr

namespace View

def str (h : Storage) (v : View) : Bytes :=
  (((v.storage.bind h.value?).getD []).drop v.offset).take v.length

/-- The view of what a buffer holds. -/
def ofBuffer (h : Storage) (b : Buffer) : View :=
  { storage := b.storage, offset := b.startingOffset, length := (b.str h).length }

def removePrefix (v : View) (n : Nat) : View :=
  { v with offset := v.offset + n, length := v.length - n }

end View

/-- The queue of buffers in a `BufferList`. -/
abbrev Buffers := List Buffer

namespace Buffers

/-- The strings in the list. -/
def contents (h : Storage) (buffers : Buffers) : BufferList := ⟨buffers.map (Buffer.str h)⟩

def removePrefix (h : Storage) (buffers : Buffers) (n : Nat) :
    Outcome Fault (Storage × Buffers) Unit :=
  Pieces.removeFront (fun h b => (b.str h).length) Buffer.removePrefix Buffer.reset .outOfRange
    h buffers n

end Buffers

/-- The queue of views in a `BufferViewList`. -/
abbrev Views := List View

namespace Views

def ofBuffers (h : Storage) (buffers : Buffers) : Views := buffers.map (View.ofBuffer h)

def size (views : Views) : Nat := (views.map View.length).sum

def contents (h : Storage) (views : Views) : BufferList := ⟨views.map (View.str h)⟩

def removePrefix (views : Views) (n : Nat) : Outcome Fault (Unit × Views) Unit :=
  Pieces.removeFront (fun _ v => v.length) (fun _ v n => .done ((), v.removePrefix n) ())
    (fun _ _ => ()) .outOfRange () views n

end Views

section Parts

variable {h h' : Storage} {b : Buffer} {v : View} {n : Nat}

/-- What the buffer refers to. -/
def Buffer.refs (b : Buffer) : List Nat := b.storage.toList

/-- The offset of the buffer is inside its string. -/
def Buffer.Fits (h : Storage) (b : Buffer) : Prop :=
  ∀ p ∈ b.storage, ∃ s, h.value? p = some s ∧ b.startingOffset ≤ s.length

/-- The part that is viewed is a part of the string. -/
def View.Fits (h : Storage) (v : View) : Prop :=
  match v.storage with
  | none => v.length = 0
  | some p => ∃ s, h.value? p = some s ∧ v.offset + v.length ≤ s.length

theorem Buffer.str_some {p : Nat} {s : Bytes} (hp : b.storage = some p) (hs : h.value? p = some s) :
    b.str h = s.drop b.startingOffset := by
  simp [str, whole, hp, hs]

theorem Buffer.str_none (hp : b.storage = none) : b.str h = [] := if_pos hp

/-- What a buffer holds is the same when the heap has changed. -/
theorem Buffer.Fits.extends (hf : b.Fits h) (he : h.Extends h') :
    b.Fits h' ∧ b.str h' = b.str h := by
  cases hp : b.storage with
  | none =>
    refine ⟨fun p hm => ?_, by rw [str_none hp, str_none hp]⟩
    rw [hp] at hm
    cases hm
  | some p =>
    obtain ⟨s, hs, hle⟩ := hf p hp
    refine ⟨fun q hq => ?_, by rw [str_some hp hs, str_some hp (he p s hs)]⟩
    rw [hp] at hq
    cases hq
    exact ⟨s, he p s hs, hle⟩

theorem View.Fits.extends (hf : v.Fits h) (he : h.Extends h') :
    v.Fits h' ∧ v.str h' = v.str h := by
  unfold Fits at hf ⊢
  cases hp : v.storage with
  | none =>
    rw [hp] at hf
    exact ⟨hf, by simp [str, hp]⟩
  | some p =>
    rw [hp] at hf
    obtain ⟨s, hs, hle⟩ := hf
    exact ⟨⟨s, he p s hs, hle⟩, by simp [str, hp, hs, he p s hs]⟩

theorem Buffer.extends_reset (h : Storage) (b : Buffer) : h.Extends (b.reset h) := by
  unfold reset
  split
  · exact .refl h
  · exact h.extends_release _

theorem Buffer.counted_reset {others : List Nat} (hc : h.Counted (b.refs ++ others)) :
    (b.reset h).Counted others := by
  unfold refs at hc
  unfold reset
  cases hp : b.storage with
  | none => simpa [hp] using hc
  | some p =>
    rw [hp] at hc
    exact hc.release

/-- A prefix that is not too long is taken off, and with the last byte goes the reference to the
string. -/
theorem Buffer.Fits.shorten (hf : b.Fits h) (hn : n ≤ (b.str h).length) :
    ∃ h' b', b.removePrefix h n = .done (h', b') () ∧ h.Extends h' ∧ b'.Fits h' ∧
      b'.str h' = (b.str h).drop n ∧
      ∀ others, h.Counted (b.refs ++ others) → h'.Counted (b'.refs ++ others) := by
  rw [Buffer.removePrefix, if_neg (Nat.not_lt.mpr hn)]
  simp only
  split
  · rename_i hend
    obtain ⟨p, hp⟩ := Option.ne_none_iff_exists'.mp hend.1
    obtain ⟨s, hs, hle⟩ := hf p hp
    refine ⟨_, _, rfl, ?_, ?_, ?_, ?_⟩
    · exact extends_reset h _
    · intro q hq
      cases hq
    · have hwhole : b.startingOffset + n = s.length := by simpa [whole, hp, hs] using hend.2
      rw [str_none rfl, str_some hp hs, List.drop_drop, hwhole, List.drop_length]
    · intro others hc
      exact counted_reset hc
  · rename_i hpart
    refine ⟨_, _, rfl, .refl h, ?_, ?_, fun others hc => hc⟩
    · intro p (hp : b.storage = some p)
      obtain ⟨s, hs, hle⟩ := hf p hp
      rw [str_some hp hs, List.length_drop] at hn
      exact ⟨s, hs, by simp only; omega⟩
    · cases hp : b.storage with
      | none => rw [str_none hp, str_none rfl, List.drop_nil]
      | some p =>
        obtain ⟨s, hs, -⟩ := hf p hp
        rw [str_some hp hs, str_some rfl hs, List.drop_drop]

theorem View.Fits.length_str (hf : v.Fits h) : (v.str h).length = v.length := by
  unfold Fits at hf
  cases hp : v.storage with
  | none =>
    rw [hp] at hf
    simp [str, hp, hf]
  | some p =>
    rw [hp] at hf
    obtain ⟨s, hs, hle⟩ := hf
    simp only [str, hp, hs, Option.bind_some, Option.getD_some, List.length_take, List.length_drop]
    omega

theorem View.Fits.shorten (hf : v.Fits h) (hn : n ≤ v.length) :
    (v.removePrefix n).Fits h ∧ (v.removePrefix n).str h = (v.str h).drop n := by
  refine ⟨?_, ?_⟩
  · unfold Fits at hf ⊢
    cases hp : v.storage with
    | none =>
      rw [hp] at hf
      simp [View.removePrefix, hp, hf]
    | some p =>
      rw [hp] at hf
      obtain ⟨s, hs, hle⟩ := hf
      simp only [View.removePrefix, hp]
      exact ⟨s, hs, by omega⟩
  · simp only [str, View.removePrefix]
    rw [List.drop_take, List.drop_drop]

theorem View.fits_of_buffer (hf : b.Fits h) :
    (ofBuffer h b).Fits h ∧ (ofBuffer h b).str h = b.str h := by
  cases hp : b.storage with
  | none =>
    have hnil : b.str h = [] := Buffer.str_none hp
    simp [Fits, str, ofBuffer, hp, hnil]
  | some p =>
    obtain ⟨s, hs, hle⟩ := hf p hp
    have hstr := Buffer.str_some hp hs
    refine ⟨?_, ?_⟩
    · simp only [Fits, ofBuffer, hp, hstr, List.length_drop]
      exact ⟨s, hs, by omega⟩
    · simp only [str, ofBuffer, hp, hs, hstr, Option.bind_some, Option.getD_some]
      exact List.take_length

end Parts

namespace Buffers

/-- The buffers, and others that refer to the same strings, are counted; the heap is one that
has come from `h₀`. -/
structure Held (h₀ : Storage) (others : List Nat) (h : Storage) (buffers : Buffers) : Prop where
  counted : h.Counted (buffers.flatMap Buffer.refs ++ others)
  extended : h₀.Extends h
  fits : ∀ b ∈ buffers, b.Fits h

theorem concatenate_contents (h : Storage) (buffers : Buffers) :
    (buffers.contents h).concatenate = buffers.flatMap (Buffer.str h) :=
  List.flatMap_def.symm

section Held

variable {h₀ h : Storage} {others : List Nat} {b : Buffer} {buffers : Buffers}

/-- The first buffer is shortened. -/
theorem Held.shorten (hh : Held h₀ others h (b :: buffers)) {n : Nat}
    (hn : n ≤ (b.str h).length) :
    ∃ h' b', b.removePrefix h n = .done (h', b') () ∧ Held h₀ others h' (b' :: buffers) ∧
      b'.str h' = (b.str h).drop n ∧ ∀ c ∈ buffers, c.str h' = c.str h := by
  have hrefs := hh.counted
  rw [List.flatMap_cons, List.append_assoc] at hrefs
  obtain ⟨h', b', hrun, he, hf, hstr, hcount⟩ :=
    (hh.fits b List.mem_cons_self).shorten hn
  have hrest : ∀ c ∈ buffers, c.Fits h' ∧ c.str h' = c.str h := fun c hc =>
    (hh.fits c (List.mem_cons_of_mem _ hc)).extends he
  refine ⟨h', b', hrun, ⟨?_, hh.extended.trans he, ?_⟩, hstr, fun c hc => (hrest c hc).2⟩
  · rw [List.flatMap_cons, List.append_assoc]
    exact hcount _ hrefs
  · intro c hc
    rcases List.mem_cons.mp hc with rfl | hc
    · exact hf
    · exact (hrest c hc).1

theorem held_sound (h₀ : Storage) (others : List Nat) :
    Pieces.Sound (fun h b => (b.str h).length) Buffer.removePrefix Buffer.reset Buffer.str
      (Held h₀ others) where
  length := fun _ _ _ _ => rfl
  shorten := fun _ _ _ _ hh hn => hh.shorten (Nat.le_of_lt hn)
  discard := by
    intro h b bs hh
    have hrefs := hh.counted
    rw [List.flatMap_cons, List.append_assoc] at hrefs
    have he := b.extends_reset h
    have hrest : ∀ c ∈ bs, c.Fits (b.reset h) ∧ c.str (b.reset h) = c.str h := fun c hc =>
      (hh.fits c (List.mem_cons_of_mem _ hc)).extends he
    exact ⟨⟨Buffer.counted_reset hrefs, hh.extended.trans he, fun c hc => (hrest c hc).1⟩,
      fun c hc => (hrest c hc).2⟩

/-- Just the first `n` bytes of the list are taken off, if it holds so many. -/
theorem Held.remove_prefix_cases (hh : Held h₀ others h buffers) (n : Nat) :
    (n ≤ (buffers.contents h).concatenate.length ∧ ∃ h' buffers',
      buffers.removePrefix h n = .done (h', buffers') () ∧ Held h₀ others h' buffers' ∧
        (buffers'.contents h').concatenate = (buffers.contents h).concatenate.drop n) ∨
    ((buffers.contents h).concatenate.length < n ∧ ∃ h',
      buffers.removePrefix h n = .fail (h', []) .outOfRange ∧ Held h₀ others h' []) := by
  simp only [concatenate_contents]
  exact (held_sound h₀ others).remove_front hh n

theorem Held.reset (hh : Held h₀ others h buffers) :
    Held h₀ others (buffers.foldl Buffer.reset h) [] := by
  induction buffers generalizing h with
  | nil => exact hh
  | cons b bs ih => exact ih ((held_sound h₀ others).discard h b bs hh).1

theorem copied_counted {refs : List Nat} (hc : h.Counted refs)
    (hin : ∀ b ∈ buffers, ∀ p ∈ b.refs, p ∈ refs) :
    (buffers.foldl Buffer.copied h).Counted (buffers.flatMap Buffer.refs ++ refs) ∧
      h.Extends (buffers.foldl Buffer.copied h) := by
  induction buffers generalizing h refs with
  | nil => exact ⟨hc, .refl h⟩
  | cons b bs ih =>
    have hb : (b.copied h).Counted (b.refs ++ refs) ∧ h.Extends (b.copied h) := by
      have hmem := hin b List.mem_cons_self
      unfold Buffer.refs at hmem ⊢
      unfold Buffer.copied
      cases hp : b.storage with
      | none => exact ⟨hc, .refl h⟩
      | some p =>
        rw [hp] at hmem
        exact ⟨hc.retain (hc.live (hmem p List.mem_cons_self)), h.extends_retain p⟩
    obtain ⟨hcount, hext⟩ := ih hb.1 fun c hc' p hp =>
      List.mem_append_right _ (hin c (List.mem_cons_of_mem _ hc') p hp)
    refine ⟨hcount.perm ?_, hb.2.trans hext⟩
    rw [List.flatMap_cons, ← List.append_assoc]
    exact List.perm_append_comm.append_right refs

/-- The buffers of another list are copied to the end of this one. -/
theorem Held.append (hh : Held h₀ others h buffers) {more : Buffers}
    (hin : ∀ b ∈ more, ∀ p ∈ b.refs, p ∈ buffers.flatMap Buffer.refs ++ others)
    (hfits : ∀ b ∈ more, b.Fits h) :
    Held h₀ others (more.foldl Buffer.copied h) (buffers ++ more) := by
  obtain ⟨hcount, hext⟩ := copied_counted hh.counted hin
  refine ⟨hcount.perm ?_, hh.extended.trans hext, ?_⟩
  · rw [List.flatMap_append, ← List.append_assoc]
    exact List.perm_append_comm.append_right others
  · intro b hb
    rcases List.mem_append.mp hb with hb | hb
    · exact ((hh.fits b hb).extends hext).1
    · exact ((hfits b hb).extends hext).1

theorem Held.front_removed (hh : Held h₀ others h (b :: buffers)) (n : Nat) :
    Held h₀ others (b.removePrefix h n).state.1 ((b.removePrefix h n).state.2 :: buffers) := by
  rcases Nat.lt_or_ge (b.str h).length n with hlt | hge
  · rw [Buffer.removePrefix, if_pos hlt]
    exact hh
  · obtain ⟨h', b', hrun, hh', -⟩ := hh.shorten hge
    rw [hrun]
    exact hh'

end Held

end Buffers

namespace Views

theorem fits_sound (h : Storage) :
    Pieces.Sound (fun _ v => v.length)
      (fun _ v n => (.done ((), v.removePrefix n) () : Outcome Fault (Unit × View) Unit))
      (fun _ _ => ()) (fun _ v => v.str h) (fun _ views => ∀ v ∈ views, v.Fits h) where
  length := fun _ v _ hf => (hf v List.mem_cons_self).length_str.symm
  shorten := by
    intro _ v vs n hf hn
    obtain ⟨hfits, hstr⟩ := (hf v List.mem_cons_self).shorten (Nat.le_of_lt hn)
    refine ⟨(), _, rfl, ?_, hstr, fun _ _ => rfl⟩
    intro w hw
    rcases List.mem_cons.mp hw with rfl | hw
    · exact hfits
    · exact hf w (List.mem_cons_of_mem _ hw)
  discard := fun _ _ _ hf => ⟨fun w hw => hf w (List.mem_cons_of_mem _ hw), fun _ _ => rfl⟩

theorem concatenate_contents (h : Storage) (views : Views) :
    (views.contents h).concatenate = views.flatMap (View.str h) :=
  List.flatMap_def.symm

variable {h : Storage} {views : Views}

/-- The number that `size()` adds up is the number of bytes in view. -/
theorem length_concatenate (hf : ∀ v ∈ views, v.Fits h) :
    (views.contents h).concatenate.length = views.size := by
  have hsame : views.map (fun v => (v.str h).length) = views.map View.length :=
    List.map_congr_left fun v hv => (hf v hv).length_str
  rw [concatenate_contents, List.length_flatMap, hsame, size]

/-- Just the first `n` bytes are taken out of view, if there are so many. -/
theorem remove_prefix_cases (hf : ∀ v ∈ views, v.Fits h) (n : Nat) :
    (n ≤ (views.contents h).concatenate.length ∧ ∃ views',
      views.removePrefix n = .done ((), views') () ∧ (∀ v ∈ views', v.Fits h) ∧
        (views'.contents h).concatenate = (views.contents h).concatenate.drop n) ∨
    ((views.contents h).concatenate.length < n ∧
      views.removePrefix n = .fail ((), []) .outOfRange) := by
  simp only [concatenate_contents]
  rcases (fits_sound h).remove_front (s := ()) hf n with
    ⟨hle, s', views', hrun, hf', htext⟩ | ⟨hlt, s', hrun, -⟩
  · exact .inl ⟨hle, views', hrun, hf', htext⟩
  · exact .inr ⟨hlt, hrun⟩

end Views

end Sponge
