import Mathlib.Data.List.Perm.Basic
import Sponge.Buffer.Model
import Sponge.Lib.Run

namespace Sponge

/-- Any number of lists of buffers that may share their strings, and of views of them. -/
structure BufferPool where
  heap : Storage := {}
  lists : List Buffers := []
  views : List Views := []

/-- What is done with them. -/
inductive BufferUse where
  /-- `BufferList(std::string &&)` -/
  | fromString (str : Bytes)
  /-- `BufferList(Buffer())` -/
  | fromBuffer
  /-- `BufferList()` -/
  | empty
  /-- `append` to one list of another; of itself it is undefined. -/
  | append (i j : Nat)
  /-- The list is destroyed; an empty one is left in its place. -/
  | destroy (i : Nat)
  /-- `Buffer::remove_prefix` of the first buffer in a list -/
  | bufferRemovePrefix (i n : Nat)
  | removePrefix (i n : Nat)
  /-- `BufferViewList(const BufferList &)` -/
  | view (i : Nat)
  | viewRemovePrefix (i n : Nat)
  deriving DecidableEq, Repr

namespace BufferPool

def listAt (x : BufferPool) (i : Nat) : Buffers := x.lists[i]?.getD []

def viewsAt (x : BufferPool) (i : Nat) : Views := x.views[i]?.getD []

/-- What a list holds, and what a list of views shows. -/
def contents (x : BufferPool) (i : Nat) : BufferList := (x.listAt i).contents x.heap

def viewed (x : BufferPool) (i : Nat) : BufferList := (x.viewsAt i).contents x.heap

/-- A call on one of the lists, if there is such a one. -/
def onList (x : BufferPool) (i : Nat)
    (f : Storage → Buffers → Outcome Fault (Storage × Buffers) Unit) :
    Outcome Fault BufferPool Unit :=
  match x.lists[i]? with
  | none => .done x ()
  | some l =>
    let o := f x.heap l
    ⟨o.result, { x with heap := o.state.1, lists := x.lists.set i o.state.2 }⟩

def call (x : BufferPool) : BufferUse → Outcome Fault BufferPool Unit
  | .fromString str =>
    .done { x with
      heap := x.heap.alloc str
      lists := x.lists ++ [[{ storage := some x.heap.next }]] } ()
  | .fromBuffer => .done { x with lists := x.lists ++ [[{}]] } ()
  | .empty => .done { x with lists := x.lists ++ [[]] } ()
  | .append i j =>
    if i = j then .done x ()
    else x.onList i fun h l =>
      .done ((x.listAt j).foldl Buffer.copied h, l ++ x.listAt j) ()
  | .destroy i => x.onList i fun h l => .done (l.foldl Buffer.reset h, []) ()
  | .bufferRemovePrefix i n => x.onList i fun h l =>
    match l with
    | [] => .done (h, []) ()
    | b :: rest =>
      let o := b.removePrefix h n
      ⟨o.result, (o.state.1, o.state.2 :: rest)⟩
  | .removePrefix i n => x.onList i fun h l => l.removePrefix h n
  | .view i => .done { x with views := x.views ++ [Views.ofBuffers x.heap (x.listAt i)] } ()
  | .viewRemovePrefix i n =>
    match x.views[i]? with
    | none => .done x ()
    | some l =>
      let o := l.removePrefix n
      ⟨o.result, { x with views := x.views.set i o.state.2 }⟩

def step (x : BufferPool) (u : BufferUse) : BufferPool := (x.call u).state

/-- All that refers to a string is counted, and all parts are inside their strings. -/
structure Sound (x : BufferPool) : Prop where
  counted : x.heap.Counted (x.lists.flatMap (·.flatMap Buffer.refs))
  fits : ∀ l ∈ x.lists, ∀ b ∈ l, b.Fits x.heap
  viewsFit : ∀ l ∈ x.views, ∀ v ∈ l, v.Fits x.heap

section Lists

variable {x : BufferPool} {i : Nat} {l : Buffers} {h' : Storage}

/-- What the lists other than this one refer to. -/
def otherRefs (x : BufferPool) (i : Nat) : List Nat :=
  (x.lists.eraseIdx i).flatMap (·.flatMap Buffer.refs)

theorem refs_perm (hi : i < x.lists.length) (l : Buffers) :
    ((x.lists.set i l).flatMap (·.flatMap Buffer.refs)).Perm
      (l.flatMap Buffer.refs ++ x.otherRefs i) := by
  have hperm := (List.set_perm_cons_eraseIdx hi l).flatMap_right (·.flatMap Buffer.refs)
  rwa [List.flatMap_cons] at hperm

theorem Sound.held (hs : x.Sound) (hi : x.lists[i]? = some l) :
    Buffers.Held x.heap (x.otherRefs i) x.heap l := by
  obtain ⟨hlt, hget⟩ := List.getElem?_eq_some_iff.mp hi
  refine ⟨?_, .refl _, hs.fits l (List.mem_of_getElem? hi)⟩
  have hperm := refs_perm hlt l
  rw [← hget, List.set_getElem_self, hget] at hperm
  exact hs.counted.perm hperm

/-- The heap has changed, and one of the lists. -/
theorem Sound.set_list (hs : x.Sound) (hi : i < x.lists.length)
    (hh : Buffers.Held x.heap (x.otherRefs i) h' l) :
    ({ x with heap := h', lists := x.lists.set i l } : BufferPool).Sound := by
  refine ⟨hh.counted.perm (refs_perm hi l).symm, ?_, ?_⟩
  · intro m hm b hb
    rcases List.mem_or_eq_of_mem_set hm with hm | rfl
    · exact ((hs.fits m hm b hb).extends hh.extended).1
    · exact hh.fits b hb
  · intro m hm v hv
    exact ((hs.viewsFit m hm v hv).extends hh.extended).1

theorem Sound.fits_list_at (hs : x.Sound) {j : Nat} {b : Buffer} (hb : b ∈ x.listAt j) :
    b.Fits x.heap := by
  cases hj : x.lists[j]? with
  | none => simp [listAt, hj] at hb
  | some m =>
    rw [listAt, hj] at hb
    exact hs.fits m (List.mem_of_getElem? hj) b hb

theorem Sound.fits_views_at (hs : x.Sound) {j : Nat} {v : View} (hv : v ∈ x.viewsAt j) :
    v.Fits x.heap := by
  cases hj : x.views[j]? with
  | none => simp [viewsAt, hj] at hv
  | some m =>
    rw [viewsAt, hj] at hv
    exact hs.viewsFit m (List.mem_of_getElem? hj) v hv

theorem Sound.contents_extends (hs : x.Sound) (he : x.heap.Extends h') (j : Nat) :
    (x.listAt j).contents h' = x.contents j :=
  congrArg BufferList.mk (List.map_congr_left fun _ hb => ((hs.fits_list_at hb).extends he).2)

theorem Sound.viewed_extends (hs : x.Sound) (he : x.heap.Extends h') (j : Nat) :
    (x.viewsAt j).contents h' = x.viewed j :=
  congrArg BufferList.mk (List.map_congr_left fun _ hv => ((hs.fits_views_at hv).extends he).2)

/-- The rule for a call on one of the lists. -/
theorem Sound.on_list (hs : x.Sound)
    {f : Storage → Buffers → Outcome Fault (Storage × Buffers) Unit}
    (hf : ∀ l, x.lists[i]? = some l →
      Buffers.Held x.heap (x.otherRefs i) (f x.heap l).state.1 (f x.heap l).state.2) :
    (x.onList i f).state.Sound := by
  unfold onList
  cases hi : x.lists[i]? with
  | none => exact hs
  | some l => exact hs.set_list (List.getElem?_eq_some_iff.mp hi).1 (hf l hi)

/-- A new list at the end. -/
theorem Sound.add_list (hs : x.Sound) (he : x.heap.Extends h')
    (hc : h'.Counted (l.flatMap Buffer.refs ++ x.lists.flatMap (·.flatMap Buffer.refs)))
    (hf : ∀ b ∈ l, b.Fits h') :
    ({ x with heap := h', lists := x.lists ++ [l] } : BufferPool).Sound := by
  refine ⟨hc.perm ?_, ?_, ?_⟩
  · simp only [List.flatMap_append, List.flatMap_cons, List.flatMap_nil, List.append_nil]
    exact List.perm_append_comm
  · intro m hm b hb
    rcases List.mem_append.mp hm with hm | hm
    · exact ((hs.fits m hm b hb).extends he).1
    · rw [List.mem_singleton.mp hm] at hb
      exact hf b hb
  · intro m hm v hv
    exact ((hs.viewsFit m hm v hv).extends he).1

theorem Sound.append (hs : x.Sound) (hi : x.lists[i]? = some l) (j : Nat) :
    Buffers.Held x.heap (x.otherRefs i) ((x.listAt j).foldl Buffer.copied x.heap)
      (l ++ x.listAt j) := by
  have hh := hs.held hi
  cases hj : x.lists[j]? with
  | none => simpa [listAt, hj] using hh
  | some m =>
    have hm := List.mem_of_getElem? hj
    have hlist : x.listAt j = m := by simp [listAt, hj]
    rw [hlist]
    refine hh.append (fun b hb p hp => ?_) (hs.fits m hm)
    -- the other list is among those that are counted
    have hlive := hs.counted.live (List.mem_flatMap.mpr ⟨m, hm, List.mem_flatMap.mpr ⟨b, hb, hp⟩⟩)
    rw [RefHeap.Live, hh.counted] at hlive
    exact List.count_pos_iff.mp hlive

theorem Sound.list_removed (hs : x.Sound) (hi : x.lists[i]? = some l) (n : Nat) :
    Buffers.Held x.heap (x.otherRefs i) (l.removePrefix x.heap n).state.1
      (l.removePrefix x.heap n).state.2 := by
  rcases (hs.held hi).remove_prefix_cases n with ⟨-, h', l', hrun, hh, -⟩ | ⟨-, h', hrun, hh⟩
  · rw [hrun]
    exact hh
  · rw [hrun]
    exact hh

theorem Sound.front_removed (hs : x.Sound) (i n : Nat) :
    (x.step (.bufferRemovePrefix i n)).Sound := by
  refine hs.on_list fun l hi => ?_
  cases l with
  | nil => exact hs.held hi
  | cons b rest => exact (hs.held hi).front_removed n

theorem Sound.set_views (hs : x.Sound) {vs : Views} (hf : ∀ v ∈ vs, v.Fits x.heap) (i : Nat) :
    ({ x with views := x.views.set i vs } : BufferPool).Sound := by
  refine ⟨hs.counted, hs.fits, fun m hm => ?_⟩
  rcases List.mem_or_eq_of_mem_set hm with hm | rfl
  · exact hs.viewsFit m hm
  · exact hf

end Lists

theorem new_sound : ({} : BufferPool).Sound := ⟨RefHeap.counted_empty, by simp, by simp⟩

theorem Sound.step {x : BufferPool} (hs : x.Sound) (u : BufferUse) : (x.step u).Sound := by
  cases u with
  | fromString str =>
    refine hs.add_list (x.heap.extends_alloc str) (hs.counted.alloc str) fun b hb => ?_
    rw [List.mem_singleton.mp hb]
    rintro p hp
    cases hp
    exact ⟨str, x.heap.value_alloc_next str, Nat.zero_le _⟩
  | fromBuffer =>
    refine hs.add_list (.refl _) hs.counted fun b hb => ?_
    rw [List.mem_singleton.mp hb]
    rintro p hp
    cases hp
  | empty => exact hs.add_list (.refl _) hs.counted (by simp)
  | append i j =>
    unfold BufferPool.step call
    simp only
    split
    · exact hs
    · exact hs.on_list fun l hi => hs.append hi j
  | destroy i => exact hs.on_list fun l hi => (hs.held hi).reset
  | bufferRemovePrefix i n => exact hs.front_removed i n
  | removePrefix i n => exact hs.on_list fun l hi => hs.list_removed hi n
  | view i =>
    refine ⟨hs.counted, hs.fits, fun m hm => ?_⟩
    rcases List.mem_append.mp hm with hm | hm
    · exact hs.viewsFit m hm
    · rw [List.mem_singleton.mp hm]
      intro v hv
      obtain ⟨b, hb, rfl⟩ := List.mem_map.mp hv
      exact (View.fits_of_buffer (hs.fits_list_at hb)).1
  | viewRemovePrefix i n =>
    unfold BufferPool.step call
    simp only
    split
    · exact hs
    · rename_i l hi
      rcases Views.remove_prefix_cases (hs.viewsFit l (List.mem_of_getElem? hi)) n with
        ⟨-, l', hrun, hf, -⟩ | ⟨-, hrun⟩
      · rw [hrun]
        exact hs.set_views hf i
      · rw [hrun]
        exact hs.set_views (by simp) i

/-- The call takes off a prefix of `n` bytes, or throws if there are not so many. -/
structure Removes (n : Nat) (result : Except Fault Unit) (size size' : Nat)
    (contents contents' : Bytes) : Prop where
  throws : result = .error .outOfRange ↔ n > size
  returns : n ≤ size → result = .ok () ∧ contents' = contents.drop n ∧ size' + n = size

/-- The calls of `remove_prefix` are exact, and each one concerns only the list that it is
made on. -/
def Exact (x : BufferPool) (u : BufferUse) : Prop :=
  match u with
  | .bufferRemovePrefix i n => ∀ b rest, x.lists[i]? = some (b :: rest) →
    (∃ str, (x.step u).contents i = ⟨str :: rest.map (Buffer.str x.heap)⟩ ∧
        Removes n (x.call u).result (b.str x.heap).length str.length (b.str x.heap) str) ∧
      (∀ j, j ≠ i → (x.step u).contents j = x.contents j) ∧
      ∀ j, (x.step u).viewed j = x.viewed j
  | .removePrefix i n => i < x.lists.length →
    Removes n (x.call u).result (x.contents i).size ((x.step u).contents i).size
        (x.contents i).concatenate ((x.step u).contents i).concatenate ∧
      (∀ j, j ≠ i → (x.step u).contents j = x.contents j) ∧
      ∀ j, (x.step u).viewed j = x.viewed j
  | .viewRemovePrefix i n => i < x.views.length →
    Removes n (x.call u).result (x.viewsAt i).size ((x.step u).viewsAt i).size
        (x.viewed i).concatenate ((x.step u).viewed i).concatenate ∧
      (∀ j, (x.step u).contents j = x.contents j) ∧
      ∀ j, j ≠ i → (x.step u).viewed j = x.viewed j
  | _ => True

section Exact

variable {x : BufferPool} {i : Nat}

theorem removes_of_cases {n : Nat} {result : Except Fault Unit} {size size' : Nat}
    {contents contents' : Bytes} (hsize : contents.length = size)
    (hsize' : contents'.length = size')
    (h : (n ≤ contents.length ∧ result = .ok () ∧ contents' = contents.drop n) ∨
      (contents.length < n ∧ result = .error .outOfRange)) :
    Removes n result size size' contents contents' := by
  rcases h with ⟨hle, rfl, rfl⟩ | ⟨hlt, rfl⟩
  · rw [List.length_drop] at hsize'
    refine ⟨iff_of_false nofun (by omega), fun _ => ⟨rfl, rfl, by omega⟩⟩
  · exact ⟨iff_of_true rfl (by omega), fun hle => by omega⟩

/-- After a call on one of the lists: what this one holds, and that the others hold the
same. -/
theorem Sound.set_list_contents (hs : x.Sound) {l : Buffers} {h' : Storage} {others : List Nat}
    (hi : i < x.lists.length) (hh : Buffers.Held x.heap others h' l) :
    let y : BufferPool := { x with heap := h', lists := x.lists.set i l }
    y.contents i = l.contents h' ∧ (∀ j, j ≠ i → y.contents j = x.contents j) ∧
      ∀ j, y.viewed j = x.viewed j := by
  refine ⟨?_, fun j hj => ?_, fun j => hs.viewed_extends hh.extended j⟩
  · simp [contents, listAt, hi]
  · rw [← hs.contents_extends hh.extended j]
    simp [contents, listAt, Ne.symm hj]

theorem Sound.front_remove_prefix_exact (hs : x.Sound) (i n : Nat) :
    x.Exact (.bufferRemovePrefix i n) := by
  intro b rest hget
  have hi := (List.getElem?_eq_some_iff.mp hget).1
  have hcall : x.call (.bufferRemovePrefix i n) =
      ⟨(b.removePrefix x.heap n).result,
        { x with
          heap := (b.removePrefix x.heap n).state.1
          lists := x.lists.set i ((b.removePrefix x.heap n).state.2 :: rest) }⟩ := by
    rw [call, onList, hget]
  have hh := hs.held hget
  obtain ⟨hsame, hothers⟩ := hs.set_list_contents hi (hh.front_removed n)
  rw [BufferPool.step, hcall]
  refine ⟨?_, hothers⟩
  simp only [hsame]
  rcases Nat.lt_or_ge (b.str x.heap).length n with hlt | hge
  · have hrun : b.removePrefix x.heap n = .fail (x.heap, b) .outOfRange := if_pos hlt
    rw [hrun]
    exact ⟨_, rfl, removes_of_cases rfl rfl (.inr ⟨hlt, rfl⟩)⟩
  · obtain ⟨h', b', hrun, -, hstr, hrest⟩ := hh.shorten hge
    rw [hrun]
    refine ⟨_, ?_, removes_of_cases rfl rfl (.inl ⟨hge, rfl, hstr⟩)⟩
    exact congrArg (fun l => BufferList.mk (b'.str h' :: l)) (List.map_congr_left hrest)

theorem Sound.remove_prefix_exact (hs : x.Sound) (i n : Nat) : x.Exact (.removePrefix i n) := by
  intro hi
  have hget := List.getElem?_eq_getElem hi
  have hcall : x.call (.removePrefix i n) =
      ⟨((x.lists[i]).removePrefix x.heap n).result,
        { x with
          heap := ((x.lists[i]).removePrefix x.heap n).state.1
          lists := x.lists.set i ((x.lists[i]).removePrefix x.heap n).state.2 }⟩ := by
    rw [call, onList, hget]
  have hlist : x.contents i = (x.lists[i]).contents x.heap := by simp [contents, listAt, hi]
  obtain ⟨hsame, hothers⟩ := hs.set_list_contents hi (hs.list_removed hget n)
  rw [BufferPool.step, hcall]
  refine ⟨removes_of_cases (BufferList.length_concatenate _) (BufferList.length_concatenate _) ?_,
    hothers⟩
  simp only [hsame, hlist]
  rcases (hs.held hget).remove_prefix_cases n with ⟨hle, h', l', hrun, -, htext⟩ | ⟨hlt, h', hrun, -⟩
  · rw [hrun]
    exact .inl ⟨hle, rfl, htext⟩
  · rw [hrun]
    exact .inr ⟨hlt, rfl⟩

theorem Sound.view_remove_prefix_exact (hs : x.Sound) (i n : Nat) :
    x.Exact (.viewRemovePrefix i n) := by
  intro hi
  have hget := List.getElem?_eq_getElem hi
  have hfits := hs.viewsFit _ (List.getElem_mem hi)
  have hcall : x.call (.viewRemovePrefix i n) =
      ⟨((x.views[i]).removePrefix n).result,
        { x with views := x.views.set i ((x.views[i]).removePrefix n).state.2 }⟩ := by
    rw [call, hget]
  rw [BufferPool.step, hcall]
  simp only [viewed, viewsAt, List.getElem?_set_self hi, hget, Option.getD_some]
  refine ⟨?_, fun j => rfl, fun j hj => by rw [List.getElem?_set_ne (Ne.symm hj)]⟩
  rcases Views.remove_prefix_cases hfits n with ⟨hle, l', hrun, hfits', htext⟩ | ⟨hlt, hrun⟩
  · rw [hrun]
    exact removes_of_cases (Views.length_concatenate hfits) (Views.length_concatenate hfits')
      (.inl ⟨hle, rfl, htext⟩)
  · rw [hrun]
    exact removes_of_cases (Views.length_concatenate hfits) rfl (.inr ⟨hlt, rfl⟩)

theorem Sound.exact (hs : x.Sound) (u : BufferUse) : x.Exact u := by
  cases u with
  | bufferRemovePrefix i n => exact hs.front_remove_prefix_exact i n
  | removePrefix i n => exact hs.remove_prefix_exact i n
  | viewRemovePrefix i n => exact hs.view_remove_prefix_exact i n
  | _ => trivial

end Exact

/-- Whatever has been done before with buffers that share their strings, a prefix is taken off
exactly, and nobody else notices. No buffer ever refers to a string that is freed. -/
theorem prefix_removal_exact (us : List BufferUse) :
    Run.Along step Exact {} us ∧
      Run.Always step (fun x => ∀ l ∈ x.lists, ∀ b ∈ l, ∀ p ∈ b.refs, x.heap.Live p) {} us := by
  have hany : Run.Along step (fun _ _ => True) {} us :=
    Run.along_of_forall (fun _ _ => trivial) _ _
  refine ⟨Run.along_of_invariant new_sound hany (fun _ u hs _ => hs.step u)
    (fun _ u hs _ => hs.exact u), Run.always_of_invariant new_sound hany
    (fun _ u hs _ => hs.step u) (fun x hs l hl b hb p hp => hs.counted.live ?_)⟩
  exact List.mem_flatMap.mpr ⟨l, hl, List.mem_flatMap.mpr ⟨b, hb, hp⟩⟩

end BufferPool

end Sponge
