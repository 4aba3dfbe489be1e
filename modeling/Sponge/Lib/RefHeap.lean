import Mathlib.Data.List.Count

/-- Values on a heap, each with the number of its owners. A value never changes; it is freed
with its last owner, and its address is not used again. -/
structure RefHeap (α : Type) where
  cells : List (α × Nat) := []

namespace RefHeap

variable {α : Type}

/-- The value that was put at an address, whether or not it is still there. -/
def value? (h : RefHeap α) (p : Nat) : Option α := h.cells[p]?.map (·.1)

def owners (h : RefHeap α) (p : Nat) : Nat := (h.cells[p]?.map (·.2)).getD 0

/-- The value may still be read. -/
def Live (h : RefHeap α) (p : Nat) : Prop := 0 < h.owners p

instance (h : RefHeap α) (p : Nat) : Decidable (h.Live p) := inferInstanceAs (Decidable (_ < _))

/-- A new value, with one owner, at the next address. -/
def alloc (h : RefHeap α) (a : α) : RefHeap α := ⟨h.cells ++ [(a, 1)]⟩

def next (h : RefHeap α) : Nat := h.cells.length

def retain (h : RefHeap α) (p : Nat) : RefHeap α := ⟨h.cells.modify p fun c => (c.1, c.2 + 1)⟩

def release (h : RefHeap α) (p : Nat) : RefHeap α := ⟨h.cells.modify p fun c => (c.1, c.2 - 1)⟩

/-- The owners of every value are those in the list. -/
def Counted (h : RefHeap α) (refs : List Nat) : Prop := ∀ p, h.owners p = refs.count p

/-- What could be read of a heap is the same in the other. -/
def Extends (h h' : RefHeap α) : Prop := ∀ p a, h.value? p = some a → h'.value? p = some a

variable {h h' h'' : RefHeap α} {refs : List Nat} {p : Nat}

theorem Extends.refl (h : RefHeap α) : h.Extends h := fun _ _ hv => hv

theorem Extends.trans (he : h.Extends h') (he' : h'.Extends h'') : h.Extends h'' :=
  fun p a hv => he' p a (he p a hv)

theorem counted_empty : Counted ({} : RefHeap α) [] := fun _ => rfl

theorem Counted.perm {refs' : List Nat} (hc : h.Counted refs) (hp : refs.Perm refs') :
    h.Counted refs' :=
  fun p => (hc p).trans (hp.count_eq p)

theorem Counted.live (hc : h.Counted refs) (hp : p ∈ refs) : h.Live p := by
  rw [Live, hc]
  exact List.count_pos_iff.mpr hp

theorem lt_next_of_live (hl : h.Live p) : p < h.next := by
  rw [Live, owners] at hl
  cases hc : h.cells[p]? with
  | none => simp [hc] at hl
  | some c => exact (List.getElem?_eq_some_iff.mp hc).1

theorem value_alloc_next (h : RefHeap α) (a : α) : (h.alloc a).value? h.next = some a := by
  simp [alloc, value?, next]

theorem extends_alloc (h : RefHeap α) (a : α) : h.Extends (h.alloc a) := by
  intro p b hv
  obtain ⟨c, hc, rfl⟩ := Option.map_eq_some_iff.mp hv
  have hlt := (List.getElem?_eq_some_iff.mp hc).1
  rw [alloc, value?, List.getElem?_append_left hlt, hc]
  rfl

theorem value_modify (h : RefHeap α) (p q : Nat) (f : Nat → Nat) :
    (⟨h.cells.modify p fun c => (c.1, f c.2)⟩ : RefHeap α).value? q = h.value? q := by
  simp only [value?, List.getElem?_modify]
  cases h.cells[q]? with
  | none => rfl
  | some c => by_cases hpq : p = q <;> simp [hpq]

theorem extends_retain (h : RefHeap α) (p : Nat) : h.Extends (h.retain p) :=
  fun q _ hv => (h.value_modify p q (· + 1)).trans hv

theorem extends_release (h : RefHeap α) (p : Nat) : h.Extends (h.release p) :=
  fun q _ hv => (h.value_modify p q (· - 1)).trans hv

theorem Counted.alloc (hc : h.Counted refs) (a : α) : (h.alloc a).Counted (h.next :: refs) := by
  intro p
  have hp := hc p
  rw [owners] at hp ⊢
  rcases Nat.lt_trichotomy p h.next with hlt | rfl | hgt
  · rw [RefHeap.alloc, List.getElem?_append_left hlt, hp, List.count_cons_of_ne (Nat.ne_of_gt hlt)]
  · have hnone : h.cells[h.next]? = none := List.getElem?_eq_none (Nat.le_refl _)
    rw [hnone] at hp
    rw [List.count_cons_self, ← hp]
    simp [RefHeap.alloc, next]
  · have hnone : h.cells[p]? = none := List.getElem?_eq_none (Nat.le_of_lt hgt)
    rw [hnone] at hp
    have hout : (h.alloc a).cells[p]? = none := by
      apply List.getElem?_eq_none
      simpa [RefHeap.alloc, next] using Nat.succ_le_of_lt hgt
    rw [hout, List.count_cons_of_ne (Nat.ne_of_lt hgt), ← hp]

theorem owners_retain (hp : h.Live p) (q : Nat) :
    (h.retain p).owners q = if p = q then h.owners q + 1 else h.owners q := by
  simp only [RefHeap.retain, owners, List.getElem?_modify]
  by_cases hpq : p = q
  · subst hpq
    have hget := List.getElem?_eq_getElem (lt_next_of_live hp)
    simp [hget]
  · simp [hpq]

theorem owners_release (h : RefHeap α) (p q : Nat) :
    (h.release p).owners q = if p = q then h.owners q - 1 else h.owners q := by
  simp only [RefHeap.release, owners, List.getElem?_modify]
  cases h.cells[q]? with
  | none => by_cases hpq : p = q <;> simp [hpq]
  | some c => by_cases hpq : p = q <;> simp [hpq]

/-- A copy of a reference that somebody has. -/
theorem Counted.retain (hc : h.Counted refs) (hp : h.Live p) :
    (h.retain p).Counted (p :: refs) := by
  intro q
  rw [owners_retain hp, hc q, List.count_cons]
  by_cases hpq : p = q <;> simp [hpq]

/-- One of the owners lets go. -/
theorem Counted.release (hc : h.Counted (p :: refs)) : (h.release p).Counted refs := by
  intro q
  rw [owners_release, hc q, List.count_cons]
  by_cases hpq : p = q <;> simp [hpq]

end RefHeap
