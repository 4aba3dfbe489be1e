import Mathlib.Algebra.Order.BigOperators.Group.List
import Mathlib.Algebra.Order.Ring.Nat
import Mathlib.Data.List.Pairwise
import Mathlib.Order.Defs.Unbundled

/-- A finite map kept as the list of its entries in the order `lt` of their
keys, the way an iterator walks an ordered container. -/
structure OrdMap (κ α : Type) (lt : κ → κ → Prop) where
  entries : List (κ × α)
  sorted : entries.Pairwise (fun a b => lt a.1 b.1)

namespace OrdMap

section Entries

variable {κ α : Type} (lt : κ → κ → Prop)

/-- One key, one entry. -/
theorem entries_key_unique [IsStrictTotalOrder κ lt] {es : List (κ × α)}
    (hs : es.Pairwise (fun a b => lt a.1 b.1)) {d e : κ × α}
    (hd : d ∈ es) (he : e ∈ es) (hk : d.1 = e.1) : d = e := by
  induction es with
  | nil => simp at hd
  | cons c cs ih =>
    obtain ⟨hc, ht⟩ := List.pairwise_cons.mp hs
    rcases List.mem_cons.mp hd with rfl | hd' <;> rcases List.mem_cons.mp he with rfl | he'
    · rfl
    · exact absurd (hk ▸ hc e he') (irrefl_of lt _)
    · exact absurd (hk ▸ hc d hd') (irrefl_of lt _)
    · exact ih ht hd' he'

/-- Erasing a key takes out its entry and moves no other. -/
theorem erase_entries_perm [DecidableEq κ] [IsStrictTotalOrder κ lt] {es : List (κ × α)}
    (hs : es.Pairwise (fun a b => lt a.1 b.1)) {e : κ × α} (he : e ∈ es) :
    es.Perm (e :: es.filter (fun d => d.1 ≠ e.1)) := by
  induction es with
  | nil => simp at he
  | cons c cs ih =>
    obtain ⟨hc, ht⟩ := List.pairwise_cons.mp hs
    rcases List.mem_cons.mp he with rfl | hm
    · have hne : ∀ d ∈ cs, d.1 ≠ e.1 := by
        intro d hd hk
        exact irrefl_of lt e.1 (hk ▸ hc d hd)
      rw [List.filter_cons_of_neg (by simp), List.filter_eq_self.mpr (by simpa using hne)]
    · have hne : c.1 ≠ e.1 := by
        intro hk
        exact irrefl_of lt e.1 (hk ▸ hc e hm)
      rw [List.filter_cons_of_pos (by simpa using hne)]
      exact ((ih ht hm).cons c).trans (List.Perm.swap _ _ _)

variable [DecidableEq κ] [DecidableRel lt]

/-- Insert or assign, walking the entries in order. -/
def insertEntries (k : κ) (a : α) : List (κ × α) → List (κ × α)
  | [] => [(k, a)]
  | e :: es =>
    if k = e.1 then (k, a) :: es
    else if lt k e.1 then (k, a) :: e :: es
    else e :: insertEntries k a es

theorem mem_insert_entries_key {k : κ} {a : α} {es : List (κ × α)} {e : κ × α}
    (h : e ∈ insertEntries lt k a es) : e = (k, a) ∨ e ∈ es := by
  induction es with
  | nil => simpa [insertEntries] using h
  | cons d ds ih =>
    simp only [insertEntries] at h
    split at h
    · rcases List.mem_cons.mp h with he | hm
      · exact .inl he
      · exact .inr (List.mem_cons_of_mem _ hm)
    · split at h
      · rcases List.mem_cons.mp h with he | hm
        · exact .inl he
        · exact .inr hm
      · rcases List.mem_cons.mp h with he | hm
        · exact .inr (he ▸ List.mem_cons_self)
        · rcases ih hm with he | hm
          · exact .inl he
          · exact .inr (List.mem_cons_of_mem _ hm)

theorem insert_entries_sorted [IsStrictTotalOrder κ lt] (k : κ) (a : α)
    {es : List (κ × α)} (hs : es.Pairwise (fun a b => lt a.1 b.1)) :
    (insertEntries lt k a es).Pairwise (fun a b => lt a.1 b.1) := by
  induction es with
  | nil => simp [insertEntries]
  | cons d ds ih =>
    obtain ⟨hd, ht⟩ := List.pairwise_cons.mp hs
    simp only [insertEntries]
    split
    · rename_i hk
      subst hk
      exact List.pairwise_cons.mpr ⟨hd, ht⟩
    · split
      · rename_i hlt
        refine List.pairwise_cons.mpr ⟨?_, hs⟩
        intro e he
        rcases List.mem_cons.mp he with rfl | he
        · exact hlt
        · exact IsTrans.trans _ _ _ hlt (hd e he)
      · rename_i hne hnlt
        refine List.pairwise_cons.mpr ⟨?_, ih ht⟩
        intro e he
        rcases mem_insert_entries_key lt he with rfl | he
        · rcases trichotomous_of lt k d.1 with h | h | h
          · exact absurd h hnlt
          · exact absurd h hne
          · exact h
        · exact hd e he

/-- What an insertion leaves in the entries. -/
theorem mem_insert_entries [IsStrictTotalOrder κ lt] (k : κ) (a : α) {es : List (κ × α)}
    (hs : es.Pairwise (fun a b => lt a.1 b.1)) (e : κ × α) :
    e ∈ insertEntries lt k a es ↔ e = (k, a) ∨ (e ∈ es ∧ e.1 ≠ k) := by
  induction es with
  | nil => simp [insertEntries]
  | cons d ds ih =>
    obtain ⟨hd, ht⟩ := List.pairwise_cons.mp hs
    -- past the insertion point every key is larger than the new one
    have later : ∀ {c}, (k = c ∨ lt k c) → (∀ x ∈ ds, lt c x.1) → ∀ x ∈ ds, x.1 ≠ k := by
      intro c hc hx x hm he
      have hcx := hx x hm
      rw [he] at hcx
      rcases hc with rfl | hc
      · exact irrefl_of lt k hcx
      · exact asymm_of lt hc hcx
    simp only [insertEntries]
    split
    · rename_i hk
      have hne := later (.inl hk) hd
      constructor
      · intro h
        rcases List.mem_cons.mp h with he | hm
        · exact .inl he
        · exact .inr ⟨List.mem_cons_of_mem _ hm, hne e hm⟩
      · rintro (rfl | ⟨hm, hek⟩)
        · exact List.mem_cons_self
        · rcases List.mem_cons.mp hm with rfl | hm
          · exact absurd hk.symm hek
          · exact List.mem_cons_of_mem _ hm
    · rename_i hk
      split
      · rename_i hlt
        have hne := later (.inr hlt) hd
        constructor
        · intro h
          rcases List.mem_cons.mp h with he | hm
          · exact .inl he
          · refine .inr ⟨hm, ?_⟩
            rcases List.mem_cons.mp hm with rfl | hm
            · exact fun he => hk he.symm
            · exact hne e hm
        · rintro (rfl | ⟨hm, -⟩)
          · exact List.mem_cons_self
          · exact List.mem_cons_of_mem _ hm
      · constructor
        · intro h
          rcases List.mem_cons.mp h with rfl | hm
          · exact .inr ⟨List.mem_cons_self, fun he => hk he.symm⟩
          · rcases (ih ht).mp hm with he | ⟨hm, hek⟩
            · exact .inl he
            · exact .inr ⟨List.mem_cons_of_mem _ hm, hek⟩
        · rintro (rfl | ⟨hm, hek⟩)
          · exact List.mem_cons_of_mem _ ((ih ht).mpr (.inl rfl))
          · rcases List.mem_cons.mp hm with rfl | hm
            · exact List.mem_cons_self
            · exact List.mem_cons_of_mem _ ((ih ht).mpr (.inr ⟨hm, hek⟩))

/-- A value that measures nothing is replaced at no cost. -/
theorem total_insert_entries (f : κ × α → Nat) (k : κ) (a : α) {es : List (κ × α)}
    (hk : ∀ e ∈ es, e.1 = k → f e = 0) :
    ((insertEntries lt k a es).map f).sum = f (k, a) + (es.map f).sum := by
  induction es with
  | nil => simp [insertEntries]
  | cons d ds ih =>
    have hd := hk d List.mem_cons_self
    have ht := ih (fun e he => hk e (List.mem_cons_of_mem _ he))
    simp only [insertEntries]
    split
    · rename_i he
      simp [hd he.symm]
    · split
      · simp
      · simp only [List.map_cons, List.sum_cons, ht]
        omega

/-- A key behind all others goes to the end. -/
theorem insert_entries_last [IsStrictTotalOrder κ lt] {k : κ} (a : α) {es : List (κ × α)}
    (h : ∀ e ∈ es, lt e.1 k) : insertEntries lt k a es = es ++ [(k, a)] := by
  induction es with
  | nil => rfl
  | cons d ds ih =>
    have hd := h d List.mem_cons_self
    have hne : k ≠ d.1 := fun he => irrefl_of lt k (he ▸ hd)
    rw [insertEntries, if_neg hne, if_neg (asymm_of lt hd),
      ih (fun e he => h e (List.mem_cons_of_mem _ he)), List.cons_append]

theorem length_insert_entries_le (k : κ) (a : α) (es : List (κ × α)) :
    (insertEntries lt k a es).length ≤ es.length + 1 := by
  induction es with
  | nil => simp [insertEntries]
  | cons d ds ih =>
    simp only [insertEntries]
    split
    · simp
    · split
      · simp
      · simpa using ih

end Entries

section Map

variable {κ α : Type} {lt : κ → κ → Prop}

/-- The map without entries. -/
def empty : OrdMap κ α lt := ⟨[], List.Pairwise.nil⟩

/-- Erase the first entry, the one at the container's `begin`. -/
def popFront (m : OrdMap κ α lt) : OrdMap κ α lt := ⟨m.entries.tail, m.sorted.tail⟩

/-- Change the values and keep the keys. -/
def mapValues {β : Type} (f : α → β) (m : OrdMap κ α lt) : OrdMap κ β lt :=
  ⟨m.entries.map (fun e => (e.1, f e.2)), List.pairwise_map.mpr m.sorted⟩

/-- Keep the entries that meet a test. -/
def filter (p : κ × α → Bool) (m : OrdMap κ α lt) : OrdMap κ α lt :=
  ⟨m.entries.filter p, m.sorted.filter _⟩

/-- Keep some of the entries. -/
def restrict (m : OrdMap κ α lt) {es : List (κ × α)} (h : es.Sublist m.entries) : OrdMap κ α lt :=
  ⟨es, m.sorted.sublist h⟩

/-- A measure summed over the entries. -/
def total (f : κ × α → Nat) (m : OrdMap κ α lt) : Nat := (m.entries.map f).sum

@[simp] theorem entries_empty : (empty : OrdMap κ α lt).entries = [] := rfl

@[simp] theorem entries_pop_front (m : OrdMap κ α lt) : m.popFront.entries = m.entries.tail := rfl

@[simp] theorem entries_restrict (m : OrdMap κ α lt) {es : List (κ × α)}
    (h : es.Sublist m.entries) : (m.restrict h).entries = es := rfl

theorem le_total_of_mem (f : κ × α → Nat) {m : OrdMap κ α lt} {e : κ × α} (he : e ∈ m.entries) :
    f e ≤ m.total f :=
  List.le_sum_of_mem (List.mem_map_of_mem he)

theorem total_pop_front (f : κ × α → Nat) {m : OrdMap κ α lt} {e : κ × α} {es : List (κ × α)}
    (h : m.entries = e :: es) : m.total f = f e + m.popFront.total f := by
  simp [total, h]

variable [DecidableEq κ]

/-- The value at a key. -/
def find? (m : OrdMap κ α lt) (k : κ) : Option α :=
  (m.entries.find? (fun e => e.1 = k)).map Prod.snd

/-- Erase a key. -/
def erase (m : OrdMap κ α lt) (k : κ) : OrdMap κ α lt :=
  ⟨m.entries.filter (fun e => e.1 ≠ k), m.sorted.filter _⟩

theorem mem_erase {m : OrdMap κ α lt} {k : κ} {e : κ × α} :
    e ∈ (m.erase k).entries ↔ e ∈ m.entries ∧ e.1 ≠ k := by
  simp [erase]

theorem find?_none_iff {m : OrdMap κ α lt} {k : κ} :
    m.find? k = none ↔ ∀ e ∈ m.entries, e.1 ≠ k := by
  simp [find?]

theorem mem_of_find? {m : OrdMap κ α lt} {k : κ} {a : α} (h : m.find? k = some a) :
    (k, a) ∈ m.entries := by
  obtain ⟨e, he, rfl⟩ := Option.map_eq_some_iff.mp h
  have hk : e.1 = k := by simpa using List.find?_some he
  exact hk ▸ List.mem_of_find?_eq_some he

theorem mem_keys_iff {m : OrdMap κ α lt} {k : κ} :
    k ∈ m.entries.map Prod.fst ↔ (m.find? k).isSome = true := by
  simp [find?]

theorem find?_map_values {β : Type} (f : α → β) (m : OrdMap κ α lt) (k : κ) :
    (m.mapValues f).find? k = (m.find? k).map f := by
  simp only [find?, mapValues, List.find?_map, Option.map_map]
  rfl

/-- The two maps have the same keys. -/
def SameKeys {β : Type} (m : OrdMap κ α lt) (m' : OrdMap κ β lt) : Prop :=
  ∀ k, (m.find? k).isSome = (m'.find? k).isSome

theorem SameKeys.find? {β : Type} {m : OrdMap κ α lt} {m' : OrdMap κ β lt} (h : SameKeys m m')
    {k : κ} {a : α} (hf : m.find? k = some a) : ∃ b, m'.find? k = some b := by
  rw [← Option.isSome_iff_exists, ← h k, hf]
  rfl

theorem SameKeys.map_values {β γ : Type} {m : OrdMap κ α lt} {m' : OrdMap κ β lt}
    (h : SameKeys m m') (f : β → γ) : SameKeys m (m'.mapValues f) := by
  intro j
  rw [find?_map_values, Option.isSome_map]
  exact h j

variable [IsStrictTotalOrder κ lt]

theorem find?_eq_some_iff {m : OrdMap κ α lt} {k : κ} {a : α} :
    m.find? k = some a ↔ (k, a) ∈ m.entries := by
  refine ⟨mem_of_find?, fun h => ?_⟩
  cases hf : m.find? k with
  | none => exact absurd rfl (find?_none_iff.mp hf (k, a) h)
  | some b =>
    have heq := entries_key_unique lt m.sorted (mem_of_find? hf) h rfl
    exact congrArg (fun e => some e.2) heq

/-- An entry is the one found under a key, or has another key. -/
theorem eq_or_key_ne {m : OrdMap κ α lt} {k : κ} {a : α} (h : m.find? k = some a) {e : κ × α}
    (he : e ∈ m.entries) : e = (k, a) ∨ e.1 ≠ k := by
  by_cases hk : e.1 = k
  · exact .inl (entries_key_unique lt m.sorted he (mem_of_find? h) hk)
  · exact .inr hk

theorem find?_erase (m : OrdMap κ α lt) (k j : κ) :
    (m.erase k).find? j = if j = k then none else m.find? j := by
  ext a
  rw [find?_eq_some_iff, mem_erase]
  split
  · rename_i h
    simp [h]
  · rename_i h
    rw [find?_eq_some_iff]
    exact and_iff_left h

theorem find?_filter (p : κ × α → Bool) (m : OrdMap κ α lt) (k : κ) :
    (m.filter p).find? k = (m.find? k).filter (fun a => p (k, a)) := by
  ext a
  rw [find?_eq_some_iff, Option.filter_eq_some_iff, find?_eq_some_iff]
  exact List.mem_filter

theorem SameKeys.erase {β : Type} {m : OrdMap κ α lt} {m' : OrdMap κ β lt} (h : SameKeys m m')
    (k : κ) : SameKeys (m.erase k) (m'.erase k) := by
  intro j
  rw [find?_erase, find?_erase]
  split
  · rfl
  · exact h j

/-- Erasing one key after another. -/
theorem find?_erase_all {β : Type} (es : List (κ × β)) (m : OrdMap κ α lt) (k : κ) :
    (es.foldl (fun m e => m.erase e.1) m).find? k =
      if k ∈ es.map Prod.fst then none else m.find? k := by
  induction es generalizing m with
  | nil => rfl
  | cons e es ih =>
    rw [List.foldl_cons, ih, find?_erase]
    by_cases hk : k = e.1
    · simp [hk]
    · rw [if_neg hk]
      simp only [List.map_cons, List.mem_cons, hk, false_or]

theorem total_erase (f : κ × α → Nat) {m : OrdMap κ α lt} {k : κ} {a : α}
    (h : (k, a) ∈ m.entries) : m.total f = f (k, a) + (m.erase k).total f := by
  have hp := ((erase_entries_perm lt m.sorted h).map f).sum_eq
  simpa [total, erase] using hp

theorem length_erase {m : OrdMap κ α lt} {k : κ} {a : α} (h : (k, a) ∈ m.entries) :
    m.entries.length = (m.erase k).entries.length + 1 := by
  simpa [erase] using (erase_entries_perm lt m.sorted h).length_eq

variable [DecidableRel lt]

/-- Insert or assign a value at a key. -/
def insert (m : OrdMap κ α lt) (k : κ) (a : α) : OrdMap κ α lt :=
  ⟨insertEntries lt k a m.entries, insert_entries_sorted lt k a m.sorted⟩

theorem mem_insert {m : OrdMap κ α lt} {k : κ} {a : α} {e : κ × α} :
    e ∈ (m.insert k a).entries ↔ e = (k, a) ∨ (e ∈ m.entries ∧ e.1 ≠ k) :=
  mem_insert_entries lt k a m.sorted e

theorem find?_insert (m : OrdMap κ α lt) (k j : κ) (a : α) :
    (m.insert k a).find? j = if j = k then some a else m.find? j := by
  ext b
  rw [find?_eq_some_iff, mem_insert]
  split
  · rename_i h
    simp [h, eq_comm]
  · rename_i h
    rw [find?_eq_some_iff]
    simp [h]

theorem SameKeys.insert {β : Type} {m : OrdMap κ α lt} {m' : OrdMap κ β lt} (h : SameKeys m m')
    (k : κ) (a : α) (b : β) : SameKeys (m.insert k a) (m'.insert k b) := by
  intro j
  rw [find?_insert, find?_insert]
  split
  · rfl
  · exact h j

/-- A key that is there may be assigned in one map only. -/
theorem SameKeys.assign {β : Type} {m : OrdMap κ α lt} {m' : OrdMap κ β lt} (h : SameKeys m m')
    {k : κ} (hk : (m.find? k).isSome = true) (b : β) : SameKeys m (m'.insert k b) := by
  intro j
  rw [find?_insert]
  split
  · rename_i hj
    rw [hj, hk]
    rfl
  · exact h j

/-- Assigning at the first key changes the first entry in place. -/
theorem entries_insert_front {m : OrdMap κ α lt} {k : κ} {a b : α} {es : List (κ × α)}
    (h : m.entries = (k, b) :: es) : (m.insert k a).entries = (k, a) :: es := by
  simp [insert, insertEntries, h]

theorem entries_insert_last {m : OrdMap κ α lt} {k : κ} (a : α)
    (h : ∀ e ∈ m.entries, lt e.1 k) : (m.insert k a).entries = m.entries ++ [(k, a)] :=
  insert_entries_last lt a h

theorem length_insert_le (m : OrdMap κ α lt) (k : κ) (a : α) :
    (m.insert k a).entries.length ≤ m.entries.length + 1 :=
  length_insert_entries_le lt k a m.entries

theorem total_insert (f : κ × α → Nat) {m : OrdMap κ α lt} {k : κ} {a : α}
    (hk : ∀ e ∈ m.entries, e.1 = k → f e = 0) : (m.insert k a).total f = f (k, a) + m.total f :=
  total_insert_entries lt f k a hk

end Map

end OrdMap
