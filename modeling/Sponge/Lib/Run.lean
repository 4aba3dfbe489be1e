import Mathlib.Data.List.Induction

namespace Run

variable {σ ι : Type}

/-- The state after a list of inputs. -/
def final (step : σ → ι → σ) (s : σ) (is : List ι) : σ := is.foldl step s

/-- Every input meets `P` in the state in which it is taken. -/
def Along (step : σ → ι → σ) (P : σ → ι → Prop) : σ → List ι → Prop
  | _, [] => True
  | s, i :: is => P s i ∧ Along step P (step s i) is

/-- Every state of the run, the first and the last included, meets `Q`. -/
def Always (step : σ → ι → σ) (Q : σ → Prop) : σ → List ι → Prop
  | s, [] => Q s
  | s, i :: is => Q s ∧ Always step Q (step s i) is

/-- Some input meets `P` in the state in which it is taken. -/
def Ever (step : σ → ι → σ) (P : σ → ι → Prop) : σ → List ι → Prop
  | _, [] => False
  | s, i :: is => P s i ∨ Ever step P (step s i) is

instance decidableAlong (step : σ → ι → σ) (P : σ → ι → Prop) [∀ s i, Decidable (P s i)] :
    ∀ s is, Decidable (Along step P s is)
  | _, [] => .isTrue trivial
  | s, i :: is =>
    have := decidableAlong step P (step s i) is
    inferInstanceAs (Decidable (P s i ∧ Along step P (step s i) is))

instance decidableAlways (step : σ → ι → σ) (Q : σ → Prop) [∀ s, Decidable (Q s)] :
    ∀ s is, Decidable (Always step Q s is)
  | s, [] => inferInstanceAs (Decidable (Q s))
  | s, i :: is =>
    have := decidableAlways step Q (step s i) is
    inferInstanceAs (Decidable (Q s ∧ Always step Q (step s i) is))

instance decidableEver (step : σ → ι → σ) (P : σ → ι → Prop) [∀ s i, Decidable (P s i)] :
    ∀ s is, Decidable (Ever step P s is)
  | _, [] => .isFalse id
  | s, i :: is =>
    have := decidableEver step P (step s i) is
    inferInstanceAs (Decidable (P s i ∨ Ever step P (step s i) is))

variable {step : σ → ι → σ} {P P' : σ → ι → Prop} {Q I : σ → Prop}

@[simp] theorem final_nil (s : σ) : final step s [] = s := rfl

@[simp] theorem final_cons (s : σ) (i : ι) (is : List ι) :
    final step s (i :: is) = final step (step s i) is := rfl

theorem final_append (s : σ) (is js : List ι) :
    final step s (is ++ js) = final step (final step s is) js :=
  List.foldl_append

theorem Along.and {s : σ} {is : List ι} (h : Along step P s is) (h' : Along step P' s is) :
    Along step (fun s i => P s i ∧ P' s i) s is := by
  induction is generalizing s with
  | nil => trivial
  | cons i is ih => exact ⟨⟨h.1, h'.1⟩, ih h.2 h'.2⟩

theorem Along.mono {s : σ} {is : List ι} (h : Along step P s is)
    (hp : ∀ s i, P s i → P' s i) : Along step P' s is := by
  induction is generalizing s with
  | nil => trivial
  | cons i is ih => exact ⟨hp s i h.1, ih h.2⟩

theorem along_of_forall (h : ∀ s i, P s i) (s : σ) (is : List ι) : Along step P s is := by
  induction is generalizing s with
  | nil => trivial
  | cons i is ih => exact ⟨h s i, ih (step s i)⟩

theorem along_of_mem {R : ι → Prop} {s : σ} {is : List ι} (h : ∀ i ∈ is, R i) :
    Along step (fun _ i => R i) s is := by
  induction is generalizing s with
  | nil => trivial
  | cons i is ih =>
    exact ⟨h i List.mem_cons_self, ih (fun j hj => h j (List.mem_cons_of_mem i hj))⟩

theorem along_iff_forall_mem {R : ι → Prop} (step : σ → ι → σ) (s : σ) {is : List ι} :
    Along step (fun _ i => R i) s is ↔ ∀ i ∈ is, R i := by
  constructor
  · intro h
    induction is generalizing s with
    | nil => exact fun _ hi => nomatch hi
    | cons i is ih => exact List.forall_mem_cons.mpr ⟨h.1, ih (step s i) h.2⟩
  · exact along_of_mem

theorem Along.and_mem {R : ι → Prop} {s : σ} {is : List ι} (h : Along step P s is)
    (hr : ∀ i ∈ is, R i) : Along step (fun s i => P s i ∧ R i) s is :=
  h.and (along_of_mem hr)

/-- Two conditions that agree in the states a run with them goes through. -/
theorem along_congr {s : σ} {is : List ι} (hs : I s)
    (h : ∀ s, ∀ i ∈ is, I s → (P s i ↔ P' s i))
    (hstep : ∀ s, ∀ i ∈ is, I s → P s i → I (step s i)) :
    Along step P s is ↔ Along step P' s is := by
  induction is generalizing s with
  | nil => exact .rfl
  | cons i is ih =>
    have hi := h s i List.mem_cons_self hs
    have hrest := fun hp => ih (hstep s i List.mem_cons_self hs hp)
      (fun s j hj => h s j (List.mem_cons_of_mem i hj))
      (fun s j hj => hstep s j (List.mem_cons_of_mem i hj))
    constructor
    · rintro ⟨hp, hr⟩
      exact ⟨hi.mp hp, (hrest hp).mp hr⟩
    · rintro ⟨hp, hr⟩
      exact ⟨hi.mpr hp, (hrest (hi.mpr hp)).mpr hr⟩

/-- What one step with an input of the run preserves, the whole run preserves. -/
theorem invariant_of_mem {s : σ} {is : List ι} (hs : I s)
    (hstep : ∀ s, ∀ i ∈ is, I s → I (step s i)) : I (final step s is) := by
  induction is generalizing s with
  | nil => exact hs
  | cons i is ih =>
    exact ih (hstep s i List.mem_cons_self hs) (fun s j hj => hstep s j (List.mem_cons_of_mem i hj))

/-- A run ends well just when each input is taken well: as long as they are, the states
are good, and what one bad step spoils stays spoilt. -/
theorem final_iff_along {R : σ → ι → Prop} {s : σ} {is : List ι} (hs : I s)
    (h : Along step R s is) (hgood : ∀ s, I s → Q s)
    (hkeep : ∀ s i, I s → R s i → P s i → I (step s i))
    (hspoil : ∀ s i, I s → R s i → ¬ P s i → ¬ Q (step s i))
    (hstay : ∀ s i, ¬ Q s → ¬ Q (step s i)) : Q (final step s is) ↔ Along step P s is := by
  induction is generalizing s with
  | nil => exact iff_of_true (hgood s hs) trivial
  | cons i is ih =>
    constructor
    · intro hq
      have hp : P s i := by
        by_contra hp
        exact invariant_of_mem (I := fun s => ¬ Q s) (hspoil s i hs h.1 hp)
          (fun s j _ => hstay s j) hq
      exact ⟨hp, (ih (hkeep s i hs h.1 hp) h.2).mp hq⟩
    · intro hp
      exact (ih (hkeep s i hs h.1 hp.1) h.2).mpr hp.2

theorem Along.append {s : σ} {is js : List ι} :
    Along step P s (is ++ js) ↔ Along step P s is ∧ Along step P (final step s is) js := by
  induction is generalizing s with
  | nil => simp [Along]
  | cons i is ih => simp [Along, ih, and_assoc]

theorem Ever.append {s : σ} {is js : List ι} :
    Ever step P s (is ++ js) ↔ Ever step P s is ∨ Ever step P (final step s is) js := by
  induction is generalizing s with
  | nil => simp [Ever]
  | cons i is ih => simp [Ever, ih, or_assoc]

/-- The rule for a statement about the run so far: the inputs taken and the
state they lead to. -/
theorem history {I : List ι → Prop} {s : σ} {is : List ι} (h0 : I []) (h : Along step P s is)
    (hstep : ∀ js i, I js → P (final step s js) i → I (js ++ [i])) : I is := by
  induction is using List.reverseRecOn with
  | nil => exact h0
  | append_singleton js i ih =>
    obtain ⟨hjs, hi, -⟩ := Along.append.mp h
    exact hstep js i (ih hjs) hi

/-- A state holds of a whole run as soon as it holds of each state reached. -/
theorem always_of_invariant {s : σ} {is : List ι} (hs : I s) (h : Along step P s is)
    (hstep : ∀ s i, I s → P s i → I (step s i)) (hq : ∀ s, I s → Q s) :
    Always step Q s is := by
  induction is generalizing s with
  | nil => exact hq s hs
  | cons i is ih => exact ⟨hq s hs, ih (hstep s i hs h.1) h.2⟩

/-- Every step of a run is right as soon as it is right in each state reached. -/
theorem along_of_invariant {s : σ} {is : List ι} (hs : I s) (h : Along step P s is)
    (hstep : ∀ s i, I s → P s i → I (step s i)) (hp : ∀ s i, I s → P s i → P' s i) :
    Along step P' s is := by
  induction is generalizing s with
  | nil => trivial
  | cons i is ih => exact ⟨hp s i hs h.1, ih (hstep s i hs h.1) h.2⟩

/-- What is so at the end of a run and cannot have come back was so after each step. -/
theorem along_of_final {s : σ} {is : List ι} (h : Q (final step s is))
    (hback : ∀ s i, Q (step s i) → Q s) : Along step (fun s i => Q (step s i)) s is := by
  have hstart : ∀ {s : σ} {is : List ι}, Q (final step s is) → Q s := by
    intro s is h
    induction is generalizing s with
    | nil => exact h
    | cons i is ih => exact hback s i (ih h)
  induction is generalizing s with
  | nil => trivial
  | cons i is ih => exact ⟨hstart h, ih h⟩

theorem Always.head {s : σ} {is : List ι} (h : Always step Q s is) : Q s := by
  cases is with
  | nil => exact h
  | cons i is => exact h.1

/-- What the state after an input tells about the input. -/
theorem Always.along {s : σ} {is : List ι} (h : Always step Q s is)
    (hp : ∀ s i, Q (step s i) → P s i) : Along step P s is := by
  induction is generalizing s with
  | nil => trivial
  | cons i is ih => exact ⟨hp s i h.2.head, ih h.2⟩

/-- What holds of a run holds of another one that it simulates step by step. -/
theorem Always.simulated {τ κ : Type} {stepA : τ → κ → τ} {f : ι → κ} {R : σ → τ → Prop}
    {A : τ → Prop} {s : σ} {t : τ} {is : List ι} (h : Always stepA A t (is.map f)) (hs : R s t)
    (hstep : ∀ s t i, R s t → R (step s i) (stepA t (f i))) (hq : ∀ s t, R s t → A t → Q s) :
    Always step Q s is := by
  induction is generalizing s t with
  | nil => exact hq s t hs h
  | cons i is ih => exact ⟨hq s t hs h.1, ih h.2 (hstep s t i hs)⟩

theorem Always.imp₂ {Q₁ Q₂ : σ → Prop} {s : σ} {is : List ι} (h₁ : Always step Q₁ s is)
    (h₂ : Always step Q₂ s is) (hq : ∀ s, Q₁ s → Q₂ s → Q s) : Always step Q s is := by
  induction is generalizing s with
  | nil => exact hq s h₁ h₂
  | cons i is ih => exact ⟨hq s h₁.1 h₂.1, ih h₁.2 h₂.2⟩

theorem Always.final {s : σ} {is : List ι} (h : Always step Q s is) : Q (final step s is) := by
  induction is generalizing s with
  | nil => exact h
  | cons i is ih => exact ih h.2

end Run
