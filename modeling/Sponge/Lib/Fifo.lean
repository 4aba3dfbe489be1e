import Sponge.Lib.Run

/-- A queue with a bound. -/
structure Fifo (α : Type) where
  bound : Nat
  content : List α
  fits : content.length ≤ bound

namespace Fifo

variable {α : Type}

def empty (bound : Nat) : Fifo α := ⟨bound, [], Nat.zero_le _⟩

def room (q : Fifo α) : Nat := q.bound - q.content.length

/-- Put in as much as there is room for, from the front on. -/
def put (q : Fifo α) (xs : List α) : Fifo α where
  bound := q.bound
  content := q.content ++ xs.take q.room
  fits := by
    have hfits := q.fits
    simp only [List.length_append, List.length_take, room]
    omega

def get (q : Fifo α) (n : Nat) : Fifo α where
  bound := q.bound
  content := q.content.drop n
  fits := by
    have hfits := q.fits
    simp only [List.length_drop]
    omega

/-- What is done with a queue. -/
inductive Use (α : Type) where
  | put (xs : List α)
  | get (n : Nat)

/-- A queue in use, with all that went in and all that came out. -/
structure Ledger (α : Type) where
  queue : Fifo α
  entered : List α := []
  left : List α := []

namespace Ledger

def start (bound : Nat) : Ledger α := { queue := .empty bound }

def step (l : Ledger α) : Use α → Ledger α
  | .put xs => { l with queue := l.queue.put xs, entered := l.entered ++ xs.take l.queue.room }
  | .get n => { l with queue := l.queue.get n, left := l.left ++ l.queue.content.take n }

/-- What came out and what is still inside make up what went in. -/
def Balanced (l : Ledger α) : Prop := l.left ++ l.queue.content = l.entered

theorem Balanced.step {l : Ledger α} (h : l.Balanced) (u : Use α) : (l.step u).Balanced := by
  unfold Balanced at h
  cases u with
  | put xs =>
    simp only [Balanced, Ledger.step, Fifo.put]
    rw [← List.append_assoc, h]
  | get n =>
    simp only [Balanced, Ledger.step, Fifo.get]
    rw [List.append_assoc, List.take_append_drop, h]

theorem always_balanced (bound : Nat) (us : List (Use α)) :
    Run.Always step Balanced (start bound) us :=
  Run.always_of_invariant (I := Balanced) rfl
    (Run.along_of_forall (P := fun _ _ => True) (fun _ _ => trivial) _ _)
    (fun _ u h _ => h.step u) (fun _ h => h)

end Ledger

end Fifo
