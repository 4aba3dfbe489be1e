import Mathlib.Data.List.Forall2
import Sponge.EventLoop.Model

namespace Sponge

namespace EventLoop

variable {σ : Type}

/-- What the callbacks have to keep to: `J` holds of the rules and the state as long as all calls
return, and `R` of what a fault leaves behind. `K` is what is known of a rule from when the kernel
was to be asked about it, with these events, until its turn comes: the cancellations of other
rules, and the callbacks of those before it, must not make it wrong. -/
structure Serves (J : List (Rule σ) → σ → Prop) (K : Rule σ → Option Direction → σ → Prop)
    (R : SystemFault → List (Rule σ) → σ → Prop) : Prop where
  asked : ∀ rules rule s, rule ∈ rules → J rules s → ¬ (rule.direction = .In ∧ (rule.fd s).eof) →
    ¬ (rule.fd s).closed → K rule (if rule.interest s then some rule.direction else none) s
  callback : ∀ before rule after s, J (before ++ rule :: after) s →
    K rule (some rule.direction) s →
    (rule.callback s).Leaves
      (fun _ s' => J (before ++ rule :: after) s' ∧
        (∀ r ∈ after, K r (some r.direction) s → K r (some r.direction) s') ∧
        (rule.serviceCount s = rule.serviceCount s' → rule.interest s' = true →
          R busyWait (before ++ rule :: after) s'))
      (fun e s' => R e (before ++ rule :: after) s')
  cancel : ∀ before rule after s, J (before ++ rule :: after) s →
    (rule.cancel s).Leaves
      (fun _ s' => J (before ++ after) s' ∧ (∀ r ∈ before, ∀ events, K r events s → K r events s') ∧
        ∀ r ∈ after, K r (some r.direction) s → K r (some r.direction) s')
      (fun e s' => R e (before ++ rule :: after) s')
  polled : ∀ rules s, J rules s → R polledError rules s

/-- Rules in the order of their numbers, with one of them picked out. -/
structure Placed (before : List (Rule σ)) (rule : Rule σ) (after : List (Rule σ)) : Prop where
  earlier : ∀ r ∈ before, r.number < rule.number
  later : ∀ r ∈ after, rule.number < r.number
  ordered : ((before ++ after).map Rule.number).Pairwise (· < ·)
  gone : rule.number ∉ (before ++ after).map Rule.number
  stay : ∀ n, n ≠ rule.number → (n ∈ (before ++ after).map Rule.number) =
    (n ∈ (before ++ rule :: after).map Rule.number)

theorem placed {before after : List (Rule σ)} {rule : Rule σ}
    (h : ((before ++ rule :: after).map Rule.number).Pairwise (· < ·)) :
    Placed before rule after := by
  simp only [List.map_append, List.map_cons, List.pairwise_append, List.pairwise_cons,
    List.mem_map, List.mem_cons] at h
  obtain ⟨hb, ⟨hra, ha⟩, hba⟩ := h
  have hbefore : ∀ r ∈ before, r.number < rule.number := fun r hr =>
    hba r.number ⟨r, hr, rfl⟩ rule.number (.inl rfl)
  have hafter : ∀ r ∈ after, rule.number < r.number := fun r hr => hra r.number ⟨r, hr, rfl⟩
  refine ⟨hbefore, hafter, ?_, ?_, fun n hn => by simp [List.map_append, hn]⟩
  · rw [List.map_append, List.pairwise_append]
    refine ⟨hb, ha, fun n hn m hm => ?_⟩
    exact hba n (List.mem_map.mp hn) m (.inr (List.mem_map.mp hm))
  · intro hmem
    obtain ⟨r, hr, heq⟩ := List.mem_map.mp hmem
    rcases List.mem_append.mp hr with hr | hr
    · exact absurd heq (hbefore r hr).ne
    · exact absurd heq (hafter r hr).ne'

/-- The kernel is asked about these rules, in turn. -/
def Asked (K : Rule σ → Option Direction → σ → Prop) (s : σ) (rules : List (Rule σ))
    (pollfds : List PollFd) : Prop :=
  List.Forall₂ (fun rule p => (∀ d ∈ p.events, d = rule.direction) ∧ K rule p.events s) rules
    pollfds

/-- What is left of that when rules are served: those not asked about are not. -/
def Awaits (K : Rule σ → Option Direction → σ → Prop) (s : σ) (rules : List (Rule σ))
    (pollfds : List PollFd) : Prop :=
  List.Forall₂ (fun rule p => p.events.isSome → K rule (some rule.direction) s) rules pollfds

section Asked

variable {K : Rule σ → Option Direction → σ → Prop} {rules : List (Rule σ)}
  {pollfds : List PollFd} {s s' : σ}

theorem Asked.mono (h : Asked K s rules pollfds)
    (hk : ∀ r ∈ rules, ∀ events, K r events s → K r events s') : Asked K s' rules pollfds := by
  unfold Asked at h ⊢
  induction h with
  | nil => exact .nil
  | cons hp _ ih =>
    refine .cons ⟨hp.1, hk _ List.mem_cons_self _ hp.2⟩ (ih fun r hr => ?_)
    exact hk r (List.mem_cons_of_mem _ hr)

theorem Awaits.mono (h : Awaits K s rules pollfds)
    (hk : ∀ r ∈ rules, K r (some r.direction) s → K r (some r.direction) s') :
    Awaits K s' rules pollfds := by
  unfold Awaits at h ⊢
  induction h with
  | nil => exact .nil
  | cons hp _ ih =>
    refine .cons (fun he => hk _ List.mem_cons_self (hp he)) (ih fun r hr => ?_)
    exact hk r (List.mem_cons_of_mem _ hr)

/-- The kernel sets flags only. -/
theorem Asked.answered (h : Asked K s rules pollfds) (revents : List Revents) :
    Awaits K s rules (answered pollfds revents) := by
  refine List.forall₂_iff_get.mpr ⟨?_, fun i hi hi' he => ?_⟩
  · rw [EventLoop.answered, List.length_mapIdx]
    exact h.length_eq
  · have hlen : i < pollfds.length := h.length_eq ▸ hi
    obtain ⟨hdir, hk⟩ := (List.forall₂_iff_get.mp h).2 i hi hlen
    simp only [EventLoop.answered, List.get_eq_getElem, List.getElem_mapIdx] at he hdir hk ⊢
    obtain ⟨d, hd⟩ := Option.isSome_iff_exists.mp he
    rw [hd] at hk hdir
    rwa [← hdir d rfl]

theorem Asked.none_asked (h : Asked K s rules pollfds)
    (hnone : ∀ p ∈ pollfds, p.events.isSome = false) : ∀ rule ∈ rules, K rule none s := by
  unfold Asked at h
  induction h with
  | nil => exact nofun
  | cons hp _ ih =>
    have hevents := Option.isSome_eq_false_iff.mp (hnone _ List.mem_cons_self)
    rw [Option.isNone_iff_eq_none] at hevents
    intro rule hrule
    rcases List.mem_cons.mp hrule with rfl | hrule
    · exact hevents ▸ hp.2
    · exact ih (fun p hp => hnone p (List.mem_cons_of_mem _ hp)) rule hrule

end Asked

section Serves

variable {J : List (Rule σ) → σ → Prop} {K : Rule σ → Option Direction → σ → Prop}
  {R : SystemFault → List (Rule σ) → σ → Prop} {kept rest : List (Rule σ)} {rule : Rule σ}
  {pollfds : List PollFd} {s : σ}

theorem Serves.drop (hs : Serves J K R) (h : J (kept ++ rule :: rest) s) :
    (drop kept rule rest s).Leaves
      (fun _ x => J (kept ++ rest) x.2 ∧ (∀ r ∈ kept, ∀ events, K r events s → K r events x.2) ∧
        ∀ r ∈ rest, K r (some r.direction) s → K r (some r.direction) x.2)
      (fun e x => R e x.1 x.2) := by
  have hc := hs.cancel kept rule rest s h
  unfold Outcome.Leaves at hc
  unfold EventLoop.drop
  simp only
  split <;> rename_i heq <;> rw [heq] at hc
  · exact Outcome.leaves_fail hc
  · exact Outcome.leaves_done hc

theorem Serves.service (hs : Serves J K R) (h : J (kept ++ rule :: rest) s)
    (hk : K rule (some rule.direction) s) :
    (service kept rule rest s).Leaves
      (fun _ x => J (kept ++ rule :: rest) x.2 ∧
        ∀ r ∈ rest, K r (some r.direction) s → K r (some r.direction) x.2)
      (fun e x => R e x.1 x.2) := by
  have hc := hs.callback kept rule rest s h hk
  unfold Outcome.Leaves at hc
  unfold EventLoop.service
  simp only
  split <;> rename_i heq <;> rw [heq] at hc
  · exact Outcome.leaves_fail hc
  · split
    · rename_i hbusy
      exact Outcome.leaves_fail (hc.2.2 hbusy.1 hbusy.2)
    · exact Outcome.leaves_done ⟨hc.1, hc.2.1⟩

/-- There is one answer to come for each of the rules that stay. -/
theorem Serves.set_up (hs : Serves J K R) (hasked : Asked K s kept pollfds)
    (h : J (kept ++ rest) s) :
    (setUp kept pollfds rest s).Leaves (fun fds x => Asked K x.2 x.1 fds ∧ J x.1 x.2)
      (fun e x => R e x.1 x.2) := by
  induction rest generalizing kept pollfds s with
  | nil =>
    rw [List.append_nil] at h
    exact Outcome.leaves_done ⟨hasked, h⟩
  | cons rule rest ih =>
    have hdrop := (hs.drop h).and_then (f := fun _ x => setUp kept pollfds rest x.2)
      fun _ x hx => ih (hasked.mono hx.2.1) hx.1
    rw [setUp]
    split
    · exact hdrop
    split
    · exact hdrop
    · rename_i heof hclosed
      have hk := hs.asked _ rule s (List.mem_append_right _ List.mem_cons_self) h heof hclosed
      refine ih (List.rel_append hasked (.cons ⟨?_, hk⟩ .nil)) (by simpa using h)
      split <;> simp

/-- The answers do not run out: the ones for `kept`, and for rules that are cancelled on the
way, come first. -/
theorem Serves.dispatch (hs : Serves J K R) {idx : Nat}
    (hawaits : Awaits K s rest (pollfds.drop idx)) (h : J (kept ++ rest) s) :
    (dispatch pollfds kept rest idx s).Leaves (fun _ x => J x.1 x.2) (fun e x => R e x.1 x.2) := by
  induction rest generalizing kept idx s with
  | nil =>
    rw [List.append_nil] at h
    exact Outcome.leaves_done h
  | cons rule rest ih =>
    obtain ⟨p, fds, hp, hrest, heq⟩ := List.forall₂_cons_left_iff.mp hawaits
    have hget : pollfds[idx]? = some p := by
      rw [← Nat.add_zero idx, ← List.getElem?_drop, heq, List.getElem?_cons_zero]
    have hnext : fds = pollfds.drop (idx + 1) := by
      rw [← List.tail_drop, heq, List.tail_cons]
    rw [hnext] at hrest
    rw [EventLoop.dispatch, hget]
    simp only
    split
    · exact Outcome.leaves_fail (hs.polled _ s h)
    split
    · exact (hs.drop h).and_then fun _ x hx => ih (Awaits.mono hrest hx.2.2) hx.1
    split
    · rename_i hready
      have hsome : p.events.isSome := by
        unfold PollFd.pollReady at hready
        split at hready <;> simp_all
      refine (hs.service h (hp hsome)).and_then fun _ x hx => ?_
      exact ih (Awaits.mono hrest hx.2) (by simpa using hx.1)
    · exact ih hrest (by simpa using h)

/-- One call. If there was nothing to ask the kernel about, this is known of all rules. -/
theorem Serves.wait_next_event (hs : Serves J K R) {rules : List (Rule σ)} (h : J rules s)
    {poll : Poll} :
    (waitNextEvent poll rules s).Leaves
      (fun r x => J x.1 x.2 ∧
        (r = .exit → (∀ fds, poll fds ≠ .error EINTR) → ∀ rule ∈ x.1, K rule none x.2))
      (fun e x => R e x.1 x.2) := by
  refine (hs.set_up .nil (by exact h)).and_then fun fds x hx => ?_
  obtain ⟨hasked, hx⟩ := hx
  have hall : ∀ revents : List Revents,
      ((EventLoop.dispatch (answered fds revents) [] x.1 0 x.2).andThen fun _ x =>
        (.done x .success : Outcome SystemFault _ EventLoopResult)).Leaves
        (fun r x => J x.1 x.2 ∧
          (r = .exit → (∀ fds, poll fds ≠ .error EINTR) → ∀ rule ∈ x.1, K rule none x.2))
        (fun e x => R e x.1 x.2) := by
    intro revents
    refine (hs.dispatch ?_ (by exact hx)).and_then fun _ y hy => Outcome.leaves_done ⟨hy, nofun⟩
    exact hasked.answered revents
  split
  · rename_i hnone
    refine Outcome.leaves_done ⟨hx, fun _ _ rule hrule => ?_⟩
    exact hasked.none_asked (by simpa using hnone) rule hrule
  cases hpoll : poll fds with
  | error e =>
    simp only
    split
    · rename_i hintr
      exact Outcome.leaves_done ⟨hx, fun _ hno => absurd (hintr ▸ hpoll) (hno fds)⟩
    · exact hall []
  | ok revents =>
    simp only
    split
    · exact Outcome.leaves_done ⟨hx, nofun⟩
    · exact hall revents

end Serves

/-- One call after another, as long as they return. -/
def calls : List Poll → List (Rule σ) → σ → Outcome SystemFault (List (Rule σ) × σ) Unit
  | [], rules, s => .done (rules, s) ()
  | poll :: polls, rules, s =>
    (waitNextEvent poll rules s).andThen fun _ x => calls polls x.1 x.2

theorem Serves.calls {J : List (Rule σ) → σ → Prop} {K : Rule σ → Option Direction → σ → Prop}
    {R : SystemFault → List (Rule σ) → σ → Prop} (hs : Serves J K R) {rules : List (Rule σ)}
    {s : σ} (h : J rules s) (polls : List Poll) :
    (calls polls rules s).Leaves (fun _ x => J x.1 x.2) (fun e x => R e x.1 x.2) := by
  induction polls generalizing rules s with
  | nil => exact Outcome.leaves_done h
  | cons poll polls ih => exact (hs.wait_next_event h).and_then fun _ x hx => ih hx.1

end EventLoop

end Sponge
