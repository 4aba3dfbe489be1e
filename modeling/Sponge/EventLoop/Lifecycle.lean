import Sponge.EventLoop.Serving

namespace Sponge

/-- What happens to a rule. -/
inductive RuleEvent where
  | called
  | cancelled
  deriving DecidableEq, Repr

/-- The rule as it is, with a record of what happens to it. -/
def Rule.logged {σ : Type} (rule : Rule σ) : Rule (σ × List (Nat × RuleEvent)) where
  number := rule.number
  fd := fun x => rule.fd x.1
  direction := rule.direction
  callback := fun x =>
    let o := rule.callback x.1
    ⟨o.result, (o.state, x.2 ++ [(rule.number, .called)])⟩
  interest := fun x => rule.interest x.1
  cancel := fun x =>
    let o := rule.cancel x.1
    ⟨o.result, (o.state, x.2 ++ [(rule.number, .cancelled)])⟩

section Logged

variable {σ : Type} (rule : Rule σ) (x : σ × List (Nat × RuleEvent))

@[simp] theorem Rule.logged_callback : rule.logged.callback x =
    ⟨(rule.callback x.1).result, ((rule.callback x.1).state, x.2 ++ [(rule.number, .called)])⟩ :=
  rfl

@[simp] theorem Rule.logged_cancel : rule.logged.cancel x =
    ⟨(rule.cancel x.1).result, ((rule.cancel x.1).state, x.2 ++ [(rule.number, .cancelled)])⟩ :=
  rfl

theorem Rule.logged_injective {σ : Type} : Function.Injective (Rule.logged (σ := σ)) :=
  Function.LeftInverse.injective (g := fun r =>
    { number := r.number
      fd := fun s => r.fd (s, [])
      direction := r.direction
      callback := fun s => ⟨(r.callback (s, [])).result, (r.callback (s, [])).state.1⟩
      interest := fun s => r.interest (s, [])
      cancel := fun s => ⟨(r.cancel (s, [])).result, (r.cancel (s, [])).state.1⟩ }) fun _ => rfl

end Logged

namespace EventLoop

variable {σ : Type}

/-- What has happened to the rule with this number. -/
def history (n : Nat) (log : List (Nat × RuleEvent)) : List RuleEvent :=
  (log.filter (·.1 = n)).map (·.2)

theorem history_append (n m : Nat) (e : RuleEvent) (log : List (Nat × RuleEvent)) :
    history n (log ++ [(m, e)]) = history n log ++ (if m = n then [e] else []) := by
  by_cases hm : m = n <;> simp [history, hm]

/-- A rule that is there has not been cancelled; one that is not there was, and nothing has
happened to it since. -/
structure Tracked (rules live : List (Rule σ)) (log : List (Nat × RuleEvent)) : Prop where
  left : live.Sublist rules
  present : ∀ rule ∈ live, .cancelled ∉ history rule.number log
  absent : ∀ rule ∈ rules, rule ∉ live → .cancelled ∈ history rule.number log
  last : ∀ n, .cancelled ∉ (history n log).dropLast

section Tracked

variable {rules live before after : List (Rule σ)} {log : List (Nat × RuleEvent)} {rule : Rule σ}

/-- Whatever the event, it is the first one after which the rule may be cancelled. -/
theorem Tracked.last_append (h : Tracked rules live log) (hrule : rule ∈ live) (e : RuleEvent)
    (n : Nat) : .cancelled ∉ (history n (log ++ [(rule.number, e)])).dropLast := by
  rw [history_append]
  split
  · rename_i hn
    rw [List.dropLast_concat, ← hn]
    exact h.present rule hrule
  · rw [List.append_nil]
    exact h.last n

theorem Tracked.called (h : Tracked rules live log) (hrule : rule ∈ live) :
    Tracked rules live (log ++ [(rule.number, .called)]) := by
  refine ⟨h.left, fun r hr => ?_, fun r hr hout => ?_, h.last_append hrule .called⟩
  · have hold := h.present r hr
    rw [history_append]
    split <;> simp [hold]
  · rw [history_append]
    exact List.mem_append_left _ (h.absent r hr hout)

theorem Tracked.cancelled (h : Tracked rules (before ++ rule :: after) log)
    (hn : (rules.map Rule.number).Nodup) :
    Tracked rules (before ++ after) (log ++ [(rule.number, .cancelled)]) := by
  have hrule : rule ∈ before ++ rule :: after := List.mem_append_right _ List.mem_cons_self
  have hsub : (before ++ after).Sublist (before ++ rule :: after) :=
    (List.Sublist.refl before).append (List.sublist_cons_self rule after)
  -- no other rule has this number
  have hnodup : ((before ++ rule :: after).map Rule.number).Nodup := hn.sublist (h.left.map _)
  have hother : ∀ r ∈ before ++ after, r.number ≠ rule.number := by
    have hperm : (before ++ rule :: after).Perm (rule :: (before ++ after)) := List.perm_middle
    have hcons := (hperm.map Rule.number).nodup_iff.mp hnodup
    rw [List.map_cons, List.nodup_cons] at hcons
    intro r hr heq
    exact hcons.1 (heq ▸ List.mem_map_of_mem hr)
  refine ⟨hsub.trans h.left, fun r hr => ?_, fun r hr hout => ?_, h.last_append hrule .cancelled⟩
  · rw [history_append, if_neg (hother r hr).symm, List.append_nil]
    exact h.present r (hsub.subset hr)
  · rw [history_append]
    by_cases heq : r = rule
    · rw [heq]
      simp
    · refine List.mem_append_left _ (h.absent r hr fun hin => hout ?_)
      rcases List.mem_append.mp hin with hin | hin
      · exact List.mem_append_left _ hin
      · exact List.mem_append_right _ ((List.mem_cons.mp hin).resolve_left heq)

theorem new_tracked (rules : List (Rule σ)) : Tracked rules rules [] :=
  ⟨.refl _, fun _ _ => List.not_mem_nil, fun _ hr hout => absurd hr hout, fun _ => List.not_mem_nil⟩

/-- The record that the rules keep is right. -/
theorem logged_serves (hn : (rules.map Rule.number).Nodup) :
    Serves (fun rs (x : σ × List (Nat × RuleEvent)) =>
        ∃ live : List (Rule σ), rs = live.map Rule.logged ∧ Tracked rules live x.2)
      (fun _ _ _ => True)
      (fun _ rs x => ∃ live : List (Rule σ), rs = live.map Rule.logged ∧ live.Sublist rules ∧
        ∀ n, .cancelled ∉ (history n x.2).dropLast) where
  asked := fun _ _ _ _ _ _ _ => trivial
  callback := by
    rintro before _ after x ⟨live, heq, h⟩ -
    obtain ⟨live₁, tail, rfl, rfl, htail⟩ := List.map_eq_append_iff.mp heq.symm
    obtain ⟨rule, live₂, rfl, rfl, rfl⟩ := List.map_eq_cons_iff.mp htail
    have hcalled := h.called (List.mem_append_right _ List.mem_cons_self)
    have hrules : live₁.map Rule.logged ++ rule.logged :: live₂.map Rule.logged =
        (live₁ ++ rule :: live₂).map Rule.logged := by simp
    unfold Outcome.Leaves
    simp only [Rule.logged_callback]
    split
    · exact ⟨⟨_, hrules, hcalled⟩, fun _ _ _ => trivial, fun _ _ => ⟨_, hrules, h.left, hcalled.last⟩⟩
    · exact ⟨_, hrules, h.left, hcalled.last⟩
  cancel := by
    rintro before _ after x ⟨live, heq, h⟩
    obtain ⟨live₁, tail, rfl, rfl, htail⟩ := List.map_eq_append_iff.mp heq.symm
    obtain ⟨rule, live₂, rfl, rfl, rfl⟩ := List.map_eq_cons_iff.mp htail
    have hcancelled := h.cancelled hn
    unfold Outcome.Leaves
    simp only [Rule.logged_cancel]
    split
    · exact ⟨⟨live₁ ++ live₂, by simp, hcancelled⟩, fun _ _ _ _ => trivial, fun _ _ _ => trivial⟩
    · exact ⟨live₁ ++ rule :: live₂, by simp, h.left, hcancelled.last⟩
  polled := by
    rintro _ x ⟨live, rfl, h⟩
    exact ⟨live, rfl, h.left, h.last⟩

end Tracked

section Follows

variable {α β : Type}

/-- The loop with the record does what the one without does. -/
structure Follows
    (o' : Outcome SystemFault
      (List (Rule (σ × List (Nat × RuleEvent))) × σ × List (Nat × RuleEvent)) α)
    (o : Outcome SystemFault (List (Rule σ) × σ) α) : Prop where
  result : o'.result = o.result
  rules : o'.state.1 = o.state.1.map Rule.logged
  state : o'.state.2.1 = o.state.2

theorem Follows.and_then
    {o' : Outcome SystemFault
      (List (Rule (σ × List (Nat × RuleEvent))) × σ × List (Nat × RuleEvent)) α}
    {o : Outcome SystemFault (List (Rule σ) × σ) α}
    {f' : α → List (Rule (σ × List (Nat × RuleEvent))) × σ × List (Nat × RuleEvent) →
      Outcome SystemFault
        (List (Rule (σ × List (Nat × RuleEvent))) × σ × List (Nat × RuleEvent)) β}
    {f : α → List (Rule σ) × σ → Outcome SystemFault (List (Rule σ) × σ) β} (h : Follows o' o)
    (hf : ∀ a rules s log, Follows (f' a (rules.map Rule.logged, s, log)) (f a (rules, s))) :
    Follows (o'.andThen f') (o.andThen f) := by
  obtain ⟨result', rules', s', log⟩ := o'
  obtain ⟨result, rules, s⟩ := o
  obtain ⟨hr, hrules, hs⟩ := h
  simp only at hr hrules hs
  subst hr hrules hs
  cases result' with
  | ok a => exact hf a rules s' log
  | error e => exact ⟨rfl, rfl, rfl⟩

variable {kept rest : List (Rule σ)} {s : σ}

theorem drop_follows (kept : List (Rule σ)) (rule : Rule σ) (rest : List (Rule σ)) (s : σ)
    (log : List (Nat × RuleEvent)) :
    Follows (drop (kept.map Rule.logged) rule.logged (rest.map Rule.logged) (s, log))
      (drop kept rule rest s) := by
  unfold drop
  simp only [Rule.logged_cancel]
  split
  · exact ⟨rfl, by simp [Outcome.fail], rfl⟩
  · exact ⟨rfl, by simp [Outcome.done], rfl⟩

theorem service_follows (kept : List (Rule σ)) (rule : Rule σ) (rest : List (Rule σ)) (s : σ)
    (log : List (Nat × RuleEvent)) :
    Follows (service (kept.map Rule.logged) rule.logged (rest.map Rule.logged) (s, log))
      (service kept rule rest s) := by
  have hresult : (rule.logged.callback (s, log)).result = (rule.callback s).result := rfl
  rw [service, service, hresult]
  split
  · exact ⟨rfl, by simp [Outcome.fail], rfl⟩
  · by_cases hbusy : rule.serviceCount s = rule.serviceCount (rule.callback s).state ∧
        rule.interest (rule.callback s).state = true
    · rw [if_pos hbusy, if_pos (by exact hbusy)]
      exact ⟨rfl, by simp [Outcome.fail], rfl⟩
    · rw [if_neg hbusy, if_neg (by exact hbusy)]
      exact ⟨rfl, by simp [Outcome.done], rfl⟩

theorem set_up_follows (kept rest : List (Rule σ)) (pollfds : List PollFd) (s : σ)
    (log : List (Nat × RuleEvent)) :
    Follows (setUp (kept.map Rule.logged) pollfds (rest.map Rule.logged) (s, log))
      (setUp kept pollfds rest s) := by
  induction rest generalizing kept pollfds s log with
  | nil => exact ⟨rfl, rfl, rfl⟩
  | cons rule rest ih =>
    have hdrop : Follows
        ((drop (kept.map Rule.logged) rule.logged (rest.map Rule.logged) (s, log)).andThen
          fun _ x => setUp (kept.map Rule.logged) pollfds (rest.map Rule.logged) x.2)
        ((drop kept rule rest s).andThen fun _ x => setUp kept pollfds rest x.2) :=
      (drop_follows kept rule rest s log).and_then fun _ _ s log => ih kept pollfds s log
    rw [List.map_cons, setUp, setUp]
    by_cases heof : rule.direction = .In ∧ (rule.fd s).eof
    · rwa [if_pos heof, if_pos (by exact heof)]
    rw [if_neg heof, if_neg (by exact heof)]
    by_cases hclosed : (rule.fd s).closed
    · rwa [if_pos hclosed, if_pos (by exact hclosed)]
    · rw [if_neg hclosed, if_neg (by exact hclosed)]
      have hnext := ih (kept ++ [rule])
          (pollfds ++ [{ events := if rule.interest s then some rule.direction else none }]) s log
      rwa [List.map_append, List.map_cons, List.map_nil] at hnext

theorem dispatch_follows (pollfds : List PollFd) (kept rest : List (Rule σ)) (idx : Nat) (s : σ)
    (log : List (Nat × RuleEvent)) :
    Follows (dispatch pollfds (kept.map Rule.logged) (rest.map Rule.logged) idx (s, log))
      (dispatch pollfds kept rest idx s) := by
  induction rest generalizing kept idx s log with
  | nil => exact ⟨rfl, rfl, rfl⟩
  | cons rule rest ih =>
    have hkept : ∀ s log, Follows (dispatch pollfds (kept.map Rule.logged ++ [rule.logged])
        (rest.map Rule.logged) (idx + 1) (s, log))
        (dispatch pollfds (kept ++ [rule]) rest (idx + 1) s) := by
      intro s log
      have hnext := ih (kept ++ [rule]) (idx + 1) s log
      rwa [List.map_append, List.map_cons, List.map_nil] at hnext
    rw [List.map_cons, dispatch, dispatch]
    cases pollfds[idx]? with
    | none => exact ⟨rfl, by simp [Outcome.fail], rfl⟩
    | some p =>
      simp only
      split
      · exact ⟨rfl, by simp [Outcome.fail], rfl⟩
      split
      · exact (drop_follows kept rule rest s log).and_then fun _ _ s log => ih kept (idx + 1) s log
      split
      · exact (service_follows kept rule rest s log).and_then fun _ _ s log => hkept s log
      · exact hkept s log

theorem wait_next_event_follows (poll : Poll) (rules : List (Rule σ)) (s : σ)
    (log : List (Nat × RuleEvent)) :
    Follows (waitNextEvent poll (rules.map Rule.logged) (s, log)) (waitNextEvent poll rules s) := by
  refine (set_up_follows [] rules [] s log).and_then fun fds rules s log => ?_
  have hall : ∀ revents : List Revents, Follows
      ((dispatch (answered fds revents) [] (rules.map Rule.logged) 0 (s, log)).andThen
        fun _ x => .done x EventLoopResult.success)
      ((dispatch (answered fds revents) [] rules 0 s).andThen fun _ x => .done x .success) :=
    fun revents => (dispatch_follows (answered fds revents) [] rules 0 s log).and_then
      fun _ _ _ _ => ⟨rfl, rfl, rfl⟩
  split
  · exact ⟨rfl, rfl, rfl⟩
  cases poll fds with
  | error e =>
    simp only
    split
    · exact ⟨rfl, rfl, rfl⟩
    · exact hall []
  | ok revents =>
    simp only
    split
    · exact ⟨rfl, rfl, rfl⟩
    · exact hall revents

theorem calls_follow (polls : List Poll) (rules : List (Rule σ)) (s : σ)
    (log : List (Nat × RuleEvent)) :
    Follows (calls polls (rules.map Rule.logged) (s, log)) (calls polls rules s) := by
  induction polls generalizing rules s log with
  | nil => exact ⟨rfl, rfl, rfl⟩
  | cons poll polls ih =>
    exact (wait_next_event_follows poll rules s log).and_then fun _ rules s log => ih rules s log

end Follows

/-- Over any number of calls, up to the first that throws, and whatever the kernel and the
callbacks do: the rules that are left are in their order, a rule is taken out just when its
`cancel` has been called, and nothing is called of it afterwards. A `cancel` that throws ends the
calls with its rule still in the list. The record is only kept to say so. -/
theorem cancelled_for_good (l : EventLoop σ) (s : σ) (polls : List Poll) :
    let o := calls polls l.rules s
    ∃ log, calls polls (l.rules.map Rule.logged) (s, []) =
        ⟨o.result, (o.state.1.map Rule.logged, o.state.2, log)⟩ ∧
      o.state.1.Sublist l.rules ∧ (∀ n, .cancelled ∉ (history n log).dropLast) ∧
      (o.result = .ok () → ∀ rule ∈ l.rules,
        rule ∉ o.state.1 ↔ .cancelled ∈ history rule.number log) := by
  intro o
  obtain ⟨hresult, hrules, hstate⟩ : Follows _ o := calls_follow polls l.rules s []
  have hleaves := (logged_serves (l.ordered.imp Nat.ne_of_lt)).calls (s := (s, []))
    ⟨l.rules, rfl, new_tracked l.rules⟩ polls
  -- the record's own list of rules is the list of the loop
  have hlive : ∀ live : List (Rule σ),
      (calls polls (l.rules.map Rule.logged) (s, [])).state.1 = live.map Rule.logged →
      live = o.state.1 :=
    fun live h => Rule.logged_injective.list_map (h.symm.trans hrules)
  refine ⟨(calls polls (l.rules.map Rule.logged) (s, [])).state.2.2, ?_, ?_⟩
  · rw [← hresult, ← hrules, ← hstate]
  rw [Outcome.Leaves, hresult] at hleaves
  cases hr : o.result with
  | error e =>
    rw [hr] at hleaves
    obtain ⟨live, heq, hleft, hlast⟩ := hleaves
    refine ⟨hlive live heq ▸ hleft, hlast, fun hok => ?_⟩
    cases hok
  | ok _ =>
    rw [hr] at hleaves
    obtain ⟨live, heq, h⟩ := hleaves
    rw [← hlive live heq]
    exact ⟨h.left, h.last, fun _ rule hrule =>
      ⟨h.absent rule hrule, fun hin hlive => h.present rule hlive hin⟩⟩

end EventLoop

end Sponge
