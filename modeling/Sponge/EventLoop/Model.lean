import Sponge.Descriptor

namespace Sponge

/-- `POLLIN` and `POLLOUT`. -/
inductive Direction where
  | In
  | Out
  deriving DecidableEq, Repr

/-- What is done with a descriptor when it is ready. The callbacks act on the state of the
program that the loop is part of, in which the descriptor is found; `number` tells the rules
apart. That state has no rules in it, and `interest` does not change it: as everywhere in the
repository, no callback adds a rule, and asking for the interest has no effect. -/
structure Rule (σ : Type) where
  number : Nat
  fd : σ → FileDescriptor
  direction : Direction
  callback : σ → Outcome SystemFault σ Unit
  interest : σ → Bool
  cancel : σ → Outcome SystemFault σ Unit

/-- The flags that `poll(2)` returns for a descriptor. -/
structure Revents where
  pollin : Bool := false
  pollout : Bool := false
  pollerr : Bool := false
  pollhup : Bool := false
  pollnval : Bool := false
  deriving DecidableEq, Repr

structure PollFd where
  events : Option Direction
  revents : Revents := {}
  deriving DecidableEq, Repr

namespace PollFd

/-- `revents & (POLLERR | POLLNVAL)` -/
def pollError (p : PollFd) : Bool := p.revents.pollerr || p.revents.pollnval

/-- `revents & events` -/
def pollReady (p : PollFd) : Bool :=
  match p.events with
  | none => false
  | some .In => p.revents.pollin
  | some .Out => p.revents.pollout

end PollFd

/-- The kernel's answer to `poll(2)`: an error, or flags for the descriptors in turn. -/
abbrev Poll := List PollFd → Except Errno (List Revents)

def EINTR : Errno := 4

inductive EventLoopResult where
  | success
  | timeout
  | exit
  deriving DecidableEq, Repr

/-- The rules in the order in which they were added; their numbers count them. -/
structure EventLoop (σ : Type) where
  rules : List (Rule σ) := []
  added : Nat := 0
  numbered : ∀ rule ∈ rules, rule.number < added := by simp
  ordered : (rules.map Rule.number).Pairwise (· < ·) := by simp

/-- How many times the descriptor of a rule has been read or written. -/
def Rule.serviceCount {σ : Type} (rule : Rule σ) (s : σ) : UInt32 :=
  match rule.direction with
  | .In => (rule.fd s).readCount
  | .Out => (rule.fd s).writeCount

namespace EventLoop

variable {σ : Type}

def busyWait : SystemFault :=
  .thrown (.runtimeError
    "EventLoop: busy wait detected: callback did not read/write fd and is still interested")

def polledError : SystemFault :=
  .thrown (.runtimeError "EventLoop: error on polled file descriptor")

def addRule (l : EventLoop σ) (fd : σ → FileDescriptor) (direction : Direction)
    (callback : σ → Outcome SystemFault σ Unit) (interest : σ → Bool := fun _ => true)
    (cancel : σ → Outcome SystemFault σ Unit := fun s => .done s ()) : EventLoop σ :=
  { rules := l.rules ++ [{ number := l.added, fd, direction, callback, interest, cancel }]
    added := l.added + 1
    numbered := by
      intro rule hrule
      rcases List.mem_append.mp hrule with hold | hnew
      · exact (l.numbered rule hold).trans (Nat.lt_succ_self _)
      · rw [List.mem_singleton.mp hnew]
        exact Nat.lt_succ_self _
    ordered := by
      rw [List.map_append, List.map_singleton]
      refine List.pairwise_append.mpr ⟨l.ordered, List.pairwise_singleton _ _, fun n hn m hm => ?_⟩
      obtain ⟨rule, hrule, rfl⟩ := List.mem_map.mp hn
      rw [List.mem_singleton.mp hm]
      exact l.numbered rule hrule }

/-- The rule is cancelled and taken out of the list; if its callback throws it is still
there. -/
def drop (kept : List (Rule σ)) (rule : Rule σ) (rest : List (Rule σ)) (s : σ) :
    Outcome SystemFault (List (Rule σ) × σ) Unit :=
  let o := rule.cancel s
  match o.result with
  | .error e => .fail (kept ++ rule :: rest, o.state) e
  | .ok _ => .done (kept ++ rest, o.state) ()

/-- The first loop: the rules that stay, `kept` before this point, and what to ask the kernel
for each of them. -/
def setUp (kept : List (Rule σ)) (pollfds : List PollFd) : List (Rule σ) → σ →
    Outcome SystemFault (List (Rule σ) × σ) (List PollFd)
  | [], s => .done (kept, s) pollfds
  | rule :: rest, s =>
    if rule.direction = .In ∧ (rule.fd s).eof then
      (drop kept rule rest s).andThen fun _ x => setUp kept pollfds rest x.2
    else if (rule.fd s).closed then
      (drop kept rule rest s).andThen fun _ x => setUp kept pollfds rest x.2
    else
      let events := if rule.interest s then some rule.direction else none
      setUp (kept ++ [rule]) (pollfds ++ [{ events }]) rest s

/-- A callback is run and must have read or written the descriptor, or lost its interest. -/
def service (kept : List (Rule σ)) (rule : Rule σ) (rest : List (Rule σ)) (s : σ) :
    Outcome SystemFault (List (Rule σ) × σ) Unit :=
  let countBefore := rule.serviceCount s
  let o := rule.callback s
  let rules := kept ++ rule :: rest
  match o.result with
  | .error e => .fail (rules, o.state) e
  | .ok _ =>
    if countBefore = rule.serviceCount o.state ∧ rule.interest o.state then
      .fail (rules, o.state) busyWait
    else .done (rules, o.state) ()

/-- The second loop: the answer at `idx` is looked at for the next rule. -/
def dispatch (pollfds : List PollFd) (kept : List (Rule σ)) : List (Rule σ) → Nat → σ →
    Outcome SystemFault (List (Rule σ) × σ) Unit
  | [], _, s => .done (kept, s) ()
  | rule :: rest, idx, s =>
    match pollfds[idx]? with
    | none => .fail (kept ++ rule :: rest, s) (.thrown .undefined)
    | some p =>
      if p.pollError then .fail (kept ++ rule :: rest, s) polledError
      else if p.revents.pollhup ∧ p.events.isSome ∧ ¬ p.pollReady then
        (drop kept rule rest s).andThen fun _ x => dispatch pollfds kept rest (idx + 1) x.2
      else if p.pollReady then
        (service kept rule rest s).andThen fun _ x =>
          dispatch pollfds (kept ++ [rule]) rest (idx + 1) x.2
      else dispatch pollfds (kept ++ [rule]) rest (idx + 1) s

/-- The descriptors with the flags that the kernel has set. -/
def answered (pollfds : List PollFd) (revents : List Revents) : List PollFd :=
  pollfds.mapIdx fun i p => { p with revents := revents[i]?.getD {} }

/-- Wait for events and run the callbacks. An error of `poll(2)` other than `EINTR` is caught and
nothing is done about it: no flag is set then. -/
def waitNextEvent (poll : Poll) (rules : List (Rule σ)) (s : σ) :
    Outcome SystemFault (List (Rule σ) × σ) EventLoopResult :=
  (setUp [] [] rules s).andThen fun pollfds x =>
    if ¬ pollfds.any (·.events.isSome) then .done x .exit
    else
      match poll pollfds with
      | .error e =>
        if e = EINTR then .done x .exit
        else (dispatch (answered pollfds []) [] x.1 0 x.2).andThen fun _ x => .done x .success
      | .ok revents =>
        if (answered pollfds revents).all (·.revents = {}) then .done x .timeout
        else (dispatch (answered pollfds revents) [] x.1 0 x.2).andThen fun _ x =>
          .done x .success

end EventLoop

end Sponge
