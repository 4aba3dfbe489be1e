import Sponge.Socket.Life

namespace Sponge

namespace TCPSpongeSocket

/-- Where a thread is: in one of its loops, out of it, or ended by an exception. -/
inductive Phase where
  | looping
  | left
  | failed
  deriving DecidableEq, Repr

/-- What drives a socket, one turn of the loop at a time. -/
structure Thread (α : Type) where
  rules : List (Rule (TCPSpongeSocket α))
  socket : TCPSpongeSocket α
  baseTime : UInt64
  phase : Phase := .looping

/-- A turn of the loop, or the beginning of the next loop at this time. -/
inductive ThreadUse where
  | turn (r : Round)
  | enter (now : UInt64)

namespace Thread

section Step

variable {α : Type} [FdAdapter α]

/-- The thread as a turn leaves it. -/
def after (t : Thread α)
    (o : Outcome SystemFault (List (Rule (TCPSpongeSocket α)) × TCPSpongeSocket α)
      (Option UInt64)) : Thread α where
  rules := o.state.1
  socket := o.state.2
  baseTime :=
    match o.result with
    | .ok (some now) => now
    | _ => t.baseTime
  phase :=
    match o.result with
    | .ok (some _) => .looping
    | .ok none => .left
    | .error _ => .failed

def step (t : Thread α) : ThreadUse → Thread α
  | .turn r => if t.phase = .looping then t.after (turn r t.baseTime t.rules t.socket) else t
  | .enter now => if t.phase = .failed then t else { t with baseTime := now, phase := .looping }

/-- A socket that connects, or that listens for a connection. -/
def opened (opening : Opening) (threadData : FileDescriptor) (datagramAdapter : α)
    (cTcp : TCPConfig) (random : WrappingInt32) (cAd : FdAdapterConfig) (now : UInt64) :
    Thread α where
  rules := eventloop.rules
  socket :=
    match opening with
    | .active =>
      (fresh threadData (FdAdapter.setConfig datagramAdapter cAd) cTcp random).act .connect
    | .passive =>
      fresh threadData (FdAdapter.setListening (FdAdapter.setConfig datagramAdapter cAd) true) cTcp
        random
  baseTime := now

end Step

section Runs

variable {α : Type} [FdAdapter α]

/-- The thread has come to what a loop leaves. -/
structure Reaches (t : Thread α)
    (o : Outcome SystemFault (List (Rule (TCPSpongeSocket α)) × TCPSpongeSocket α) Bool) :
    Prop where
  rules : t.rules = o.state.1
  socket : t.socket = o.state.2
  failed : t.phase = .failed ↔ ∃ e, o.result = .error e

omit [FdAdapter α] in
theorem after_reaches {t : Thread α}
    {o : Outcome SystemFault (List (Rule (TCPSpongeSocket α)) × TCPSpongeSocket α)
      (Option UInt64)}
    {o' : Outcome SystemFault (List (Rule (TCPSpongeSocket α)) × TCPSpongeSocket α) Bool}
    (hstate : o'.state = o.state)
    (hfail : (∃ e, o.result = .error e) ↔ ∃ e, o'.result = .error e) :
    (t.after o).Reaches o' := by
  refine ⟨by rw [hstate]; rfl, by rw [hstate]; rfl, Iff.trans ?_ hfail⟩
  cases hr : o.result with
  | error e => simp [after, hr]
  | ok next => cases next <;> simp [after, hr]

/-- A loop is a run of its turns. -/
theorem tcp_loop_runs (condition : TCPSpongeSocket α → Bool) (rounds : List Round)
    {t : Thread α} (ht : t.phase = .looping) :
    ∃ us, (Run.final step t us).Reaches
      (tcpLoop condition rounds t.baseTime t.rules t.socket) := by
  induction rounds generalizing t with
  | nil => exact ⟨[], rfl, rfl, by simp [tcpLoop, ht]⟩
  | cons r rounds ih =>
    rw [tcpLoop]
    split
    · have hstep : t.step (.turn r) = t.after (turn r t.baseTime t.rules t.socket) := if_pos ht
      cases hr : (turn r t.baseTime t.rules t.socket).result with
      | error e =>
        refine ⟨[.turn r], ?_⟩
        rw [Outcome.and_then_error hr, Run.final_cons, hstep]
        exact after_reaches rfl (by simp [hr])
      | ok next =>
        rw [Outcome.and_then_ok hr]
        cases next with
        | none =>
          refine ⟨[.turn r], ?_⟩
          rw [Run.final_cons, hstep]
          exact after_reaches rfl (by simp [hr])
        | some now =>
          have hnext : (t.after (turn r t.baseTime t.rules t.socket)).phase = .looping ∧
              (t.after (turn r t.baseTime t.rules t.socket)).baseTime = now := by
            simp [after, hr]
          obtain ⟨us, hus⟩ := ih hnext.1
          refine ⟨.turn r :: us, ?_⟩
          rw [Run.final_cons, hstep]
          rw [hnext.2] at hus
          exact hus
    · exact ⟨[], rfl, rfl, by simp [ht]⟩

/-- The next loop is entered, whatever has ended the last one but an exception. -/
theorem Reaches.enter {t : Thread α}
    {o : Outcome SystemFault (List (Rule (TCPSpongeSocket α)) × TCPSpongeSocket α) Bool}
    {ended : Bool} (h : t.Reaches o) (hr : o.result = .ok ended) (now : UInt64) :
    t.step (.enter now) =
      { rules := o.state.1, socket := o.state.2, baseTime := now, phase := .looping } := by
  have hgoes : t.phase ≠ .failed := by
    intro hfailed
    obtain ⟨e, he⟩ := h.failed.mp hfailed
    rw [hr] at he
    cases he
  rw [step, if_neg hgoes, h.rules, h.socket]

/-- The life of a socket is a run of its thread, from when the connection is opened. -/
theorem life_runs {threadData f : FileDescriptor} (hf : threadData.setBlocking = .done f ())
    (datagramAdapter : α) (cTcp : TCPConfig) (random : WrappingInt32) (cAd : FdAdapterConfig)
    (opening : Opening) (start main : UInt64 × List Round) :
    ∃ us, (Run.final step (opened opening f datagramAdapter cTcp random cAd start.1) us).Reaches
      (life threadData datagramAdapter cTcp random cAd opening start main) := by
  obtain ⟨o, us, hlife, hus⟩ : ∃ o us,
      life threadData datagramAdapter cTcp random cAd opening start main =
        o.andThen (fun done x => if done then tcpMain main.1 main.2 x.1 x.2 else .done x false) ∧
      (Run.final step (opened opening f datagramAdapter cTcp random cAd start.1) us).Reaches o := by
    unfold life TCPSpongeSocket.start
    rw [hf]
    cases opening with
    | active =>
      obtain ⟨us, hus⟩ := tcp_loop_runs (fun s => s.tcp.conn.state = .ofState .synSent) start.2
        (t := opened .active f datagramAdapter cTcp random cAd start.1) rfl
      refine ⟨_, us, ?_, hus⟩
      rw [Outcome.into_and_then_ok rfl]
      dsimp only [Outcome.state_done]
      rw [connect_eq]
      rfl
    | passive =>
      obtain ⟨us, hus⟩ := tcp_loop_runs (fun s => s.tcp.conn.state = .ofState .listen ||
          s.tcp.conn.state = .ofState .synRcvd || s.tcp.conn.state = .ofState .synSent) start.2
        (t := opened .passive f datagramAdapter cTcp random cAd start.1) rfl
      exact ⟨_, us, rfl, hus⟩
  rw [hlife]
  cases hr : o.result with
  | error e =>
    refine ⟨us, ?_⟩
    rw [Outcome.and_then_error hr]
    exact ⟨hus.rules, hus.socket, hus.failed.trans (by simp [hr])⟩
  | ok ended =>
    rw [Outcome.and_then_ok hr]
    cases ended with
    | false =>
      refine ⟨us, hus.rules, hus.socket, hus.failed.trans (by simp [hr])⟩
    | true =>
      obtain ⟨vs, hvs⟩ := tcp_loop_runs (fun _ => true) main.2 (t := ⟨o.state.1, o.state.2, main.1,
        .looping⟩) rfl
      refine ⟨us ++ .enter main.1 :: vs, ?_⟩
      rw [Run.final_append, Run.final_cons, hus.enter hr]
      exact hvs

end Runs

section Kept

variable {α : Type} [FdAdapter α] {I I' : α → Endpoint → Nat → Prop} {got₀ put₀ : Bytes}
  {t : Thread α}

/-- The socket is in order as long as nothing was thrown, and what an exception has left of it is
in order as well. -/
structure Kept (I : α → Endpoint → Nat → Prop) (got₀ put₀ : Bytes) (t : Thread α) : Prop where
  serving : t.phase ≠ .failed → Serving I got₀ put₀ t.rules t.socket
  broken : t.phase = .failed → ∃ e, Broken I got₀ put₀ e t.socket

theorem Kept.core (h : Kept I got₀ put₀ t) :
    I t.socket.datagramAdapter t.socket.tcp t.socket.popped := by
  by_cases hf : t.phase = .failed
  · obtain ⟨e, he⟩ := h.broken hf
    exact he.core
  · exact (h.serving hf).served.core

theorem Kept.got (h : Kept I got₀ put₀ t) :
    got₀ ++ t.socket.tcp.accepted <+: t.socket.threadData.got.flatten := by
  by_cases hf : t.phase = .failed
  · obtain ⟨e, he⟩ := h.broken hf
    exact he.got
  · rw [(h.serving hf).served.got]

theorem Kept.put (h : Kept I got₀ put₀ t) :
    t.socket.threadData.put.flatten <+:
      put₀ ++ (t.socket.tcp.taken ++ t.socket.tcp.conn.inboundStream.buffer) := by
  by_cases hf : t.phase = .failed
  · obtain ⟨e, he⟩ := h.broken hf
    exact he.put
  · rw [(h.serving hf).served.put, ← List.append_assoc]
    exact List.prefix_append _ _

/-- Another view of adapter and connection, if it is right at this time. -/
theorem Kept.view (h : Kept I got₀ put₀ t)
    (hnow : I' t.socket.datagramAdapter t.socket.tcp t.socket.popped) : Kept I' got₀ put₀ t where
  serving := fun hf =>
    let hs := h.serving hf
    ⟨hs.left, hs.ordered, hnow, hs.served.coupled, hs.served.got, hs.served.put⟩
  broken := fun hf => by
    obtain ⟨e, he⟩ := h.broken hf
    exact ⟨e, he.fault, hnow, he.got, he.put⟩

theorem Kept.step (hI : Drives I) (h : Kept I got₀ put₀ t) (u : ThreadUse) :
    Kept I got₀ put₀ (t.step u) := by
  cases u with
  | turn r =>
    rw [Thread.step]
    split
    · rename_i hloop
      have hturn := (h.serving (by simp [hloop])).turn hI r t.baseTime
      cases hr : (TCPSpongeSocket.turn r t.baseTime t.rules t.socket).result with
      | error e =>
        rw [Outcome.Leaves, hr] at hturn
        exact ⟨fun hf => absurd (by simp [after, hr]) hf, fun _ => ⟨e, hturn⟩⟩
      | ok next =>
        rw [Outcome.Leaves, hr] at hturn
        refine ⟨fun _ => hturn.1, fun hf => ?_⟩
        cases next <;> simp [after, hr] at hf
    · exact h
  | enter now =>
    rw [Thread.step]
    split
    · exact h
    · rename_i hf
      exact ⟨fun _ => h.serving hf, by simp⟩

/-- A thread starts in order, if adapter and connection do. -/
theorem opened_kept (hI : Drives I) {opening : Opening} {f : FileDescriptor} {a : α}
    {cTcp : TCPConfig} {random : WrappingInt32} {cAd : FdAdapterConfig} {now : UInt64}
    (hactive : I (FdAdapter.setConfig a cAd) (.new cTcp random) 0)
    (hpassive : I (FdAdapter.setListening (FdAdapter.setConfig a cAd) true) (.new cTcp random) 0) :
    Kept I f.got.flatten f.put.flatten (opened opening f a cTcp random cAd now) := by
  refine ⟨fun _ => ?_, by simp [opened]⟩
  cases opening with
  | active =>
    have hserving := fresh_serving (f := f) hactive rfl rfl
    exact ⟨hserving.left, hserving.ordered,
      hserving.served.act hI (v := .connect) trivial rfl (by simp) rfl rfl⟩
  | passive => exact fresh_serving (f := f) hpassive rfl rfl

end Kept

end Thread

end TCPSpongeSocket

end Sponge
