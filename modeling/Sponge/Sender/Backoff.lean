import Sponge.Sender.Pending

namespace Sponge

/-- How far a sender has backed off: its timeout, the retransmissions in a row, and the
time left on its timer. -/
structure Backoff where
  timeout : Nat
  count : Nat
  left : Nat
  deriving DecidableEq, Repr

/-- No retransmission is counted, and the timer has all of the timeout before it. -/
def Backoff.rest (timeout : Nat) : Backoff := ⟨timeout, 0, timeout⟩

namespace TCPSender

def backoff (s : TCPSender) : Backoff :=
  ⟨s.initialRetransmissionTimeout, s.consecutiveRetransmissions, s.rxTimeLeft⟩

/-- The sender goes on with the same timeout and count, and with an error it had. -/
structure Paced (s s' : TCPSender) : Prop where
  times : s'.rxTimes = s.rxTimes
  timeout : s'.initialRetransmissionTimeout = s.initialRetransmissionTimeout
  error : s'.stream.error = s.stream.error

theorem Paced.trans {s s' s'' : TCPSender} (h : Paced s s') (h' : Paced s' s'') : Paced s s'' :=
  ⟨h'.times.trans h.times, h'.timeout.trans h.timeout, h'.error.trans h.error⟩

theorem paced_fill_loop (s : TCPSender) : Paced s s.fillLoop := by
  fun_induction fillLoop s with
  | case1 s h ih => exact Paced.trans (⟨rfl, rfl, rfl⟩ : Paced s s.sendData) ih
  | case2 s h => exact ⟨rfl, rfl, rfl⟩

theorem paced_fill_window (s : TCPSender) : Paced s s.fillWindow := by
  unfold fillWindow
  split
  · exact ⟨rfl, rfl, rfl⟩
  split
  · simp only
    split
    · exact Paced.trans (⟨rfl, rfl, rfl⟩ : Paced s s.sendFin) (paced_fill_loop s.sendFin)
    · exact paced_fill_loop s
  split
  · simp only
    split <;> split <;> exact ⟨rfl, rfl, rfl⟩
  · exact ⟨rfl, rfl, rfl⟩

/-- A tick goes on with the timeout and the count, or backs off by one retransmission. -/
theorem paced_tick (s : TCPSender) (ms : Nat) :
    Paced s (s.tick ms) ∨ Paced s.backOff (s.tick ms) := by
  unfold tick
  split
  · left
    dsimp only
    split <;> exact ⟨rfl, rfl, rfl⟩
  split
  · exact .inl ⟨rfl, rfl, rfl⟩
  split
  · exact .inl ⟨rfl, rfl, rfl⟩
  · dsimp only
    split
    · exact .inr ⟨rfl, rfl, rfl⟩
    · exact .inl ⟨rfl, rfl, rfl⟩

section Calls

variable {s : TCPSender} {ackno : WrappingInt32}

theorem backoff_ack_refused (h : s.ackSeqno ackno = none) (win : UInt16) :
    (s.ackReceived ackno win).backoff = s.backoff := by
  rw [ackReceived, h]

/-- What counts is whether the 32-bit number is the one of last time. -/
theorem backoff_ack_taken {ack : Nat} (h : s.ackSeqno ackno = some ack) (win : UInt16) :
    (s.ackReceived ackno win).backoff =
      if s.ackno ≠ ackno then .rest (s.initialRetransmissionTimeout >>> s.rxTimes)
      else s.backoff := by
  by_cases heq : s.ackno = ackno
  · simp [ackReceived, h, backoff, settleTimer, retire, consecutiveRetransmissions, heq]
  · simp [ackReceived, h, backoff, settleTimer, retire, consecutiveRetransmissions, heq,
      Backoff.rest]

/-- The slot for a zero window is looked at before anything is counted. -/
theorem tick_slot_backoff (hz : s.zeroWinSegSend = true) (ms : Nat) :
    (s.tick ms).rxTimes = s.rxTimes ∧
      (s.tick ms).initialRetransmissionTimeout = s.initialRetransmissionTimeout := by
  rw [tick, if_pos hz]
  dsimp only
  split
  · exact ⟨rfl, rfl⟩
  · exact ⟨rfl, rfl⟩

theorem tick_counted (hz : s.zeroWinSegSend = false) (hheld : s.outstandingSegs.entries ≠ [])
    (hrun : s.timerRunning = true) {ms : Nat} (hms : s.rxTimeLeft ≤ ms) (hwin : s.winSize ≠ 0) :
    (s.tick ms).rxTimes = s.rxTimes + 1 ∧
      (s.tick ms).initialRetransmissionTimeout =
        s.initialRetransmissionTimeout * 2 % 2 ^ 32 := by
  obtain ⟨e, rest, he⟩ := List.exists_cons_of_ne_nil hheld
  have hleft : (s.timePasses ms).rxTimeLeft = 0 := if_neg (Nat.not_lt.mpr hms)
  have hcounts : (s.timePasses ms).winSize ≠ 0 := hwin
  simp only [tick, hz, he, hrun, hleft, Bool.true_eq_false, Bool.false_eq_true, ↓reduceIte, resend,
    backOff, hcounts, ne_eq, not_false_eq_true, true_or]
  exact ⟨rfl, rfl⟩

/-- With a zero window nothing is counted once the SYN is acknowledged. -/
theorem tick_not_counted (hwin : s.winSize = 0) (hsyn : s.bytesInFlight < s.nextSeqno) (ms : Nat) :
    (s.tick ms).rxTimes = s.rxTimes ∧
      (s.tick ms).initialRetransmissionTimeout = s.initialRetransmissionTimeout := by
  by_cases hz : s.zeroWinSegSend = true
  · exact tick_slot_backoff hz ms
  have hnot : ¬ ((s.timePasses ms).winSize ≠ 0 ∨
      (s.timePasses ms).nextSeqno > 0 ∧ (s.timePasses ms).nextSeqno =
        (s.timePasses ms).bytesInFlight) := by
    rintro (hne | ⟨-, heq⟩)
    · exact hne hwin
    · exact Nat.ne_of_gt hsyn heq
  rw [tick, if_neg hz]
  split
  · exact ⟨rfl, rfl⟩
  split
  · exact ⟨rfl, rfl⟩
  dsimp only
  split
  · exact ⟨if_neg hnot, if_neg hnot⟩
  · exact ⟨rfl, rfl⟩

end Calls

/-- The retransmissions counted are doublings of the timeout, of which the bits within 32
are left. -/
structure Doubled (s : TCPSender) : Prop where
  times : 2 ^ s.rxTimes ∣ s.initialRetransmissionTimeout
  lt : s.initialRetransmissionTimeout < 2 ^ 32

theorem new_doubled (capacity : Nat) (timeout : UInt16) (isn : WrappingInt32) :
    (new capacity timeout isn).Doubled where
  times := Nat.one_dvd _
  lt := Nat.lt_trans timeout.toNat_lt (by decide)

section Doublings

variable {s : TCPSender} (h : s.Doubled)
include h

theorem Doubled.paced {s' : TCPSender} (hp : Paced s s') : s'.Doubled :=
  ⟨by rw [hp.times, hp.timeout]; exact h.times, hp.timeout ▸ h.lt⟩

theorem Doubled.shift_eq_iff (timeout : Nat) :
    s.initialRetransmissionTimeout >>> s.rxTimes = timeout ↔
      s.initialRetransmissionTimeout = timeout * 2 ^ s.rxTimes := by
  rw [Nat.shiftRight_eq_div_pow, Nat.div_eq_iff_eq_mul_left (Nat.two_pow_pos _) h.times]

/-- After thirty-two doublings nothing is left of the timeout. -/
theorem Doubled.eq_zero (hmany : 32 ≤ s.rxTimes) : s.initialRetransmissionTimeout = 0 :=
  Nat.eq_zero_of_dvd_of_lt h.times
    (Nat.lt_of_lt_of_le h.lt (Nat.pow_le_pow_right (by decide) hmany))

theorem Doubled.ack_received (ackno : WrappingInt32) (win : UInt16) :
    (s.ackReceived ackno win).Doubled := by
  unfold ackReceived
  split
  · exact h
  · by_cases hnew : s.ackno ≠ ackno
    · refine ⟨?_, ?_⟩
      · simp [settleTimer, retire, hnew]
      · simpa [settleTimer, retire, hnew] using
          Nat.lt_of_le_of_lt (Nat.shiftRight_le _ _) h.lt
    · refine ⟨?_, ?_⟩
      · simpa [settleTimer, retire, hnew] using h.times
      · simpa [settleTimer, retire, hnew] using h.lt

theorem Doubled.back_off : s.backOff.Doubled := by
  unfold backOff
  dsimp only
  split
  · refine ⟨?_, Nat.mod_lt _ (by decide)⟩
    by_cases hfew : s.rxTimes + 1 ≤ 32
    · rw [Nat.dvd_mod_iff (Nat.pow_dvd_pow 2 hfew), Nat.pow_succ]
      exact Nat.mul_dvd_mul_right h.times 2
    · rw [h.eq_zero (by omega)]
      exact Nat.dvd_zero _
  · exact h

theorem Doubled.tick (ms : Nat) : (s.tick ms).Doubled := by
  obtain hsame | hback := paced_tick s ms
  · exact h.paced hsame
  · exact h.back_off.paced hback

/-- At rest, nothing is taken back. -/
theorem Doubled.rest_iff :
    s.backoff = .rest (s.initialRetransmissionTimeout >>> s.rxTimes) ↔
      s.backoff = .rest s.initialRetransmissionTimeout := by
  by_cases hmany : 32 ≤ s.rxTimes
  · rw [h.eq_zero hmany, Nat.zero_shiftRight]
  · -- Fewer than thirty-two retransmissions are none if they are none in 32 bits.
    have hcount : ∀ t, s.backoff = .rest t → s.initialRetransmissionTimeout >>> s.rxTimes =
        s.initialRetransmissionTimeout := by
      intro t hrest
      have hnone : s.rxTimes % 2 ^ 32 = 0 := congrArg Backoff.count hrest
      rw [show s.rxTimes = 0 by omega, Nat.shiftRight_zero]
    exact ⟨fun hrest => hcount _ hrest ▸ hrest, fun hrest => (hcount _ hrest).symm ▸ hrest⟩

end Doublings

end TCPSender

namespace AckSession

open TCPSender

theorem reached_doubled (capacity : Nat) (timeout : UInt16) (isn : WrappingInt32)
    (us : List SenderUse) : (Run.final step (new capacity timeout isn) us).sender.Doubled := by
  refine Run.invariant_of_mem (I := fun x : AckSession => x.sender.Doubled)
    (new_doubled capacity timeout isn) (fun x u _ h => ?_)
  rw [step_session]
  cases u with
  | write data => exact ⟨h.times, h.lt⟩
  | endInput => exact ⟨h.times, h.lt⟩
  | fillWindow => exact h.paced (paced_fill_window x.sender)
  | tick ms => exact h.tick ms
  | ackReceived ackno win => exact h.ack_received ackno win

/-- The acknowledgment is for more than any before, and for nothing that was not sent. -/
def New (x : AckSession) (ackno : WrappingInt32) : Prop :=
  ∃ ack ∈ x.sender.ackSeqno ackno, x.acked < ack ∧ ack ≤ x.sender.nextSeqnoAbsolute

instance (x : AckSession) (ackno : WrappingInt32) : Decidable (x.New ackno) :=
  inferInstanceAs (Decidable
    (∃ ack ∈ x.sender.ackSeqno ackno, x.acked < ack ∧ ack ≤ x.sender.nextSeqnoAbsolute))

/-- A new acknowledgment brings the sender back to the timeout it was made with, and any
other leaves the backoff and the timer alone. -/
def ResetsOnNew (timeout : Nat) (x : AckSession) (ackno : WrappingInt32) (win : UInt16) : Prop :=
  (x.New ackno → (x.sender.ackReceived ackno win).backoff = .rest timeout) ∧
    (¬ x.New ackno → (x.sender.ackReceived ackno win).backoff = x.sender.backoff)

instance (timeout : Nat) (x : AckSession) (ackno : WrappingInt32) (win : UInt16) :
    Decidable (x.ResetsOnNew timeout ackno win) :=
  inferInstanceAs (Decidable ((_ → _) ∧ (_ → _)))

/-- The 32-bit number tells what is new: a new acknowledgment differs from the last one
and no doubling has gone past 32 bits, so that the timeout is the first one doubled for each
retransmission; another is the last one again. Or it makes no difference, since nothing is
counted and the timer is full. -/
def TellsNew (timeout : Nat) (x : AckSession) (ackno : WrappingInt32) : Prop :=
  x.sender.ackSeqno ackno ≠ none →
    (x.New ackno →
      if x.sender.ackno ≠ ackno then
        x.sender.initialRetransmissionTimeout = timeout * 2 ^ x.sender.rxTimes
      else x.sender.backoff = .rest timeout) ∧
    (¬ x.New ackno →
      x.sender.ackno = ackno ∨ x.sender.backoff = .rest x.sender.initialRetransmissionTimeout)

instance (timeout : Nat) (x : AckSession) (ackno : WrappingInt32) :
    Decidable (x.TellsNew timeout ackno) :=
  inferInstanceAs (Decidable (_ → (_ → _) ∧ (_ → _)))

theorem resets_iff_tells {x : AckSession} (h : x.sender.Doubled) (timeout : Nat)
    (ackno : WrappingInt32) (win : UInt16) :
    x.ResetsOnNew timeout ackno win ↔ x.TellsNew timeout ackno := by
  unfold ResetsOnNew TellsNew
  cases hack : x.sender.ackSeqno ackno with
  | none =>
    have hold : ¬ x.New ackno := by
      rintro ⟨ack, hmem, -⟩
      rw [hack] at hmem
      cases hmem
    exact iff_of_true ⟨fun hnew => absurd hnew hold, fun _ => backoff_ack_refused hack win⟩
      (fun hne => absurd rfl hne)
  | some ack =>
    rw [backoff_ack_taken hack win, forall_prop_of_true (Option.some_ne_none ack)]
    by_cases hne : x.sender.ackno ≠ ackno
    · have hrest : ∀ t, Backoff.rest t = Backoff.rest timeout ↔ t = timeout :=
        fun t => by simp [Backoff.rest]
      rw [if_pos hne, if_pos hne, hrest, h.shift_eq_iff, or_iff_right hne,
        eq_comm (b := x.sender.backoff), h.rest_iff]
    · rw [if_neg hne, if_neg hne, not_not] at *
      simp [hne]

/-- In every state a sender can be in, an acknowledgment resets the backoff as it should
just when the 32-bit numbers tell the new one from the others. -/
theorem resets_on_new_iff (capacity : Nat) (timeout : UInt16) (isn : WrappingInt32)
    (us : List SenderUse) (ackno : WrappingInt32) (win : UInt16) :
    (Run.final step (new capacity timeout isn) us).ResetsOnNew timeout.toNat ackno win ↔
      (Run.final step (new capacity timeout isn) us).TellsNew timeout.toNat ackno :=
  resets_iff_tells (reached_doubled capacity timeout isn us) _ _ _

/-- An acknowledgment that comes late, with a number below the last one, takes back the
backoff of a segment that it does not acknowledge. -/
theorem late_ack_resets_backoff :
    ¬ ∀ (capacity : Nat) (timeout : UInt16) (isn : WrappingInt32) (us : List SenderUse)
      (ackno : WrappingInt32) (win : UInt16),
      (Run.final step (new capacity timeout isn) us).ResetsOnNew timeout.toNat ackno win := by
  intro h
  have hlate := h 10 1000 ⟨0⟩ [.fillWindow, .ackReceived ⟨1⟩ 10, .write [1, 2], .fillWindow,
    .ackReceived ⟨3⟩ 10, .write [3], .fillWindow, .tick 1000] ⟨1⟩ 10
  revert hlate
  decide +kernel

/-- While something is not acknowledged, a tick with which the timer expires counts and
doubles the timeout if the window is open; if it is zero and the SYN is acknowledged,
it does neither. -/
def CountsTimeouts (x : AckSession) : Prop :=
  x.acked < x.sender.nextSeqnoAbsolute → x.sender.timerRunning = true →
    ∀ ms, x.sender.rxTimeLeft ≤ ms →
      (x.sender.winSize ≠ 0 →
        (x.sender.tick ms).consecutiveRetransmissions = x.sender.consecutiveRetransmissions + 1 ∧
        (x.sender.tick ms).initialRetransmissionTimeout =
          x.sender.initialRetransmissionTimeout * 2) ∧
      (x.sender.winSize = 0 → 1 ≤ x.acked →
        (x.sender.tick ms).consecutiveRetransmissions = x.sender.consecutiveRetransmissions ∧
        (x.sender.tick ms).initialRetransmissionTimeout = x.sender.initialRetransmissionTimeout)

/-- With an open window, the slot for a zero window is free, and neither the count nor the
timeout goes past 32 bits. -/
def Countable (x : AckSession) : Prop :=
  x.acked < x.sender.nextSeqnoAbsolute → x.sender.timerRunning = true → x.sender.winSize ≠ 0 →
    x.sender.zeroWinSegSend = false ∧ x.sender.consecutiveRetransmissions + 1 < 2 ^ 32 ∧
      x.sender.initialRetransmissionTimeout * 2 < 2 ^ 32

theorem Live.tick_counted {x : AckSession} (h : x.Live) (hz : x.sender.zeroWinSegSend = false)
    (hrun : x.sender.timerRunning = true) {ms : Nat} (hms : x.sender.rxTimeLeft ≤ ms)
    (hwin : x.sender.winSize ≠ 0) :
    (x.sender.tick ms).rxTimes = x.sender.rxTimes + 1 ∧
      (x.sender.tick ms).initialRetransmissionTimeout =
        x.sender.initialRetransmissionTimeout * 2 % 2 ^ 32 :=
  TCPSender.tick_counted hz (fun hnil => h.busy hrun (retained_eq_nil.mpr ⟨hnil, hz⟩)) hrun hms hwin

theorem Live.counts_iff {x : AckSession} (h : x.Live) : x.CountsTimeouts ↔ x.Countable := by
  constructor
  · intro hcounts hlt hrun hwin
    obtain ⟨hcount, htimeout⟩ := (hcounts hlt hrun _ (Nat.le_refl _)).1 hwin
    unfold consecutiveRetransmissions at hcount ⊢
    cases hz : x.sender.zeroWinSegSend with
    | true =>
      rw [(tick_slot_backoff hz _).1] at hcount
      omega
    | false =>
      obtain ⟨htimes, hdouble⟩ := h.tick_counted hz hrun (Nat.le_refl _) hwin
      rw [htimes] at hcount
      rw [hdouble] at htimeout
      exact ⟨rfl, by omega, by omega⟩
  · intro hcan hlt hrun ms hms
    unfold consecutiveRetransmissions
    constructor
    · intro hwin
      obtain ⟨hz, hcount, htimeout⟩ := hcan hlt hrun hwin
      unfold consecutiveRetransmissions at hcount
      obtain ⟨htimes, hdouble⟩ := h.tick_counted hz hrun hms hwin
      rw [htimes, hdouble]
      exact ⟨by omega, by omega⟩
    · intro hwin hsyn
      obtain ⟨htimes, hsame⟩ :=
        tick_not_counted hwin (h.pending.flight_lt h.taped h.ranged hsyn) ms
      exact ⟨by rw [htimes], hsame⟩

/-- In every state a sender can be in, a timeout counts as it should just when an open
window does not find a probe in the slot, and there are bits left to count. -/
theorem counts_timeouts_iff (capacity : Nat) (timeout : UInt16) (isn : WrappingInt32)
    (us : List SenderUse) :
    (Run.final step (new capacity timeout isn) us).CountsTimeouts ↔
      (Run.final step (new capacity timeout isn) us).Countable :=
  (reached_live capacity timeout isn us).counts_iff

/-- A byte is sent into a zero window; the window opens, the byte is still not
acknowledged, and its timeout does not count. -/
theorem probe_timeout_not_counted :
    ¬ ∀ (capacity : Nat) (timeout : UInt16) (isn : WrappingInt32) (us : List SenderUse),
      (Run.final step (new capacity timeout isn) us).CountsTimeouts := by
  intro h
  have hcount := h 10 1000 ⟨0⟩ [.fillWindow, .ackReceived ⟨1⟩ 0, .write [1], .fillWindow,
    .ackReceived ⟨1⟩ 5] (by decide +kernel) (by decide +kernel) 1000 (by decide +kernel)
  revert hcount
  decide +kernel

end AckSession

end Sponge
