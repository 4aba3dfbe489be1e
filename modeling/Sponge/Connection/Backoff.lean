import Sponge.Connection.Dead
import Sponge.Sender.Backoff

namespace Sponge

namespace TCPSender

/-- The timeout is the configured one, doubled for each of the retransmissions in a row, of
which there are at most `n`. -/
structure BacksOff (timeout : UInt16) (n : Nat) (s : TCPSender) : Prop where
  times : s.rxTimes ≤ n
  doubled : s.initialRetransmissionTimeout = timeout.toNat * 2 ^ s.rxTimes

section Steps

variable {timeout : UInt16} {n : Nat} {s : TCPSender} (h : s.BacksOff timeout n)
include h

theorem BacksOff.paced {s' : TCPSender} (hp : Paced s s') : s'.BacksOff timeout n :=
  ⟨hp.times ▸ h.times, by rw [hp.timeout, hp.times, h.doubled]⟩

/-- The shift takes back all the doublings. -/
theorem BacksOff.shift : s.initialRetransmissionTimeout >>> s.rxTimes = timeout.toNat := by
  rw [h.doubled, Nat.shiftRight_eq_div_pow, Nat.mul_div_cancel _ (Nat.two_pow_pos _)]

theorem BacksOff.ack_received (ackno : WrappingInt32) (win : UInt16) :
    (s.ackReceived ackno win).BacksOff timeout n := by
  unfold ackReceived
  split
  · exact h
  · by_cases hnew : s.ackno ≠ ackno
    · refine ⟨?_, ?_⟩
      · simp [settleTimer, retire, hnew]
      · simp [settleTimer, retire, hnew, h.shift]
    · refine ⟨?_, ?_⟩
      · simpa [settleTimer, retire, hnew] using h.times
      · simpa [settleTimer, retire, hnew] using h.doubled

/-- Up to fifteen times the doubled timeout is within 32 bits. -/
theorem BacksOff.lt (hn : n < 16) : s.initialRetransmissionTimeout * 2 < 2 ^ 32 := by
  have hfew : s.rxTimes ≤ 15 := Nat.le_trans h.times (Nat.le_of_lt_succ hn)
  have htimes : 2 ^ s.rxTimes ≤ 2 ^ 15 := Nat.pow_le_pow_right (by decide) hfew
  have hlt := timeout.toNat_lt
  have hmul : timeout.toNat * 2 ^ s.rxTimes ≤ 65535 * 2 ^ 15 := Nat.mul_le_mul (by omega) htimes
  rw [h.doubled]
  omega

theorem BacksOff.back_off (hn : n < 16) : s.backOff.BacksOff timeout (n + 1) := by
  have htimes := h.times
  unfold backOff
  simp only
  split
  · refine ⟨Nat.succ_le_succ htimes, ?_⟩
    rw [Nat.mod_eq_of_lt (h.lt hn), h.doubled, Nat.pow_succ, Nat.mul_assoc]
  · exact ⟨Nat.le_succ_of_le htimes, h.doubled⟩

theorem BacksOff.tick (hn : n < 16) (ms : Nat) : (s.tick ms).BacksOff timeout (n + 1) := by
  obtain hsame | hback := paced_tick s ms
  · exact BacksOff.paced ⟨Nat.le_succ_of_le h.times, h.doubled⟩ hsame
  · exact (h.back_off hn).paced hback

end Steps

end TCPSender

namespace TCPConnection

/-- The sender backs off as far as the connection lets it; when the last attempt is used up
both streams have failed. -/
structure Persists (cfg : TCPConfig) (x : TCPConnection) : Prop where
  config : x.cfg = cfg
  sender : x.sender.BacksOff cfg.rtTimeout (TCPConfig.maxRetxAttempts + 1)
  failed : TCPConfig.maxRetxAttempts < x.sender.rxTimes →
    (x.sender.stream.error && x.receiver.streamOut.error) = true

section Steps

variable {cfg : TCPConfig} {x : TCPConnection}

theorem persists_of_few (hcfg : x.cfg = cfg)
    (h : x.sender.BacksOff cfg.rtTimeout TCPConfig.maxRetxAttempts) : x.Persists cfg :=
  ⟨hcfg, ⟨Nat.le_succ_of_le h.times, h.doubled⟩, fun hlt => absurd h.times (Nat.not_le.mpr hlt)⟩

theorem Persists.few (h : x.Persists cfg) (hactive : x.active = true) :
    x.sender.BacksOff cfg.rtTimeout TCPConfig.maxRetxAttempts := by
  refine ⟨?_, h.sender.doubled⟩
  by_contra hmany
  have hdead := active_of_errors (h.failed (Nat.not_le.mp hmany))
  rw [hactive] at hdead
  cases hdead

theorem Persists.paced {s : TCPSender} (h : x.Persists cfg) (hp : x.sender.Paced s) :
    ({ x with sender := s } : TCPConnection).Persists cfg := by
  refine ⟨h.config, h.sender.paced hp, fun hlt => ?_⟩
  have herr := h.failed (hp.times ▸ hlt)
  rwa [← hp.error] at herr

theorem persists_relayed (cfg : TCPConfig) : Relayed (Persists cfg) where
  empty := fun _ h => h.paced ⟨rfl, rfl, rfl⟩
  forward := fun _ _ _ _ h _ _ _ => ⟨h.config, ⟨h.sender.times, h.sender.doubled⟩, h.failed⟩
  errors := fun _ h => ⟨h.config, ⟨h.sender.times, h.sender.doubled⟩, fun _ => rfl⟩
  flags := fun _ _ _ h => ⟨h.config, h.sender, h.failed⟩

theorem Persists.fill (h : x.Persists cfg) :
    ({ x with sender := x.sender.fillWindow } : TCPConnection).Persists cfg :=
  h.paced x.sender.paced_fill_window

theorem Persists.write (h : x.Persists cfg) (data : Bytes) : (x.write data).Persists cfg := by
  have hdata : ({ x with sender := { x.sender with stream := x.sender.stream.write data } } :
      TCPConnection).Persists cfg := h.paced ⟨rfl, rfl, rfl⟩
  unfold TCPConnection.write
  simp only
  split
  · exact (persists_relayed cfg).send_all_segs hdata.fill
  · exact hdata

theorem Persists.end_input_stream (h : x.Persists cfg) : x.endInputStream.Persists cfg := by
  have hended : ({ x with sender := { x.sender with stream := x.sender.stream.endInput } } :
      TCPConnection).Persists cfg := h.paced ⟨rfl, rfl, rfl⟩
  exact (persists_relayed cfg).send_all_segs hended.fill

/-- The timeout that is one too many is the one after which the connection gives up. -/
theorem Persists.time_passes (h : x.Persists cfg) (ms : Nat) : (x.tick ms).Persists cfg := by
  have hr := persists_relayed cfg
  unfold TCPConnection.tick
  split
  · exact h
  rename_i hactive
  have hs : (x.sender.tick ms).BacksOff cfg.rtTimeout (TCPConfig.maxRetxAttempts + 1) :=
    (h.few (by simpa using hactive)).tick (by decide) ms
  have hgive : ({ x with sender := x.sender.tick ms }.noteTime ms).giveUp.Persists cfg := by
    unfold giveUp
    split
    · exact hr.send_rst_seg ⟨h.config, ⟨hs.times, hs.doubled⟩, fun _ => rfl⟩
    · rename_i hfew
      refine persists_of_few h.config ⟨?_, hs.doubled⟩
      have htimes := hs.times
      simp only [noteTime, TCPSender.consecutiveRetransmissions, TCPConfig.maxRetxAttempts]
        at hfew htimes ⊢
      omega
  simp only
  split
  · exact hr.send_all_segs hgive
  · exact hgive

theorem Persists.segment_received (h : x.Persists cfg) (seg : TCPSegment) :
    (x.segmentReceived seg).Persists cfg := by
  refine (persists_relayed cfg).segment_received h (fun hactive _ => ?_) (fun _ hx _ => hx.fill)
  have hfew := h.few hactive
  split
  · have hack := hfew.ack_received seg.header.ackno seg.header.win
    refine persists_of_few h.config ?_
    simp only [takeAck]
    split
    · exact hack.paced (TCPSender.paced_fill_window _)
    · exact hack
  · exact persists_of_few h.config hfew

theorem Persists.use (h : x.Persists cfg) (u : ConnUse) : (x.use u).Persists cfg := by
  cases u with
  | connect => exact (persists_relayed cfg).connect h h.fill
  | write data => exact h.write data
  | endInputStream => exact h.end_input_stream
  | tick ms => exact h.time_passes ms
  | read len => exact ⟨h.config, h.sender, h.failed⟩
  | segmentReceived seg => exact h.segment_received seg

end Steps

/-- The arithmetic of the backoff is right: doubling the timeout once more stays within 32
bits, the shift of the next acknowledgment gives the configured timeout, and a connection that
has made its last attempt is over. -/
structure ExactBackoff (x : TCPConnection) : Prop where
  timeout : x.sender.initialRetransmissionTimeout =
    x.cfg.rtTimeout.toNat * 2 ^ x.sender.consecutiveRetransmissions
  count : x.sender.consecutiveRetransmissions ≤ TCPConfig.maxRetxAttempts + 1
  doubling : x.sender.initialRetransmissionTimeout * 2 < 2 ^ 32
  shift : x.sender.initialRetransmissionTimeout >>> x.sender.rxTimes = x.cfg.rtTimeout.toNat
  gaveUp : TCPConfig.maxRetxAttempts < x.sender.consecutiveRetransmissions →
    x.active = false ∧ x.sender.stream.error = true ∧ x.inboundStream.error = true

theorem Persists.exact_backoff {cfg : TCPConfig} {x : TCPConnection} (h : x.Persists cfg) :
    x.ExactBackoff := by
  have hcount : x.sender.consecutiveRetransmissions = x.sender.rxTimes := by
    have htimes := h.sender.times
    simp only [TCPSender.consecutiveRetransmissions, TCPConfig.maxRetxAttempts] at htimes ⊢
    omega
  refine ⟨?_, ?_, h.sender.lt (by decide), ?_, fun hlt => ?_⟩
  · rw [hcount, h.config, h.sender.doubled]
  · rw [hcount]
    exact h.sender.times
  · rw [h.config, h.sender.shift]
  · have herr := h.failed (hcount ▸ hlt)
    exact ⟨active_of_errors herr, Bool.and_eq_true_iff.mp herr⟩

/-- Whatever is done with a connection, its timeout is the configured one doubled once for each
retransmission in a row. -/
theorem backoff_exact (cfg : TCPConfig) (random : WrappingInt32) (us : List ConnUse) :
    Run.Always use (fun x => x.cfg = cfg ∧ x.ExactBackoff) (new cfg random) us := by
  have hnew : (new cfg random).Persists cfg :=
    persists_of_few rfl ⟨Nat.zero_le _, (Nat.mul_one _).symm⟩
  exact Run.always_of_invariant (I := Persists cfg) hnew
    (Run.along_of_forall (P := fun _ _ => True) (fun _ _ => trivial) _ _)
    (fun _ u hx _ => hx.use u) (fun _ hx => ⟨hx.config, hx.exact_backoff⟩)

end TCPConnection

end Sponge
