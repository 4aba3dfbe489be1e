import Sponge.Connection.Answering
import Sponge.Connection.Dead
import Sponge.Connection.Linger
import Sponge.Network.Delivery
import Sponge.Sender.Timeout

namespace Sponge

namespace TCPSender

variable {s : TCPSender} {ms : Nat}

/-- The numbers that are held are those of the retained segments. -/
theorem holds_retained {i : Nat} (h : s.holds i) :
    ∃ d ∈ s.retained, d.1 ≤ i ∧ i < d.1 + d.2.lengthInSequenceSpace := by
  cases h with
  | inl hout =>
    obtain ⟨d, hd, hin⟩ := hout
    exact ⟨d, List.mem_append_left _ hd, hin⟩
  | inr hslot =>
    obtain ⟨hz, hin⟩ := hslot
    exact ⟨(s.zeroWinSegSeq, s.zeroWinSeg), by simp [retained, hz], hin⟩

/-- When the time is over, one of the retained segments is queued again. -/
theorem Armed.expires (h : s.Armed) (hne : s.retained ≠ []) (hms : s.rxTimeLeft ≤ ms) :
    ∃ d ∈ s.retained, (s.tick ms).segmentsOut = s.segmentsOut ++ [d.2] := by
  cases hz : s.zeroWinSegSend with
  | true =>
    exact ⟨(s.zeroWinSegSeq, s.zeroWinSeg), by simp [retained, hz], (tick_expired_slot hz hms).1⟩
  | false =>
    cases he : s.outstandingSegs.entries with
    | nil => exact absurd (retained_eq_nil.mpr ⟨he, hz⟩) hne
    | cons d rest =>
      exact ⟨d, by simp [retained, he], (tick_expired_oldest hz he (h hne) hms).1⟩

/-- A sender that retains something is not finished. -/
theorem retained_of_finished {W : Bytes} (ht : s.Taped W) (h : s.Finished) : s.retained = [] := by
  by_contra hne
  obtain ⟨d, hd⟩ := List.exists_mem_of_ne_nil _ hne
  have hpos := (ht.retained_end hd).1
  rw [retained, h.slot] at hd
  have hle := OrdMap.le_total_of_mem (fun e => e.2.lengthInSequenceSpace)
    (by simpa using hd : d ∈ s.outstandingSegs.entries)
  have hflight : OrdMap.total _ _ = 0 := h.flight
  omega

end TCPSender

namespace TCPConnection

/-- The connection keeps its books, and its timer runs while anything is retained. -/
structure Clocked (x : TCPConnection) : Prop where
  queue : x.sender.Queued
  armed : x.sender.Armed

theorem clocked_kept : Kept Clocked where
  fill := fun _ h => by
    obtain ⟨W, ht⟩ := h.queue.taped
    exact ⟨h.queue.fill_window, h.armed.fill_window ht⟩
  tick := fun _ ms h => ⟨h.queue.tick ms, h.armed.tick ms⟩
  empty := fun _ h => ⟨h.queue.send_empty, h.armed⟩
  errors := fun _ h => ⟨h.queue.set_error, h.armed⟩
  flags := fun _ _ _ h => ⟨h.queue, h.armed⟩
  forward := fun _ _ _ _ h _ hq _ => ⟨h.queue.take hq, h.armed⟩

section Sending

variable {x : TCPConnection} {ms : Nat}

/-- The clock of the last state does not run for a sender that retains something. -/
theorem active_of_retained {y : TCPConnection} (hq : y.sender.Queued) (hne : y.sender.retained ≠ [])
    (herror : (y.sender.stream.error && y.receiver.streamOut.error) = false) : y.active = true := by
  by_contra hdead
  rw [Bool.not_eq_true] at hdead
  obtain ⟨W, ht⟩ := hq.taped
  rcases inactive_cases hdead with herr | hwait
  · rw [herror] at herr
    cases herr
  · exact hne (TCPSender.retained_of_finished ht (time_wait_state_iff.mp hwait).2)

/-- What a connection puts out when it gives up has RST. -/
theorem send_rst_seg_out (x : TCPConnection) :
    ∃ g, x.sendRstSeg.segmentsOut = x.segmentsOut ++ [g] ∧ g.header.rst = true := by
  have hkeep : x.ensureSegment.segmentsOut = x.segmentsOut := by
    unfold ensureSegment
    split <;> rfl
  have hne : x.ensureSegment.sender.segmentsOut ≠ [] := by
    unfold ensureSegment
    split
    · simp [TCPSender.sendEmptySegment]
    · exact ‹_›
  unfold sendRstSeg
  cases hq : x.ensureSegment.sender.segmentsOut with
  | nil => exact absurd hq hne
  | cons seg rest =>
    simp only [hq, hkeep]
    refine ⟨_, rfl, ?_⟩
    unfold stamp
    split <;> rfl

/-- When the time of a retained segment is over, a live connection sends one again, or it
gives up and says so. -/
theorem Clocked.sends (h : x.Clocked) (hactive : x.active = true) (hne : x.sender.retained ≠ [])
    (hms : x.sender.rxTimeLeft ≤ ms) :
    ∃ new, (x.tick ms).segmentsOut = x.segmentsOut ++ new ∧
      ∃ g ∈ new, g.header.rst = true ∨ ∃ d ∈ x.sender.retained, Copy d.2 g := by
  obtain ⟨d, hd, hqueue⟩ := h.armed.expires hne hms
  rw [tick, if_neg (by simp [hactive])]
  by_cases hgive : (x.sender.tick ms).consecutiveRetransmissions > TCPConfig.maxRetxAttempts
  · have hsame : ({ x with sender := x.sender.tick ms }.noteTime ms).giveUp =
        ({ x with sender := x.sender.tick ms }.noteTime ms).setErrors.sendRstSeg :=
      if_pos hgive
    obtain ⟨g, hout, hrst⟩ :=
      send_rst_seg_out ({ x with sender := x.sender.tick ms }.noteTime ms).setErrors
    have hfirst : ∀ y : TCPConnection, y.setErrors.segmentsOut = y.segmentsOut := fun _ => rfl
    simp only [hsame]
    split
    · rw [send_all_segs_out, hout, List.append_assoc]
      exact ⟨_, rfl, g, by simp, .inl hrst⟩
    · rw [hout]
      exact ⟨_, rfl, g, by simp, .inl hrst⟩
  · have hsame : ({ x with sender := x.sender.tick ms }.noteTime ms).giveUp =
        { x with sender := x.sender.tick ms }.noteTime ms :=
      if_neg hgive
    have hlive : ({ x with sender := x.sender.tick ms }.noteTime ms).active = true := by
      refine active_of_retained (h.queue.tick ms) ?_ ?_
      · simp only [noteTime]
        rw [TCPSender.retained_tick]
        exact hne
      · rw [Bool.eq_false_iff]
        intro herror
        simp only [noteTime, TCPSender.stream_tick] at herror
        rw [active_of_errors herror] at hactive
        cases hactive
    simp only [hsame]
    rw [if_pos hlive, send_all_segs_out]
    refine ⟨_, rfl, stamp x.receiver d.2, ?_, .inr ⟨d, hd, (stamp_carbon _ _).toCopy⟩⟩
    apply List.mem_map_of_mem
    simp [noteTime, hqueue]

end Sending

end TCPConnection

namespace Endpoint

open TCPConnection

/-- What the two ends of one direction agree on. A receiver that has a SYN has the sender's
number, and it has received nothing that was not sent. What is sent and not received, the
sender has at hand, and while there is any of it a live sender does not fall silent: once its
timer is over, the next tick sends a segment of it again, or a reset. -/
structure Agreed (e p : Endpoint) : Prop where
  isn : p.conn.receiver.isnSet = true → p.conn.receiver.isn = e.conn.sender.isn
  received : p.conn.receiver.received ≤ e.conn.sender.nextSeqno
  kept : ∀ i, p.conn.receiver.received ≤ i → i < e.conn.sender.nextSeqno →
    ∃ d ∈ e.conn.sender.retained, d.1 ≤ i ∧ i < d.1 + d.2.lengthInSequenceSpace
  sends : p.conn.receiver.received < e.conn.sender.nextSeqno → e.conn.active = true →
    ∀ ms, e.conn.sender.rxTimeLeft ≤ ms →
      ∃ new, (e.conn.tick ms).segmentsOut = e.conn.segmentsOut ++ new ∧
        ∃ g ∈ new, g.header.rst = true ∨ ∃ d ∈ e.conn.sender.retained, Copy d.2 g

theorem LinkTo.agreed {e p : Endpoint} (h : e.LinkTo p) (hc : e.conn.Clocked) : e.Agreed p := by
  have hkept : ∀ i, p.conn.receiver.received ≤ i → i < e.conn.sender.nextSeqno →
      ∃ d ∈ e.conn.sender.retained, d.1 ≤ i ∧ i < d.1 + d.2.lengthInSequenceSpace := by
    intro i hge hlt
    cases h.retains.kept i hlt with
    | inl hgot => exact absurd hgot (Nat.not_lt.mpr hge)
    | inr hheld => exact TCPSender.holds_retained hheld
  refine ⟨fun hset => (h.receives.synced hset).1, h.receives.le_next h.taped, hkept, ?_⟩
  intro hmissing hactive ms hms
  obtain ⟨d, hd, -⟩ := hkept _ (Nat.le_refl _) hmissing
  exact hc.sends hactive (List.ne_nil_of_mem hd) hms

theorem clocked_act {e : Endpoint} (h : e.conn.Clocked) (sent : List TCPSegment) (u : Act) :
    (e.act sent u).conn.Clocked := by
  cases u with
  | connect => exact clocked_kept.connect h
  | write data => exact clocked_kept.write ⟨h.queue.write data, h.armed⟩
  | endInputStream => exact clocked_kept.end_input_stream ⟨h.queue.end_input, h.armed⟩
  | tick ms => exact clocked_kept.time_passes h ms
  | read len => exact ⟨h.queue, h.armed⟩
  | deliver k =>
    simp only [act]
    split
    · apply clocked_kept.segment_received h (fun _ _ => ⟨h.queue, h.armed⟩)
      intro x hx _
      exact ⟨hx.queue.ack_received _ _, hx.armed.ack_received _ _⟩
    · exact h

end Endpoint

namespace Network

open Endpoint

theorem new_clocked (cfg : TCPConfig) (random : WrappingInt32) :
    (TCPConnection.new cfg random).Clocked :=
  ⟨TCPSender.new_queued _ _ _, fun h => absurd rfl h⟩

theorem always_clocked (cfgA cfgB : TCPConfig) (randomA randomB : WrappingInt32)
    (us : List (Side × Act)) :
    Run.Always step (Both fun e _ => e.conn.Clocked) (new cfgA cfgB randomA randomB) us := by
  apply Run.always_of_invariant (I := Both fun e _ => e.conn.Clocked) (P := fun _ _ => True)
    ⟨new_clocked .., new_clocked ..⟩ (Run.along_of_forall (fun _ _ => trivial) _ _) ?_
    (fun _ h => h)
  rintro n ⟨side, u⟩ h -
  apply h.step (C := fun _ _ _ => True) (fun e _ u he hp _ => ⟨clocked_act he _ u, hp⟩)
  cases side <;> trivial

/-- Over any network, both directions agree in every state: nothing is received that was not
sent, and what was sent and not received is still retained. As long as there is such, a tick with
which the timer of a live sender runs out sends a retained segment again, or a reset. -/
theorem ends_agree (cfgA cfgB : TCPConfig) (randomA randomB : WrappingInt32)
    (us : List (Side × Act))
    (h : Run.Always step (Both Short) (new cfgA cfgB randomA randomB) us) :
    Run.Always step (Both Agreed) (new cfgA cfgB randomA randomB) us := by
  have hlinked := always_linked cfgA cfgB randomA randomB h fun _ hn => hn
  apply hlinked.imp₂ (always_clocked cfgA cfgB randomA randomB us)
  intro n hlinks hclocked
  exact ⟨hlinks.1.agreed hclocked.1, hlinks.2.agreed hclocked.2⟩

/-- The SYN is lost, and so is the first segment of the stream. -/
theorem ends_agree_lossy : Run.Always step (Both Agreed) (new {} {} ⟨7⟩ ⟨100⟩)
    [(.a, .connect), (.a, .tick 1000), (.b, .deliver 1), (.a, .deliver 0), (.a, .write [1, 2]),
      (.a, .tick 1000), (.b, .deliver 3)] :=
  ends_agree {} {} ⟨7⟩ ⟨100⟩ _ (by decide +kernel)

end Network

end Sponge
