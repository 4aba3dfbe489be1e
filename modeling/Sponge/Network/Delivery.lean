import Sponge.Network.Link

namespace Sponge

namespace TCPConnection

/-- A connection that is done without an error has had all acknowledged. -/
theorem inactive_time_wait {x : TCPConnection} (h : x.active = false)
    (hs : x.sender.stream.error = false) : x.timeWaitState = true :=
  (inactive_cases h).resolve_left (by simp [hs])

end TCPConnection

namespace Link

variable {W taken : Bytes} {s : TCPSender} {out back : List TCPSegment} {r : TCPReceiver}

/-- A sender that holds nothing any more has had all numbers received. -/
theorem received_all (h : Link W taken s out r back) (hfl : s.bytesInFlight = 0)
    (hz : s.zeroWinSegSend = false) : s.nextSeqno ≤ r.received := by
  by_contra hlt
  rcases h.retains.kept (s.nextSeqno - 1) (by omega) with hgot | ⟨e, he, hin⟩ | ⟨hz', -⟩
  · omega
  · have := OrdMap.le_total_of_mem (fun e => e.2.lengthInSequenceSpace) he
    simp only [TCPSender.bytesInFlight] at hfl
    omega
  · rw [hz] at hz'
    cases hz'

/-- When all numbers of the stream, its SYN and its FIN have been received, the
whole stream has been written out and ended. -/
theorem complete (h : Link W taken s out r back) (hle : W.length + 2 ≤ r.received) :
    r.streamOut.inputEnded = true ∧ taken ++ r.streamOut.buffer = W := by
  have hbw := h.receives.written_le h.taped
  have hend : r.streamOut.inputEnded = true := by
    by_contra hno
    simp only [TCPReceiver.received, hno, ↓reduceIte] at hle
    split at hle <;> omega
  refine ⟨hend, (h.receives.delivered h.taped).eq_of_length ?_⟩
  rw [h.receives.length]
  simp only [TCPReceiver.received, hend, ↓reduceIte] at hle
  split at hle <;> omega

end Link

namespace Endpoint

/-- What `p` has read and what it has buffered is the beginning of what was written
at `e`. -/
def Delivered (e p : Endpoint) : Prop :=
  p.taken ++ p.conn.inboundStream.buffer <+: e.accepted

/-- If `e` is done without an error, `p` has all that was written at `e`, and knows
it. -/
def CleanClose (e p : Endpoint) : Prop :=
  e.conn.active = false → e.conn.sender.stream.error = false →
    e.conn.inboundStream.error = false →
    p.conn.inboundStream.inputEnded = true ∧ p.taken ++ p.conn.inboundStream.buffer = e.accepted

theorem LinkTo.delivered {e p : Endpoint} (h : e.LinkTo p) : e.Delivered p :=
  h.receives.delivered h.taped

theorem LinkTo.clean_close {e p : Endpoint} (h : e.LinkTo p) : e.CleanClose p := by
  intro hdone hs _
  have hwait := TCPConnection.inactive_time_wait hdone hs
  obtain ⟨-, -, hfl, hnext, hz⟩ := TCPConnection.time_wait_state_iff.mp hwait
  have hall := h.received_all hfl hz
  refine h.complete ?_
  rw [h.taped.written] at hnext
  omega

end Endpoint

namespace Network

open Endpoint

variable (cfgA cfgB : TCPConfig) (randomA randomB : WrappingInt32) (us : List (Side × Act))

theorem new_links : (new cfgA cfgB randomA randomB).Both LinkTo :=
  ⟨new_link .., new_link ..⟩

/-- In every state of a run with short streams both directions are in order. -/
theorem always_linked {Q : Network → Prop} {us : List (Side × Act)}
    (h : Run.Always step (Both Short) (new cfgA cfgB randomA randomB) us)
    (hq : ∀ n : Network, n.Both LinkTo → Q n) :
    Run.Always step Q (new cfgA cfgB randomA randomB) us := by
  refine Run.always_of_invariant (I := fun n => n.Both LinkTo ∧ n.Both Short)
    (P := fun n su => (n.step su).Both Short) ⟨new_links .., h.head⟩ (h.along (fun _ _ => id)) ?_
    (fun n hn => hq n hn.1)
  rintro n su ⟨hl, hs⟩ hs'
  refine ⟨hl.step (C := fun e p _ => e.Short p ∧ p.Short e)
    (fun e p u he hp hc => links_act u he hp hc.1 hc.2) ?_, hs'⟩
  obtain ⟨side, u⟩ := su
  cases side with
  | a => exact hs
  | b => exact hs.symm

/-- Over any network, what is read and buffered at either end is the beginning of
what was written at the other. -/
theorem reads_what_was_written
    (h : Run.Always step (Both Short) (new cfgA cfgB randomA randomB) us) :
    Run.Always step (Both Delivered) (new cfgA cfgB randomA randomB) us :=
  always_linked cfgA cfgB randomA randomB h (fun _ hn => ⟨hn.1.delivered, hn.2.delivered⟩)

/-- Segments are repeated, and one is lost on the way back. -/
theorem reads_what_was_written_two : Run.Always step (Both Delivered) (new {} {} ⟨7⟩ ⟨100⟩)
    [(.a, .connect), (.b, .deliver 0), (.b, .deliver 0), (.a, .deliver 0), (.a, .write [1, 2]),
      (.b, .deliver 2), (.b, .deliver 1), (.b, .read 1), (.b, .deliver 2)] :=
  reads_what_was_written {} {} ⟨7⟩ ⟨100⟩ _ (by decide +kernel)

/-- Over any network, an end that is done without an error has had the whole of its
stream assembled and ended at the other. -/
theorem clean_close_delivers
    (h : Run.Always step (Both Short) (new cfgA cfgB randomA randomB) us) :
    Run.Always step (Both CleanClose) (new cfgA cfgB randomA randomB) us :=
  always_linked cfgA cfgB randomA randomB h (fun _ hn => ⟨hn.1.clean_close, hn.2.clean_close⟩)

/-- From SYN to the end of the wait that follows both FINs. -/
def wholeRun : List (Side × Act) :=
  [(.a, .connect), (.b, .deliver 0), (.a, .deliver 0), (.b, .deliver 1), (.a, .write [1, 2]),
    (.a, .endInputStream), (.b, .deliver 2), (.b, .deliver 3), (.a, .deliver 2),
    (.b, .endInputStream), (.a, .deliver 3), (.a, .tick 10000)]

theorem clean_close_delivers_whole :
    (Run.final step (new {} {} ⟨7⟩ ⟨100⟩) wholeRun).a.conn.active = false ∧
      Run.Always step (Both CleanClose) (new {} {} ⟨7⟩ ⟨100⟩) wholeRun :=
  ⟨by decide +kernel, clean_close_delivers {} {} ⟨7⟩ ⟨100⟩ wholeRun (by decide +kernel)⟩

end Network

end Sponge
