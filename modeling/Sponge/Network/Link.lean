import Sponge.Network.Arrival
import Sponge.Network.Model

namespace Sponge

open TCPConnection

/-- One direction of a connection: the sender `s`, all that its endpoint has put
out, the receiver `r` at the other end, and all that came back from there. Of
the bytes `W` written to the sender's stream, `taken` have been read. -/
structure Link (W taken : Bytes) (s : TCPSender) (out : List TCPSegment) (r : TCPReceiver)
    (back : List TCPSegment) : Prop where
  taped : s.Taped W
  queued : ∀ g ∈ s.segmentsOut, ∃ e ∈ s.sent, e.seg = g
  copies : ∀ g ∈ out, ∃ e ∈ s.sent, Copy e.seg g
  receives : r.Receives s.isn s.tape taken
  retains : s.Retains r.received
  acks : ∀ g ∈ back, g.header.ack = true → ∃ a ≤ r.received, g.header.ackno = wrap a s.isn

theorem new_link (cfg cfg' : TCPConfig) (random random' : WrappingInt32) :
    Link [] [] (new cfg random).sender [] (new cfg' random').receiver [] where
  taped := TCPSender.new_taped ..
  queued := by simp [new, TCPSender.new]
  copies := by simp
  receives := TCPReceiver.new_receives ..
  retains := TCPSender.new_retains ..
  acks := by simp

namespace Link

variable {W taken : Bytes} {s s' : TCPSender} {out back : List TCPSegment} {r : TCPReceiver}

/-- The sender goes on. -/
theorem sender {W' : Bytes} (h : Link W taken s out r back) (hc : s.Continues s')
    (ht : s'.Taped W') (hr : s'.Retains r.received) : Link W' taken s' out r back := by
  obtain ⟨log, hlog, hq⟩ := hc.more
  have hsent : ∀ e ∈ s.sent, e ∈ s'.sent := fun e he => by
    rw [hlog]
    exact List.mem_append_left log he
  refine ⟨ht, ?_, ?_, ?_, hr, ?_⟩
  · intro g hg
    rw [hq] at hg
    rcases List.mem_append.mp hg with hg | hg
    · obtain ⟨e, he, heq⟩ := h.queued g hg
      exact ⟨e, hsent e he, heq⟩
    · obtain ⟨e, he, heq⟩ := List.mem_map.mp hg
      exact ⟨e, by rw [hlog]; exact List.mem_append_right _ he, heq⟩
  · intro g hg
    obtain ⟨e, he, hcopy⟩ := h.copies g hg
    exact ⟨e, hsent e he, hcopy⟩
  · obtain ⟨ys, hys⟩ := hc.tape
    rw [hc.isn, hys]
    exact h.receives.grow ys
  · rw [hc.isn]
    exact h.acks

theorem fill_window (h : Link W taken s out r back) : Link W taken s.fillWindow out r back :=
  h.sender (TCPSender.continues_fill_window h.taped) h.taped.fill_window
    (h.retains.fill_window h.taped)

theorem tick (h : Link W taken s out r back) (ms : Nat) : Link W taken (s.tick ms) out r back :=
  h.sender (s.continues_tick ms) (h.taped.tick ms) (h.retains.tick ms)

theorem send_empty (h : Link W taken s out r back) :
    Link W taken s.sendEmptySegment out r back :=
  h.sender (.one rfl rfl rfl) h.taped.send_empty
    (h.retains.keep (TCPSender.tape_append_again rfl) rfl rfl rfl rfl rfl)

theorem write (h : Link W taken s out r back) (data : Bytes) :
    Link (W ++ data.take (s.stream.accepts data)) taken { s with stream := s.stream.write data }
      out r back :=
  h.sender (.same rfl rfl rfl) (h.taped.write data) (h.retains.keep rfl rfl rfl rfl rfl rfl)

theorem end_input (h : Link W taken s out r back) :
    Link W taken { s with stream := s.stream.endInput } out r back :=
  h.sender (.same rfl rfl rfl) h.taped.end_input (h.retains.keep rfl rfl rfl rfl rfl rfl)

theorem sender_error (h : Link W taken s out r back) :
    Link W taken { s with stream := s.stream.setError } out r back :=
  h.sender (.same rfl rfl rfl) h.taped.set_error (h.retains.keep rfl rfl rfl rfl rfl rfl)

theorem receiver_error (h : Link W taken s out r back) :
    Link W taken s out { r with
      reassembler := { r.reassembler with output := r.reassembler.output.setError } } back where
  taped := h.taped
  queued := h.queued
  copies := h.copies
  receives := ⟨⟨⟨h.receives.wf.keyed, h.receives.wf.fits, h.receives.wf.apart, h.receives.wf.above,
      ⟨h.receives.wf.counted.counted, h.receives.wf.counted.bounded⟩⟩, h.receives.wf.nonzero⟩,
    ⟨h.receives.faithful.stored, h.receives.faithful.count, h.receives.faithful.output⟩,
    h.receives.marked, h.receives.synced⟩
  retains := h.retains
  acks := h.acks

theorem read (h : Link W taken s out r back) (len : Nat) :
    Link W (taken ++ r.streamOut.peekOutput len) s out
      { r with reassembler := r.reassembler.readOut len } back where
  taped := h.taped
  queued := h.queued
  copies := h.copies
  receives := ⟨h.receives.wf.read_out len, h.receives.faithful.read_out len, h.receives.marked,
    h.receives.synced⟩
  retains := h.retains
  acks := h.acks

/-- A segment of the queue is put out. -/
theorem put_out (h : Link W taken s out r back) {seg copy : TCPSegment} {queue : List TCPSegment}
    (hseg : seg ∈ s.segmentsOut) (hq : ∀ g ∈ queue, g ∈ s.segmentsOut) (hc : Copy seg copy) :
    Link W taken { s with segmentsOut := queue } (out ++ [copy]) r back := by
  refine ⟨h.taped.take queue, fun g hg => h.queued g (hq g hg), ?_, h.receives, ?_, h.acks⟩
  · intro g hg
    rcases List.mem_append.mp hg with hg | hg
    · exact h.copies g hg
    · obtain ⟨e, he, rfl⟩ := h.queued seg hseg
      rw [List.mem_singleton.mp hg]
      exact ⟨e, he, hc⟩
  · exact h.retains.keep rfl rfl rfl rfl rfl rfl

/-- The receiver's endpoint puts out a segment, with the receiver's acknowledgment. -/
theorem put_back (h : Link W taken s out r back) {seg copy : TCPSegment}
    (hbare : seg.header.ack = false) (hc : Carbon r seg copy) :
    Link W taken s out r (back ++ [copy]) := by
  refine ⟨h.taped, h.queued, h.copies, h.receives, h.retains, ?_⟩
  intro g hg hack
  rcases List.mem_append.mp hg with hg | hg
  · exact h.acks g hg hack
  · rw [List.mem_singleton.mp hg] at hack ⊢
    rcases hc.acks hack with hold | hnew
    · rw [hbare] at hold
      cases hold
    · obtain ⟨hset, heq⟩ := TCPReceiver.ackno_eq hnew
      exact ⟨_, Nat.le_refl _, by rw [heq, (h.receives.synced hset).1]⟩

/-- What the sender has queued has no acknowledgment in it yet. -/
theorem queue_bare (h : Link W taken s out r back) {seg : TCPSegment}
    (hseg : seg ∈ s.segmentsOut) : seg.header.ack = false := by
  obtain ⟨e, he, rfl⟩ := h.queued seg hseg
  exact (h.taped.sent e he).bare

/-- Fewer than 2^32 sequence numbers are in use, so that none is ambiguous. -/
theorem next_lt (h : Link W taken s out r back) (hW : W.length < 2 ^ 31) :
    s.nextSeqno < 2 ^ 32 := by
  have := h.retains.next_le h.taped (fun f hf => h.receives.le_fin h.taped hf)
  omega

/-- The receiver gets a segment that was put out at some time. -/
theorem arrive (h : Link W taken s out r back) (hW : W.length < 2 ^ 31) {g : TCPSegment}
    (hg : g ∈ out) : Link W taken s out (r.segmentReceived g) back := by
  obtain ⟨e, he, hcopy⟩ := h.copies g hg
  rw [hcopy.segment_received]
  obtain ⟨hrec, hle⟩ :=
    h.receives.segment_received h.taped (h.taped.sent e he) hW (h.next_lt hW)
  refine ⟨h.taped, h.queued, h.copies, hrec, h.retains.mono hle, ?_⟩
  intro g hg hack
  obtain ⟨a, ha, heq⟩ := h.acks g hg hack
  exact ⟨a, Nat.le_trans ha hle, heq⟩

/-- The sender gets an acknowledgment that came back at some time. -/
theorem ack_received (h : Link W taken s out r back) (hW : W.length < 2 ^ 31) {g : TCPSegment}
    (hg : g ∈ back) (hack : g.header.ack = true) :
    Link W taken (s.ackReceived g.header.ackno g.header.win) out r back := by
  refine h.sender (s.continues_ack_received _ _) (h.taped.ack_received _ _) ?_
  obtain ⟨a, ha, heq⟩ := h.acks g hg hack
  rw [heq]
  exact h.retains.ack_received h.taped (fun f hf => h.receives.le_fin h.taped hf) (h.next_lt hW)
    (h.receives.le_next h.taped) ha _

end Link

namespace Endpoint

/-- The direction from `e` to `p`. -/
def LinkTo (e p : Endpoint) : Prop :=
  Link e.accepted p.taken e.conn.sender e.conn.segmentsOut p.conn.receiver p.conn.segmentsOut

/-- The steps a connection's methods are made of keep both directions in order. -/
theorem links_kept (W taken : Bytes) (p : Endpoint) : Kept (fun x =>
    LinkTo ⟨x, W, taken⟩ p ∧ LinkTo p ⟨x, W, taken⟩) where
  fill := fun _ h => ⟨h.1.fill_window, h.2⟩
  tick := fun _ ms h => ⟨h.1.tick ms, h.2⟩
  empty := fun _ h => ⟨h.1.send_empty, h.2⟩
  errors := fun _ h => ⟨h.1.sender_error, h.2.receiver_error⟩
  flags := fun _ _ _ h => h
  forward := fun _ _ _ _ h hseg hq hc =>
    ⟨h.1.put_out hseg hq hc.toCopy, h.2.put_back (h.1.queue_bare hseg) hc⟩

/-- Whatever an endpoint does, both directions stay in order, as long as the
streams are short. -/
theorem links_act {e p : Endpoint} (u : Act) (he : e.LinkTo p) (hp : p.LinkTo e)
    (hs : e.accepted.length < 2 ^ 31) (hs' : p.accepted.length < 2 ^ 31) :
    (e.act p.conn.segmentsOut u).LinkTo p ∧ p.LinkTo (e.act p.conn.segmentsOut u) := by
  have hk := links_kept e.accepted e.taken p
  cases u with
  | connect => exact hk.connect ⟨he, hp⟩
  | write data =>
    exact (links_kept (e.accepted ++ data.take (e.conn.sender.stream.accepts data)) e.taken p).write
      ⟨he.write data, hp⟩
  | endInputStream => exact hk.end_input_stream ⟨he.end_input, hp⟩
  | tick ms => exact hk.time_passes ⟨he, hp⟩ ms
  | read len => exact ⟨he, hp.read len⟩
  | deliver k =>
    simp only [act]
    split
    · rename_i seg hget
      have hseg := List.mem_of_getElem? hget
      exact hk.segment_received ⟨he, hp⟩ (fun _ _ => ⟨he, hp.arrive hs' hseg⟩)
        (fun _ h hack => ⟨h.1.ack_received hs hseg hack, h.2⟩)
    · exact ⟨he, hp⟩

/-- The stream is shorter than 2^31 bytes. -/
def Short (e _ : Endpoint) : Prop := e.accepted.length < 2 ^ 31

instance (e p : Endpoint) : Decidable (e.Short p) := inferInstanceAs (Decidable (_ < _))

end Endpoint

end Sponge
