import Sponge.Connection.Dead
import Sponge.Network.Ending
import Sponge.Socket.Model

namespace Sponge

open FileDescriptor (Throws)

/-- Only the owner ends the outbound stream. -/
theorem TCPConnection.open_use {x : TCPConnection} (hq : x.sender.Queued)
    (hopen : x.sender.stream.inputEnd = false) {u : ConnUse} (hu : u ≠ .endInputStream) :
    (x.use u).sender.stream.inputEnd = false := by
  have hk : Kept (fun y => y.sender.Queued ∧ y.sender.stream.inputEnd = false) :=
    { fill := fun y h => by
        obtain ⟨W, ht⟩ := h.1.taped
        exact ⟨h.1.fill_window, (TCPSender.input_end_fill_window ht).trans h.2⟩
      tick := fun y ms h => ⟨h.1.tick ms, by rw [TCPSender.stream_tick]; exact h.2⟩
      empty := fun y h => ⟨h.1.send_empty, h.2⟩
      errors := fun y h => ⟨h.1.set_error, h.2⟩
      flags := fun _ _ _ h => h
      forward := fun y _ _ _ h _ hqueue _ => ⟨h.1.take hqueue, h.2⟩ }
  have hx : x.sender.Queued ∧ x.sender.stream.inputEnd = false := ⟨hq, hopen⟩
  cases u with
  | connect => exact (hk.connect hx).2
  | write data =>
    exact (hk.write (x := x) ⟨hq.write data, hopen⟩).2
  | endInputStream => exact absurd rfl hu
  | tick ms => exact (hk.time_passes hx ms).2
  | read len => exact hopen
  | segmentReceived seg =>
    refine (hk.segment_received hx (fun _ _ => hx) fun y hy _ => ⟨hy.1.ack_received _ _, ?_⟩).2
    have hstream : (y.sender.ackReceived seg.header.ackno seg.header.win).stream = y.sender.stream := by
      unfold TCPSender.ackReceived
      split <;> rfl
    rw [hstream]
    exact hy.2

/-- A connection that is done stays so when its stream is ended once more, unless it has something
to send. -/
theorem TCPConnection.ended_again {x : TCPConnection} (h : x.active = false) :
    (x.use .endInputStream).active = false ∨
      x.segmentsOut.length < (x.use .endInputStream).segmentsOut.length := by
  let y : TCPConnection :=
    { x with sender := { x.sender with stream := x.sender.stream.endInput } }
  have huse : x.use .endInputStream = { y with sender := y.sender.fillWindow }.sendAllSegs := rfl
  by_cases hidle : y.sender.Idle
  · left
    rw [huse, hidle.fill_window, send_all_segs_nil hidle.1]
    exact end_input_dead h
  · right
    have hqueue : y.sender.fillWindow.segmentsOut ≠ [] :=
      fun hnone => hidle (TCPSender.fill_window_queue_iff.mp hnone)
    rw [huse, send_all_segs_out, List.length_append, List.length_map]
    exact Nat.lt_add_of_pos_right (List.length_pos_iff.mpr hqueue)

namespace TCPSpongeSocket

variable {α : Type}

/-- What holds of an adapter, a connection and the number of segments that have gone from one to
the other, whatever a socket does with them. -/
structure Drives [FdAdapter α] (I : α → Endpoint → Nat → Prop) : Prop where
  read : ∀ a e k, I a e k → (FdAdapter.read a).Leaves (fun seg a' => I a' (e.receive seg) k)
    (fun _ a' => I a' e k)
  write : ∀ a e k seg, I a e k → seg ∈ e.conn.segmentsOut →
    (FdAdapter.write a seg).Leaves (fun _ a' => I a' e (k + 1)) (fun _ a' => I a' e k)
  tick : ∀ a e k ms, I a e k →
    (FdAdapter.tick a ms).Leaves (fun _ a' => I a' e k) (fun _ a' => I a' e k)
  act : ∀ a e k u, I a e k → e.WriteOpen e u → I a (e.act [] u) k

/-- The connection and the marks that the socket keeps of it. -/
structure Coupled (s : TCPSpongeSocket α) : Prop where
  queued : s.tcp.conn.sender.Queued
  ended : s.outboundShutdown = false → s.tcp.conn.sender.stream.inputEnd = false
  sent : s.popped ≤ s.tcp.conn.segmentsOut.length

theorem Coupled.use {s : TCPSpongeSocket α} (h : s.Coupled) {e : Endpoint} {u : ConnUse}
    (he : e.conn = s.tcp.conn.use u) (hu : u ≠ .endInputStream) : Coupled { s with tcp := e } := by
  obtain ⟨hqueue, new, hout, -⟩ := TCPConnection.use_speaks h.queued u
  refine ⟨?_, fun hopen => ?_, ?_⟩
  · rw [he]
    exact hqueue
  · rw [he]
    exact TCPConnection.open_use h.queued (h.ended hopen) hu
  · rw [he, hout, List.length_append]
    exact Nat.le_trans h.sent (Nat.le_add_right _ _)

theorem Coupled.end_outbound {s : TCPSpongeSocket α} (h : s.Coupled) : s.endOutbound.Coupled := by
  obtain ⟨hqueue, new, hout, -⟩ := TCPConnection.use_speaks h.queued .endInputStream
  refine ⟨hqueue, by simp [endOutbound], ?_⟩
  change s.popped ≤ (s.tcp.conn.use .endInputStream).segmentsOut.length
  rw [hout, List.length_append]
  exact Nat.le_trans h.sent (Nat.le_add_right _ _)

section Served

variable [FdAdapter α] {I : α → Endpoint → Nat → Prop} {got₀ put₀ : Bytes}

/-- The socket while nothing has failed: all that came from the application has been taken by the
connection, and all that was taken from the connection has gone to the application. -/
structure Served (I : α → Endpoint → Nat → Prop) (got₀ put₀ : Bytes) (s : TCPSpongeSocket α) :
    Prop where
  core : I s.datagramAdapter s.tcp s.popped
  coupled : s.Coupled
  got : s.threadData.got.flatten = got₀ ++ s.tcp.accepted
  put : s.threadData.put.flatten = put₀ ++ s.tcp.taken

/-- What an adapter throws. -/
def AdapterThrows (α : Type) [FdAdapter α] (e : SystemFault) : Prop :=
  (∃ a : α, (FdAdapter.read a).result = .error e) ∨
  (∃ (a : α) (seg : TCPSegment), (FdAdapter.write a seg).result = .error e) ∨
  ∃ (a : α) (ms : UInt64), (FdAdapter.tick a ms).result = .error e

/-- What a fault leaves behind. Bytes of the application may be lost then, and bytes from the peer
may have reached it that are still in the connection; but none is out of order. -/
structure Broken (I : α → Endpoint → Nat → Prop) (got₀ put₀ : Bytes) (e : SystemFault)
    (s : TCPSpongeSocket α) : Prop where
  fault : Throws e ∨ e = EventLoop.polledError ∨ AdapterThrows α e
  core : I s.datagramAdapter s.tcp s.popped
  got : got₀ ++ s.tcp.accepted <+: s.threadData.got.flatten
  put : s.threadData.put.flatten <+: put₀ ++ (s.tcp.taken ++ s.tcp.conn.inboundStream.buffer)

variable {s : TCPSpongeSocket α}

theorem Served.broken (h : Served I got₀ put₀ s) {e : SystemFault}
    (he : Throws e ∨ e = EventLoop.polledError ∨ AdapterThrows α e) : Broken I got₀ put₀ e s where
  fault := he
  core := h.core
  got := by
    rw [h.got]
  put := by
    rw [h.put, ← List.append_assoc]
    exact List.prefix_append _ _

omit [FdAdapter α] in
/-- Another adapter, or a segment more that was sent. -/
theorem Served.adapter (h : Served I got₀ put₀ s) {a : α} {k : Nat} (hk : I a s.tcp k)
    (hsent : k ≤ s.tcp.conn.segmentsOut.length) :
    Served I got₀ put₀ { s with datagramAdapter := a, popped := k } :=
  ⟨hk, ⟨h.coupled.queued, h.coupled.ended, hsent⟩, h.got, h.put⟩

theorem Served.adapter_broken (h : Served I got₀ put₀ s) {a : α} (hk : I a s.tcp s.popped)
    {e : SystemFault} (he : AdapterThrows α e) : Broken I got₀ put₀ e (s.setAdapter a) :=
  (h.adapter hk h.coupled.sent).broken (.inr (.inr he))

theorem receive_conn (e : Endpoint) (seg : Option TCPSegment) :
    e.receive seg = e ∨ ∃ u, u ≠ .endInputStream ∧ (e.receive seg).conn = e.conn.use u ∧
      (e.receive seg).accepted = e.accepted ∧ (e.receive seg).taken = e.taken := by
  cases seg with
  | none => exact .inl rfl
  | some seg => exact .inr ⟨.segmentReceived seg, by simp, rfl, rfl, rfl⟩

omit [FdAdapter α] in
theorem Served.receive (h : Served I got₀ put₀ s) {a : α} {seg : Option TCPSegment}
    (hk : I a (s.tcp.receive seg) s.popped) :
    Served I got₀ put₀ { s with datagramAdapter := a, tcp := s.tcp.receive seg } := by
  rcases receive_conn s.tcp seg with hsame | ⟨u, hu, hconn, hacc, htaken⟩
  · rw [hsame] at hk ⊢
    exact h.adapter hk h.coupled.sent
  · have hc := h.coupled.use hconn hu
    refine ⟨hk, ⟨hc.queued, hc.ended, hc.sent⟩, ?_, ?_⟩
    · rw [hacc]
      exact h.got
    · rw [htaken]
      exact h.put

variable (hI : Drives I)
include hI

/-- Rule 1. -/
theorem Served.packet_to_connection (h : Served I got₀ put₀ s) :
    s.packetToConnection.Leaves
      (fun _ s' => Served I got₀ put₀ s' ∧ s'.outboundShutdown = s.outboundShutdown ∧
        (FdAdapter.fd s'.datagramAdapter).readCount =
          (FdAdapter.fd s.datagramAdapter).readCount + 1)
      (fun e s' => Broken I got₀ put₀ e s') := by
  have hread := hI.read _ _ _ h.core
  have hcount := FdAdapter.read_registers s.datagramAdapter
  unfold packetToConnection
  cases hr : (FdAdapter.read s.datagramAdapter).result with
  | error e =>
    rw [Outcome.Leaves, hr] at hread
    rw [Outcome.into_and_then_error hr]
    exact Outcome.leaves_fail (h.adapter_broken hread (.inl ⟨_, hr⟩))
  | ok seg =>
    rw [Outcome.Leaves, hr] at hread hcount
    rw [Outcome.into_and_then_ok hr]
    exact Outcome.leaves_done ⟨h.receive hread, rfl, hcount⟩

/-- Rule 2, which is not called any more when the stream has ended. -/
theorem Served.pipe_to_outbound (h : Served I got₀ put₀ s) (hopen : s.outboundShutdown = false) :
    s.pipeToOutbound.Leaves
      (fun _ s' => Served I got₀ put₀ s' ∧ s'.threadData.readCount = s.threadData.readCount + 1)
      (fun e s' => Broken I got₀ put₀ e s') := by
  unfold pipeToOutbound
  rcases s.threadData.read_cases s.tcp.conn.remainingOutboundCapacity with
    ⟨f', e, hrun, hthrows, honly, new, hnew⟩ | ⟨f', data, hrun, honly, hle, hgot, hcount, -⟩
  · rw [hrun, Outcome.into_and_then_error rfl]
    refine Outcome.leaves_fail ⟨.inl hthrows, h.core, ?_, ?_⟩
    · change _ <+: f'.got.flatten
      rw [hnew, List.flatten_append, h.got]
      exact List.prefix_append _ _
    · change f'.put.flatten <+: _
      rw [honly.put_eq]
      exact (h.broken (e := e) (.inl hthrows)).put
  · rw [hrun, Outcome.into_and_then_ok rfl]
    have hall : s.tcp.conn.sender.stream.accepts data = data.length := ByteStream.accepts_all hle
    have hwrite : Served I got₀ put₀ ((s.setThreadData f').act (.write data)) := by
      have hc := h.coupled.use (e := s.tcp.act [] (.write data)) (u := .write data) rfl (by simp)
      refine ⟨hI.act _ _ _ (.write data) h.core (h.coupled.ended hopen),
        ⟨hc.queued, hc.ended, hc.sent⟩, ?_, ?_⟩
      · change f'.got.flatten = got₀ ++
          (s.tcp.accepted ++ data.take (s.tcp.conn.sender.stream.accepts data))
        rw [hall, hgot, List.flatten_append, h.got, List.take_length]
        simp
      · change f'.put.flatten = _
        rw [honly.put_eq]
        exact h.put
    have hwhole : (s.setThreadData f').tcp.conn.sender.stream.accepts data = data.length := hall
    change (if (s.setThreadData f').tcp.conn.sender.stream.accepts data ≠ data.length then _
      else _ : Outcome _ _ _).Leaves _ _
    rw [if_neg (not_not.mpr hwhole)]
    split
    · refine Outcome.leaves_done ⟨⟨?_, hwrite.coupled.end_outbound, hwrite.got, hwrite.put⟩, hcount⟩
      exact hI.act _ _ _ .endInputStream hwrite.core trivial
    · exact Outcome.leaves_done ⟨hwrite, hcount⟩

/-- Rule 3. -/
theorem Served.inbound_to_pipe (h : Served I got₀ put₀ s) :
    s.inboundToPipe.Leaves
      (fun _ s' => Served I got₀ put₀ s' ∧ s'.threadData.writeCount ≠ s.threadData.writeCount)
      (fun e s' => Broken I got₀ put₀ e s') := by
  unfold inboundToPipe
  simp only
  generalize hn : min 65536 s.tcp.conn.inboundStream.bufferSize = n
  obtain ⟨chunks, hw⟩ :=
    s.threadData.write_list_written ⟨[s.tcp.conn.inboundStream.peekOutput n]⟩ false
  have hin : chunks.flatten <+: s.tcp.conn.inboundStream.peekOutput n := by
    simpa [BufferList.concatenate] using hw.inOrder
  generalize s.threadData.writeList ⟨[s.tcp.conn.inboundStream.peekOutput n]⟩ false = o at hw ⊢
  have hput : o.state.put.flatten = s.threadData.put.flatten ++ chunks.flatten := by
    rw [hw.put, List.flatten_append]
  have hgot : o.state.got.flatten = got₀ ++ s.tcp.accepted := by
    rw [hw.others.got_eq]
    exact h.got
  cases hr : o.result with
  | error e =>
    rw [Outcome.into_and_then_error hr]
    refine Outcome.leaves_fail ⟨.inl (hw.throws e hr), h.core, ?_, ?_⟩
    · exact ⟨[], (List.append_nil _).trans hgot.symm⟩
    · change o.state.put.flatten <+:
        put₀ ++ (s.tcp.taken ++ s.tcp.conn.inboundStream.buffer)
      rw [hput, h.put, ← List.append_assoc, List.prefix_append_right_inj]
      exact hin.trans (List.take_prefix _ _)
  | ok t =>
    rw [Outcome.into_and_then_ok hr]
    obtain rfl : t = chunks.flatten.length := by rw [hw.counted t hr, Nat.zero_add]
    have hcount := hw.counted_once hr
    have htaken : s.tcp.conn.inboundStream.peekOutput chunks.flatten.length = chunks.flatten :=
      ByteStream.peek_of_prefix (hin.trans (List.take_prefix _ _))
    have hread : ∀ f : FileDescriptor, f.got = o.state.got → f.put = o.state.put →
        ∀ shutdown, Served I got₀ put₀ { (s.setThreadData f).act (.read chunks.flatten.length) with
          inboundShutdown := shutdown } := by
      intro f hfgot hfput shutdown
      have hc := h.coupled.use (e := s.tcp.act [] (.read chunks.flatten.length))
        (u := .read chunks.flatten.length) rfl (by simp)
      refine ⟨hI.act _ _ _ (.read chunks.flatten.length) h.core trivial,
        ⟨hc.queued, hc.ended, hc.sent⟩, ?_, ?_⟩
      · change f.got.flatten = _
        rw [hfgot]
        exact hgot
      · change f.put.flatten = put₀ ++
          (s.tcp.taken ++ s.tcp.conn.inboundStream.peekOutput chunks.flatten.length)
        rw [hfput, hput, h.put, htaken, List.append_assoc]
    split
    · change ((((o.state.shutdown .wr)).into _).andThen _).Leaves _ _
      rcases o.state.shutdown_wr_cases with ⟨f', errno, hrun, hf'⟩ | ⟨f', hrun, hf'⟩
      · rw [hrun, Outcome.into_and_then_error rfl]
        have hserved := hread f' (by rw [hf']) (by rw [hf']) s.inboundShutdown
        exact Outcome.leaves_fail (hserved.broken (.inl (.inl ⟨_, _, rfl⟩)))
      · rw [hrun, Outcome.into_and_then_ok rfl]
        refine Outcome.leaves_done ⟨hread f' (by rw [hf']) (by rw [hf']) true, ?_⟩
        change f'.writeCount ≠ _
        rw [hf', hcount]
        exact FileDescriptor.count_succ_succ_ne _
    · refine Outcome.leaves_done ⟨hread o.state rfl rfl s.inboundShutdown, ?_⟩
      change o.state.writeCount ≠ _
      rw [hcount]
      exact FileDescriptor.count_succ_ne _

/-- Rule 4. -/
theorem Served.write_segments (h : Served I got₀ put₀ s) {segs : List TCPSegment}
    (hsegs : s.segmentsOut = segs) :
    (writeSegments segs s).Leaves
      (fun _ s' => Served I got₀ put₀ s' ∧ s'.segmentsOut = [])
      (fun e s' => Broken I got₀ put₀ e s') := by
  induction segs generalizing s with
  | nil => exact Outcome.leaves_done ⟨h, hsegs⟩
  | cons seg rest ih =>
    have hlen : s.popped < s.tcp.conn.segmentsOut.length := by
      by_contra hge
      rw [segmentsOut, List.drop_eq_nil_of_le (Nat.not_lt.mp hge)] at hsegs
      cases hsegs
    have hmem : seg ∈ s.tcp.conn.segmentsOut := by
      refine List.mem_of_mem_drop (i := s.popped) ?_
      rw [segmentsOut] at hsegs
      rw [hsegs]
      exact List.mem_cons_self
    have hwrite := hI.write _ _ _ seg h.core hmem
    rw [writeSegments]
    cases hr : (FdAdapter.write s.datagramAdapter seg).result with
    | error e =>
      rw [Outcome.Leaves, hr] at hwrite
      rw [Outcome.into_and_then_error hr]
      exact Outcome.leaves_fail (h.adapter_broken hwrite (.inr (.inl ⟨_, _, hr⟩)))
    | ok _ =>
      rw [Outcome.Leaves, hr] at hwrite
      rw [Outcome.into_and_then_ok hr]
      refine ih (h.adapter hwrite hlen) ?_
      change s.tcp.conn.segmentsOut.drop (s.popped + 1) = rest
      rw [← List.tail_drop]
      rw [segmentsOut] at hsegs
      rw [hsegs, List.tail_cons]

end Served

section Loop

variable [FdAdapter α] {I : α → Endpoint → Nat → Prop} {got₀ put₀ : Bytes}
  {s : TCPSpongeSocket α}

/-- The rules that are left are some of the four, and the socket is in order. -/
structure Serving (I : α → Endpoint → Nat → Prop) (got₀ put₀ : Bytes)
    (rules : List (Rule (TCPSpongeSocket α))) (s : TCPSpongeSocket α) : Prop where
  left : ∀ rule ∈ rules, rule ∈ (eventloop (α := α)).rules
  ordered : (rules.map Rule.number).Pairwise (· < ·)
  served : Served I got₀ put₀ s

/-- There is nothing to do for a rule. A connection that is done may come back when its stream is
ended once more, but it sends something then. -/
def Quiet (rule : Rule (TCPSpongeSocket α)) (s : TCPSpongeSocket α) : Prop :=
  rule.interest s = false ∨ rule.number = 0 ∧ s.segmentsOut ≠ []

/-- What stays known of a rule until its turn comes: the pipe is read only while the stream is
open, and a rule that was not to be asked about stays without interest. -/
def Known (rule : Rule (TCPSpongeSocket α)) (events : Option Direction) (s : TCPSpongeSocket α) :
    Prop :=
  (rule.number = 1 → events.isSome → s.outboundShutdown = false) ∧ (events = none → Quiet rule s)

theorem rules_eq : (eventloop (α := α)).rules =
    [⟨0, fun s => FdAdapter.fd s.datagramAdapter, .In, packetToConnection,
        fun s => s.tcp.conn.active, fun s => .done s ()⟩,
      ⟨1, (·.threadData), .In, pipeToOutbound, outboundInterest, fun s => .done s.endOutbound ()⟩,
      ⟨2, (·.threadData), .Out, inboundToPipe, inboundInterest, fun s => .done s ()⟩,
      ⟨3, fun s => FdAdapter.fd s.datagramAdapter, .Out, segmentsToPackets,
        fun s => !s.segmentsOut.isEmpty, fun s => .done s ()⟩] := rfl

theorem Known.asked {rule : Rule (TCPSpongeSocket α)} (hrule : rule ∈ (eventloop (α := α)).rules) :
    Known rule (if rule.interest s then some rule.direction else none) s := by
  refine ⟨fun hnumber hsome => ?_, fun hnone => .inl ?_⟩
  · have hinterest : rule.interest s = true := by
      by_contra hno
      rw [if_neg hno] at hsome
      cases hsome
    simp only [rules_eq, List.mem_cons, List.not_mem_nil, or_false] at hrule
    rcases hrule with rfl | rfl | rfl | rfl
    · cases hnumber
    · simp only [outboundInterest, Bool.and_eq_true, Bool.not_eq_true'] at hinterest
      exact hinterest.1.2
    · cases hnumber
    · cases hnumber
  · by_contra hno
    rw [if_pos (by simpa using hno)] at hnone
    cases hnone

/-- The end of the stream leaves what is known of the first rule. -/
theorem Known.end_outbound {rule : Rule (TCPSpongeSocket α)} {events : Option Direction}
    (hrule : rule ∈ (eventloop (α := α)).rules) (h : Known rule events s)
    (hother : rule.number ≠ 1) (hfirst : events = none → rule.number = 0) (hc : s.Coupled) :
    Known rule events s.endOutbound := by
  refine ⟨fun hnumber => absurd hnumber hother, fun hnone => ?_⟩
  have hzero := hfirst hnone
  have hgrown : s.tcp.conn.segmentsOut.length <
      (s.tcp.conn.use .endInputStream).segmentsOut.length → Quiet rule s.endOutbound := by
    intro hlt
    refine .inr ⟨hzero, fun hnil => ?_⟩
    have hle := List.drop_eq_nil_iff.mp hnil
    exact absurd (Nat.le_trans hle hc.sent) (Nat.not_le.mpr hlt)
  simp only [rules_eq, List.mem_cons, List.not_mem_nil, or_false] at hrule
  rcases hrule with rfl | rfl | rfl | rfl
  · rcases h.2 hnone with hdead | ⟨-, hout⟩
    · rcases TCPConnection.ended_again hdead with hdead | hlt
      · exact .inl hdead
      · exact hgrown hlt
    · refine .inr ⟨rfl, fun hnil => hout ?_⟩
      obtain ⟨-, new, hnew, -⟩ := TCPConnection.use_speaks hc.queued .endInputStream
      have hle := List.drop_eq_nil_iff.mp hnil
      change (s.tcp.conn.use .endInputStream).segmentsOut.length ≤ s.popped at hle
      rw [hnew, List.length_append] at hle
      exact List.drop_eq_nil_of_le (Nat.le_trans (Nat.le_add_right _ _) hle)
  · cases hzero
  · cases hzero
  · cases hzero

/-- The four rules keep to it. -/
theorem served_serves (hI : Drives I) :
    EventLoop.Serves (Serving I got₀ put₀) (Known (α := α)) (fun e _ s => Broken I got₀ put₀ e s) where
  asked := fun rules rule s hmem h _ _ => Known.asked (h.left rule hmem)
  callback := by
    intro before rule after s h hk
    have hrule := h.left rule (List.mem_append_right _ List.mem_cons_self)
    have hp := EventLoop.placed h.ordered
    have hlater : ∀ s' : TCPSpongeSocket α,
        (s.outboundShutdown = false → s'.outboundShutdown = false) ∨ 1 ≤ rule.number →
        ∀ r ∈ after, Known r (some r.direction) s → Known r (some r.direction) s' := by
      intro s' hshut r hr hknown
      refine ⟨fun hnumber hsome => ?_, by simp⟩
      rcases hshut with hshut | hge
      · exact hshut (hknown.1 hnumber hsome)
      · have := hp.later r hr
        omega
    simp only [rules_eq, List.mem_cons, List.not_mem_nil, or_false] at hrule
    rcases hrule with rfl | rfl | rfl | rfl
    · refine (h.served.packet_to_connection hI).mono ?_ (fun _ _ hb => hb)
      rintro _ s' ⟨hserved, hshut, hcount⟩
      refine ⟨⟨h.left, h.ordered, hserved⟩, hlater s' (.inl fun ho => hshut.trans ho), ?_⟩
      intro hsame _
      exact absurd (hcount.symm.trans hsame.symm) (FileDescriptor.count_succ_ne _)
    · refine (h.served.pipe_to_outbound hI (hk.1 rfl rfl)).mono ?_ (fun _ _ hb => hb)
      rintro _ s' ⟨hserved, hcount⟩
      refine ⟨⟨h.left, h.ordered, hserved⟩, hlater s' (.inr (Nat.le_refl 1)), ?_⟩
      intro hsame _
      exact absurd (hcount.symm.trans hsame.symm) (FileDescriptor.count_succ_ne _)
    · refine (h.served.inbound_to_pipe hI).mono ?_ (fun _ _ hb => hb)
      rintro _ s' ⟨hserved, hcount⟩
      refine ⟨⟨h.left, h.ordered, hserved⟩, hlater s' (.inr (Nat.le_add_left 1 1)), ?_⟩
      intro hsame _
      exact absurd hsame.symm hcount
    · refine (h.served.write_segments hI rfl).mono ?_ (fun _ _ hb => hb)
      rintro _ s' ⟨hserved, hempty⟩
      refine ⟨⟨h.left, h.ordered, hserved⟩, hlater s' (.inr (Nat.le_add_left 1 2)), ?_⟩
      intro _ hinterest
      change (!s'.segmentsOut.isEmpty) = true at hinterest
      rw [hempty] at hinterest
      cases hinterest
  cancel := by
    intro before rule after s h
    have hrule := h.left rule (List.mem_append_right _ List.mem_cons_self)
    have hp := EventLoop.placed h.ordered
    have hleft : ∀ r ∈ before ++ after, r ∈ (eventloop (α := α)).rules := by
      intro r hr
      refine h.left r ?_
      simp only [List.mem_append, List.mem_cons] at hr ⊢
      tauto
    have hsame : Serving I got₀ put₀ (before ++ after) s := ⟨hleft, hp.ordered, h.served⟩
    simp only [rules_eq, List.mem_cons, List.not_mem_nil, or_false] at hrule
    rcases hrule with rfl | rfl | rfl | rfl
    · exact Outcome.leaves_done ⟨hsame, fun _ _ _ hk => hk, fun _ _ hk => hk⟩
    · have hserved := h.served
      have hended : Served I got₀ put₀ s.endOutbound :=
        ⟨hI.act _ _ _ .endInputStream hserved.core trivial, hserved.coupled.end_outbound,
          hserved.got, hserved.put⟩
      refine Outcome.leaves_done ⟨⟨hleft, hp.ordered, hended⟩, fun r hr events hk => ?_,
        fun r hr hk => ?_⟩
      · have hlt : r.number < 1 := hp.earlier r hr
        exact hk.end_outbound (hleft r (List.mem_append_left _ hr)) (by omega) (fun _ => by omega)
          hserved.coupled
      · have hlt : 1 < r.number := hp.later r hr
        exact hk.end_outbound (hleft r (List.mem_append_right _ hr)) (by omega) (by simp)
          hserved.coupled
    · exact Outcome.leaves_done ⟨hsame, fun _ _ _ hk => hk, fun _ _ hk => hk⟩
    · exact Outcome.leaves_done ⟨hsame, fun _ _ _ hk => hk, fun _ _ hk => hk⟩
  polled := fun rules s h => h.served.broken (.inr (.inl rfl))

theorem Served.act (hI : Drives I) (h : Served I got₀ put₀ s) {u : Act} {v : ConnUse}
    (hopen : s.tcp.WriteOpen s.tcp u) (huse : (s.tcp.act [] u).conn = s.tcp.conn.use v)
    (hv : v ≠ .endInputStream) (hacc : (s.tcp.act [] u).accepted = s.tcp.accepted)
    (htaken : (s.tcp.act [] u).taken = s.tcp.taken) : Served I got₀ put₀ (s.act u) := by
  have hc := h.coupled.use huse hv
  refine ⟨hI.act _ _ _ u h.core hopen, ⟨hc.queued, hc.ended, hc.sent⟩, ?_, ?_⟩
  · change s.threadData.got.flatten = got₀ ++ (s.tcp.act [] u).accepted
    rw [hacc]
    exact h.got
  · change s.threadData.put.flatten = put₀ ++ (s.tcp.act [] u).taken
    rw [htaken]
    exact h.put

variable {rules : List (Rule (TCPSpongeSocket α))}

/-- One turn. If it is the last one, and not because the socket was let go or a signal came, there
was nothing left to do. -/
theorem Serving.turn (hI : Drives I) (h : Serving I got₀ put₀ rules s) (r : Round)
    (baseTime : UInt64) :
    (turn r baseTime rules s).Leaves
      (fun next x => Serving I got₀ put₀ x.1 x.2 ∧ (next = none → r.abort = false →
        (∀ fds, r.poll fds ≠ .error EINTR) → ∀ rule ∈ x.1, Quiet rule x.2))
      (fun e x => Broken I got₀ put₀ e x.2) := by
  refine ((served_serves hI).wait_next_event h).and_then fun ret x hx => ?_
  obtain ⟨hserving, hquiet⟩ := hx
  split
  · rename_i hlast
    refine Outcome.leaves_done ⟨hserving, fun _ hstay hno rule hrule => ?_⟩
    have hexit : ret = .exit := hlast.resolve_right (by simp [hstay])
    exact (hquiet hexit hno rule hrule).2 rfl
  split
  · have htick : Served I got₀ put₀ (x.2.act (.tick (r.now - baseTime).toNat)) :=
      hserving.served.act hI (v := .tick (r.now - baseTime).toNat) trivial rfl (by simp) rfl rfl
    have hadapter := hI.tick _ _ _ (r.now - baseTime) htick.core
    dsimp only
    cases hr : (FdAdapter.tick (x.2.act (.tick (r.now - baseTime).toNat)).datagramAdapter
        (r.now - baseTime)).result with
    | error e =>
      rw [Outcome.Leaves, hr] at hadapter
      rw [Outcome.into_and_then_error hr]
      exact Outcome.leaves_fail (htick.adapter_broken hadapter (.inr (.inr ⟨_, _, hr⟩)))
    | ok _ =>
      rw [Outcome.Leaves, hr] at hadapter
      rw [Outcome.into_and_then_ok hr]
      refine Outcome.leaves_done ⟨⟨hserving.left, hserving.ordered, ?_⟩, by simp⟩
      exact htick.adapter hadapter htick.coupled.sent
  · exact Outcome.leaves_done ⟨hserving, by simp⟩

/-- The socket was let go, or a signal came while it waited. -/
def Round.Stopped (r : Round) : Prop := r.abort = true ∨ ∃ fds, r.poll fds = .error EINTR

theorem Serving.tcp_loop (hI : Drives I) (h : Serving I got₀ put₀ rules s)
    (condition : TCPSpongeSocket α → Bool) (rounds : List Round) (baseTime : UInt64) :
    (tcpLoop condition rounds baseTime rules s).Leaves
      (fun ended x => Serving I got₀ put₀ x.1 x.2 ∧ (ended = true → condition x.2 = false ∨
        (∃ r ∈ rounds, r.Stopped) ∨ ∀ rule ∈ x.1, Quiet rule x.2))
      (fun e x => Broken I got₀ put₀ e x.2) := by
  induction rounds generalizing baseTime rules s with
  | nil => exact Outcome.leaves_done ⟨h, fun hend => .inl (by simpa using hend)⟩
  | cons r rounds ih =>
    rw [tcpLoop]
    split
    · refine (h.turn hI r baseTime).and_then fun next x hx => ?_
      obtain ⟨hserving, hquiet⟩ := hx
      cases next with
      | none =>
        refine Outcome.leaves_done ⟨hserving, fun _ => .inr ?_⟩
        by_cases hstop : r.Stopped
        · exact .inl ⟨r, List.mem_cons_self, hstop⟩
        · rw [Round.Stopped, not_or, not_exists] at hstop
          exact .inr (hquiet rfl (by simpa using hstop.1) hstop.2)
      | some next =>
        refine (ih hserving next).mono (fun ended y hy => ⟨hy.1, fun hend => ?_⟩) fun _ _ hb => hb
        refine (hy.2 hend).imp_right (Or.imp_left ?_)
        rintro ⟨r', hmem, hstop⟩
        exact ⟨r', List.mem_cons_of_mem _ hmem, hstop⟩
    · rename_i hcond
      exact Outcome.leaves_done ⟨h, fun _ => .inl (by simpa using hcond)⟩

end Loop

end TCPSpongeSocket

end Sponge
