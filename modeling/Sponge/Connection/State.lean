import Mathlib.Logic.Relation
import Sponge.Connection.Backoff
import Sponge.Connection.Linger
import Sponge.Sender.InFlight

namespace Sponge

/-- The summaries of the state of a receiver. -/
inductive TCPReceiverStateSummary where
  | error
  | listen
  | synRecv
  | finRecv
  deriving DecidableEq, Repr

/-- The strings that stand for them in the source. -/
def TCPReceiverStateSummary.text : TCPReceiverStateSummary → String
  | .error => "error (connection was reset)"
  | .listen => "waiting for SYN: ackno is empty"
  | .synRecv => "SYN received (ackno exists), and input to stream hasn't ended"
  | .finRecv => "input to stream has ended"

/-- A connection's state in four parts. -/
structure TCPState where
  sender : TCPSenderStateSummary
  receiver : TCPReceiverStateSummary
  active : Bool := true
  lingerAfterStreamsFinish : Bool := true
  deriving DecidableEq, Repr

/-- The official names of states. -/
inductive TCPState.State where
  | listen
  | synRcvd
  | synSent
  | established
  | closeWait
  | lastAck
  | finWait1
  | finWait2
  | closing
  | timeWait
  | closed
  | reset
  deriving DecidableEq, Repr

namespace TCPState

/-- `TCPState::state_summary` of a receiver. -/
def receiverSummary (receiver : TCPReceiver) : TCPReceiverStateSummary :=
  if receiver.streamOut.error = true then .error
  else if receiver.ackno = none then .listen
  else if receiver.streamOut.inputEnded = true then .finRecv
  else .synRecv

/-- The constructor from a sender, a receiver and two flags. -/
def new (sender : TCPSender) (receiver : TCPReceiver) (active linger : Bool) : TCPState where
  sender := stateSummary sender
  receiver := receiverSummary receiver
  active := active
  lingerAfterStreamsFinish := if active then linger else false

/-- The constructor from an official name. -/
def ofState : State → TCPState
  | .listen => { sender := .closed, receiver := .listen }
  | .synRcvd => { sender := .synSent, receiver := .synRecv }
  | .synSent => { sender := .synSent, receiver := .listen }
  | .established => { sender := .synAcked, receiver := .synRecv }
  | .closeWait =>
    { sender := .synAcked, receiver := .finRecv, lingerAfterStreamsFinish := false }
  | .lastAck => { sender := .finSent, receiver := .finRecv, lingerAfterStreamsFinish := false }
  | .closing => { sender := .finSent, receiver := .finRecv }
  | .finWait1 => { sender := .finSent, receiver := .synRecv }
  | .finWait2 => { sender := .finAcked, receiver := .synRecv }
  | .timeWait => { sender := .finAcked, receiver := .finRecv }
  | .reset =>
    { sender := .error, receiver := .error, lingerAfterStreamsFinish := false, active := false }
  | .closed =>
    { sender := .finAcked, receiver := .finRecv, lingerAfterStreamsFinish := false, active := false }

def name (s : TCPState) : String :=
  "sender=`" ++ s.sender.text ++ "`, receiver=`" ++ s.receiver.text ++ "`, active=" ++
    (if s.active then "1" else "0") ++ ", linger_after_streams_finish=" ++
    (if s.lingerAfterStreamsFinish then "1" else "0")

end TCPState

def TCPConnection.state (x : TCPConnection) : TCPState :=
  .new x.sender x.receiver x.active x.lingerAfterStreamsFinish

section Stages

/-- How far a sender has come. -/
def TCPSenderStateSummary.stage : TCPSenderStateSummary → Nat
  | .closed => 0
  | .synSent => 1
  | .synAcked => 2
  | .finSent => 3
  | .finAcked => 4
  | .error => 5

/-- How far a receiver has come. -/
def TCPReceiverStateSummary.stage : TCPReceiverStateSummary → Nat
  | .listen => 0
  | .synRecv => 1
  | .finRecv => 2
  | .error => 3

end Stages

namespace TCPSender

/-- The whole stream is sent, with its end. -/
def Through (s : TCPSender) : Prop := s.stream.eof = true ∧ s.stream.bytesWritten + 2 ≤ s.nextSeqno

/-- `s'` is a later state of the sender than `s`. What is acknowledged stays so, and once the
whole stream is sent nothing more comes into flight. -/
structure Ahead (s s' : TCPSender) : Prop where
  next : s.nextSeqno ≤ s'.nextSeqno
  gap : s.nextSeqno + s'.bytesInFlight ≤ s'.nextSeqno + s.bytesInFlight
  through : s.Through → s'.Through ∧ s'.bytesInFlight ≤ s.bytesInFlight
  ended : s.stream.inputEnd = true → s'.stream.inputEnd = true

section Ahead

variable {s s' s'' : TCPSender} {W : Bytes} {seg : TCPSegment} {stream : ByteStream}

theorem Ahead.refl (s : TCPSender) : s.Ahead s :=
  ⟨Nat.le_refl _, Nat.le_refl _, fun h => ⟨h, Nat.le_refl _⟩, id⟩

theorem Ahead.trans (h : s.Ahead s') (h' : s'.Ahead s'') : s.Ahead s'' where
  next := Nat.le_trans h.next h'.next
  gap := by
    have hfirst := h.gap
    have hsecond := h'.gap
    omega
  through := fun ht => by
    obtain ⟨ht', hle⟩ := h.through ht
    obtain ⟨ht'', hle'⟩ := h'.through ht'
    exact ⟨ht'', Nat.le_trans hle' hle⟩
  ended := fun he => h'.ended (h.ended he)

/-- Steps that touch neither the stream nor the numbers. -/
theorem Ahead.keep (hstream : s'.stream = s.stream) (hnext : s'.nextSeqno = s.nextSeqno)
    (hflight : s'.bytesInFlight ≤ s.bytesInFlight) : s.Ahead s' where
  next := Nat.le_of_eq hnext.symm
  gap := by omega
  through := fun ht => ⟨by rw [Through, hstream, hnext]; exact ht, hflight⟩
  ended := fun he => hstream ▸ he

/-- What a fresh segment leaves of a stream that is through is all of it. -/
theorem Fresh.nothing (hf : Fresh s seg stream) (h : s.Through) :
    seg.payload = [] ∧ stream.bufferEmpty = true := by
  have hempty := (ByteStream.eof_iff.mp h.1).2
  simp only [ByteStream.bufferEmpty, decide_eq_true_eq, List.length_eq_zero_iff] at hempty ⊢
  have htaken := hf.taken
  rw [hempty] at htaken
  exact List.append_eq_nil_iff.mp htaken

theorem Fresh.written (hf : Fresh s seg stream) (ht : s.Taped W) :
    stream.bytesWritten = s.stream.bytesWritten := by
  have hold := ht.stream.counted
  have hnew := hf.counted.counted
  have hread := hf.read
  have hlen := congrArg List.length hf.taken
  rw [List.length_append] at hlen
  simp only [ByteStream.bytesRead, ByteStream.bytesWritten] at hread ⊢
  omega

theorem Ahead.transmit (ht : s.Taped W) (hs : Transmits s seg stream) :
    s.Ahead ({ s with stream := stream }.transmit seg) where
  next := Nat.le_add_right _ _
  gap := by
    rw [ht.flight_transmit]
    change _ ≤ s.nextSeqno + seg.lengthInSequenceSpace + _
    omega
  through := fun hd => by
    exfalso
    rcases hs.due with hpay | hlt
    · exact hpay (hs.toFresh.nothing hd).1
    · have hle := hd.2
      omega
  ended := fun he => hs.ended.trans he

theorem Ahead.probe (ht : s.Taped W) (hp : Probes s seg stream) :
    s.Ahead ({ s with stream := stream }.probe seg) where
  next := Nat.le_add_right _ _
  gap := by
    change _ + s.bytesInFlight ≤ s.nextSeqno + seg.lengthInSequenceSpace + s.bytesInFlight
    omega
  through := fun hd => by
    obtain ⟨heof, hle⟩ := hd
    refine ⟨⟨ByteStream.eof_iff.mpr ⟨?_, (hp.toFresh.nothing ⟨heof, hle⟩).2⟩, ?_⟩, Nat.le_refl _⟩
    · exact hp.ended.trans (ByteStream.eof_iff.mp heof).1
    · change stream.bytesWritten + 2 ≤ s.nextSeqno + seg.lengthInSequenceSpace
      rw [hp.toFresh.written ht]
      omega
  ended := fun he => hp.ended.trans he

theorem Ahead.fill_window (ht : s.Taped W) : s.Ahead s.fillWindow :=
  (fill_window_preserves (Q := Ahead s) ht (.refl s)
    (fun _ _ _ ht h hs => h.trans (.transmit ht hs))
    (fun _ _ _ ht h hp => h.trans (.probe ht hp))).2

theorem Ahead.tick (s : TCPSender) (ms : Nat) : s.Ahead (s.tick ms) :=
  tick_preserves (Q := Ahead s) (.refl s)
    (fun _ _ _ _ _ h => h.trans (.keep rfl rfl (Nat.le_refl _)))
    (fun _ h _ => h.trans (.keep rfl rfl (Nat.le_refl _)))
    (fun _ _ _ _ h _ => h.trans (.keep rfl rfl (Nat.le_refl _))) ms

theorem flight_retire_le (s : TCPSender) (ack : Nat) :
    (s.retire ack).bytesInFlight ≤ s.bytesInFlight :=
  ((unacked_sublist ack s.outstandingSegs.entries).map _).sum_le_sum fun _ _ => Nat.zero_le _

theorem Ahead.ack_received (s : TCPSender) (ackno : WrappingInt32) (win : UInt16) :
    s.Ahead (s.ackReceived ackno win) := by
  unfold ackReceived
  cases s.ackSeqno ackno with
  | none => exact .refl s
  | some ack => exact .keep rfl rfl (s.flight_retire_le ack)

/-- Bytes are written while the stream is open, so it is not through. -/
theorem Ahead.write (hopen : s.stream.inputEnded = false) (data : Bytes) :
    s.Ahead { s with stream := s.stream.write data } where
  next := Nat.le_refl _
  gap := Nat.le_refl _
  through := fun hd => by
    have hend := (ByteStream.eof_iff.mp hd.1).1
    rw [hopen] at hend
    cases hend
  ended := id

theorem Ahead.end_input (s : TCPSender) : s.Ahead { s with stream := s.stream.endInput } where
  next := Nat.le_refl _
  gap := Nat.le_refl _
  through := fun hd =>
    ⟨⟨ByteStream.eof_iff.mpr ⟨rfl, (ByteStream.eof_iff.mp hd.1).2⟩, hd.2⟩, Nat.le_refl _⟩
  ended := fun _ => rfl

theorem Ahead.set_error (s : TCPSender) : s.Ahead { s with stream := s.stream.setError } where
  next := Nat.le_refl _
  gap := Nat.le_refl _
  through := fun hd => ⟨hd, Nat.le_refl _⟩
  ended := id

/-- So the summary goes forward. -/
theorem Ahead.stage (h : s.Ahead s') (herror : s.stream.error = true → s'.stream.error = true)
    (hle : s.bytesInFlight ≤ s.nextSeqno) :
    (TCPState.stateSummary s).stage ≤ (TCPState.stateSummary s').stage := by
  have htop : ∀ t : TCPSenderStateSummary, t.stage ≤ 5 := by
    intro t
    cases t <;> decide
  have hnext := h.next
  have hgap := h.gap
  unfold TCPState.stateSummary nextSeqnoAbsolute
  by_cases herr : s'.stream.error = true
  · rw [if_pos herr]
    exact htop _
  rw [if_neg herr, if_neg fun he => herr (herror he)]
  by_cases hclosed : s.nextSeqno = 0
  · rw [if_pos hclosed]
    exact Nat.zero_le _
  rw [if_neg hclosed, if_neg (by omega : ¬ s'.nextSeqno = 0)]
  by_cases hsyn : s.nextSeqno = s.bytesInFlight
  · rw [if_pos hsyn]
    repeat' split
    all_goals decide
  rw [if_neg hsyn, if_neg (by omega : ¬ s'.nextSeqno = s'.bytesInFlight)]
  by_cases hthrough : s.Through
  · obtain ⟨hthrough', hfewer⟩ := h.through hthrough
    rw [if_neg (not_not_intro hthrough.1), if_neg (not_not_intro hthrough'.1),
      if_neg (Nat.not_lt.mpr hthrough.2), if_neg (Nat.not_lt.mpr hthrough'.2)]
    by_cases hflight : s.bytesInFlight ≠ 0
    · rw [if_pos hflight]
      split <;> decide
    · rw [if_neg hflight, if_neg (by omega)]
  · have hsent : (if ¬ s.stream.eof = true then TCPSenderStateSummary.synAcked
        else if s.nextSeqno < s.stream.bytesWritten + 2 then .synAcked
        else if s.bytesInFlight ≠ 0 then .finSent else .finAcked) = .synAcked := by
      by_cases heof : s.stream.eof = true
      · rw [if_neg (not_not_intro heof), if_pos]
        exact Nat.not_le.mp fun hle => hthrough ⟨heof, hle⟩
      · rw [if_pos heof]
    rw [hsent]
    repeat' split
    all_goals decide

end Ahead

end TCPSender

namespace TCPReceiver

/-- `r'` is a later state of the receiver than `r`. -/
structure Ahead (r r' : TCPReceiver) : Prop where
  error : r.streamOut.error = true → r'.streamOut.error = true
  synced : r.isnSet = true → r'.isnSet = true
  ended : r.streamOut.inputEnded = true → r'.streamOut.inputEnded = true

section Ahead

variable {r r' r'' : TCPReceiver}

theorem Ahead.refl (r : TCPReceiver) : r.Ahead r := ⟨id, id, id⟩

theorem Ahead.trans (h : r.Ahead r') (h' : r'.Ahead r'') : r.Ahead r'' :=
  ⟨fun he => h'.error (h.error he), fun hs => h'.synced (h.synced hs),
    fun he => h'.ended (h.ended he)⟩

theorem Ahead.segment_received (r : TCPReceiver) (seg : TCPSegment) :
    r.Ahead (r.segmentReceived seg) := by
  have ho := r.segment_received_onward seg
  refine ⟨fun he => ho.error.trans he, fun hs => ?_, ho.ended⟩
  rw [segment_received_isn_set, hs, Bool.or_true]

theorem ackno_eq_none_iff : r.ackno = none ↔ r.isnSet = false := by
  unfold ackno
  cases r.isnSet with
  | false => simp
  | true => cases r.streamOut.inputEnded <;> simp

theorem Ahead.stage (h : r.Ahead r') :
    (TCPState.receiverSummary r).stage ≤ (TCPState.receiverSummary r').stage := by
  unfold TCPState.receiverSummary
  by_cases herr : r'.streamOut.error = true
  · rw [if_pos herr]
    repeat' split
    all_goals decide
  rw [if_neg herr, if_neg fun he => herr (h.error he)]
  cases hset : r.isnSet with
  | false =>
    rw [if_pos (ackno_eq_none_iff.mpr hset)]
    exact Nat.zero_le _
  | true =>
    have hsynced : ∀ {q : TCPReceiver}, q.isnSet = true → ¬ q.ackno = none := by
      intro q hq hnone
      rw [ackno_eq_none_iff.mp hnone] at hq
      cases hq
    rw [if_neg (hsynced hset), if_neg (hsynced (h.synced hset))]
    by_cases hend : r.streamOut.inputEnded = true
    · rw [if_pos hend, if_pos (h.ended hend)]
    · rw [if_neg hend]
      split <;> decide

theorem Ahead.set_error (r : TCPReceiver) :
    r.Ahead { r with
      reassembler := { r.reassembler with output := r.reassembler.output.setError } } :=
  ⟨fun _ => rfl, id, id⟩

theorem Ahead.read_out (r : TCPReceiver) (len : Nat) : r.Ahead (r.readOut len) :=
  ⟨id, id, id⟩

end Ahead

end TCPReceiver

namespace TCPConnection

/-- `y` is a later state of the connection than `x`. A connection that is not to linger stays
so, and which of the two it is, is settled with the end of its own stream. -/
structure Later (x y : TCPConnection) : Prop where
  queue : y.sender.Queued
  sender : x.sender.Ahead y.sender
  failed : x.sender.stream.error = true → y.sender.stream.error = true
  receiver : x.receiver.Ahead y.receiver
  passive : x.lingerAfterStreamsFinish = false → y.lingerAfterStreamsFinish = false
  settled : x.sender.stream.inputEnded = true →
    y.lingerAfterStreamsFinish = x.lingerAfterStreamsFinish

section Later

variable {x y z : TCPConnection}

theorem Later.refl (h : x.sender.Queued) : x.Later x :=
  ⟨h, .refl _, id, .refl _, id, fun _ => rfl⟩

theorem Later.trans (h : x.Later y) (h' : y.Later z) : x.Later z where
  queue := h'.queue
  sender := h.sender.trans h'.sender
  failed := fun he => h'.failed (h.failed he)
  receiver := h.receiver.trans h'.receiver
  passive := fun hp => h'.passive (h.passive hp)
  settled := fun he => (h'.settled (h.sender.ended he)).trans (h.settled he)

/-- The sender goes on, and nothing else. -/
theorem Later.step (h : x.Later y) {s : TCPSender} (hq : s.Queued) (ha : y.sender.Ahead s)
    (he : y.sender.stream.error = true → s.stream.error = true) :
    x.Later { y with sender := s } :=
  h.trans ⟨hq, ha, he, .refl _, id, fun _ => rfl⟩

theorem Later.forwarded (x : TCPConnection) : Forwarded (Later x) where
  empty := fun _ h => h.step h.queue.send_empty (.keep rfl rfl (Nat.le_refl _)) id
  forward := fun y _ _ _ h _ hq _ =>
    h.trans ⟨h.queue.take hq, .keep rfl rfl (Nat.le_refl _), id, .refl y.receiver, id,
      fun _ => rfl⟩

theorem Later.fill (h : x.Later y) : x.Later { y with sender := y.sender.fillWindow } := by
  obtain ⟨W, ht⟩ := h.queue.taped
  apply h.step h.queue.fill_window (.fill_window ht)
  rw [(TCPSender.paced_fill_window y.sender).error]
  exact id

theorem Later.take_ack (h : x.Later y) (seg : TCPSegment) : x.Later (y.takeAck seg) := by
  have hack : x.Later
      { y with sender := y.sender.ackReceived seg.header.ackno seg.header.win } := by
    apply h.step (h.queue.ack_received _ _) (.ack_received _ _ _)
    rw [TCPSender.stream_ack_received]
    exact id
  unfold takeAck
  simp only
  split
  · exact hack.fill
  · exact hack

/-- The two flags are set: that of lingering only while the own stream is open. -/
theorem Later.note_ends (h : x.Later y) : x.Later y.noteEnds := by
  refine h.trans ⟨h.queue, .refl _, id, .refl _, fun hp => ?_, fun he => ?_⟩
  · simp only [noteEnds, hp, ite_self]
  · simp only [noteEnds, he, Bool.not_true, Bool.and_false, Bool.false_eq_true, ↓reduceIte]

theorem Later.set_errors (h : x.Later y) : x.Later y.setErrors :=
  h.trans ⟨h.queue.set_error, .set_error _, fun _ => rfl, .set_error _, id, fun _ => rfl⟩

theorem Later.segment_received (h : x.Later y) (seg : TCPSegment) :
    x.Later (y.segmentReceived seg) := by
  cases hactive : y.active with
  | false =>
    rw [TCPConnection.segmentReceived, if_pos hactive]
    exact h
  | true =>
    cases hrst : seg.header.rst with
    | true =>
      rw [TCPConnection.segmentReceived, if_neg (by simp [hactive]), if_pos hrst]
      exact h.set_errors
    | false =>
      have hrecv : x.Later { y with receiver := y.receiver.segmentReceived seg } :=
        h.trans ⟨h.queue, .refl _, id, .segment_received _ _, id, fun _ => rfl⟩
      apply (forwarded x).segment_received hactive hrst ?_ (fun _ hz _ => hz.fill)
      split
      · exact (hrecv.take_ack seg).note_ends
      · exact hrecv.note_ends

theorem Later.time_passes (h : x.Later y) (ms : Nat) : x.Later (y.tick ms) := by
  have htick : x.Later { y with sender := y.sender.tick ms } := by
    apply h.step (h.queue.tick ms) (.tick _ ms)
    rw [TCPSender.stream_tick]
    exact id
  have hnote : x.Later ({ y with sender := y.sender.tick ms }.noteTime ms) :=
    htick.trans ⟨htick.queue, .refl _, id, .refl _, id, fun _ => rfl⟩
  have hgive : x.Later ({ y with sender := y.sender.tick ms }.noteTime ms).giveUp := by
    unfold giveUp
    split
    · exact (forwarded x).send_rst_seg hnote.set_errors
    · exact hnote
  unfold TCPConnection.tick
  simp only
  split
  · exact h
  split
  · exact (forwarded x).send_all_segs hgive
  · exact hgive

end Later

/-- The owner writes only before it has ended its stream. -/
def WriteOpen (x : TCPConnection) : ConnUse → Prop
  | .write _ => x.sender.stream.inputEnded = false
  | _ => True

instance (x : TCPConnection) (u : ConnUse) : Decidable (x.WriteOpen u) := by
  unfold WriteOpen
  cases u <;> infer_instance

/-- Every use takes the connection on. -/
theorem Later.use {x y : TCPConnection} (h : x.Later y) {u : ConnUse} (hu : y.WriteOpen u) :
    x.Later (y.use u) := by
  cases u with
  | connect => exact (forwarded x).connect h h.fill
  | write data =>
    have hwrite : x.Later
        { y with sender := { y.sender with stream := y.sender.stream.write data } } :=
      h.step (h.queue.write data) (.write hu data) id
    unfold TCPConnection.use TCPConnection.write
    simp only
    split
    · exact (forwarded x).send_all_segs hwrite.fill
    · exact hwrite
  | endInputStream =>
    have hend : x.Later
        { y with sender := { y.sender with stream := y.sender.stream.endInput } } :=
      h.step h.queue.end_input (.end_input _) id
    exact (forwarded x).send_all_segs hend.fill
  | tick ms => exact h.time_passes ms
  | read len => exact h.trans ⟨h.queue, .refl _, id, .read_out _ len, id, fun _ => rfl⟩
  | segmentReceived seg => exact h.segment_received seg

end TCPConnection

namespace TCPState

/-- What a later state may be, in the four parts. -/
structure Follows (s t : TCPState) : Prop where
  sender : s.sender.stage ≤ t.sender.stage
  receiver : s.receiver.stage ≤ t.receiver.stage
  passive : s.active = true → s.lingerAfterStreamsFinish = false →
    t.lingerAfterStreamsFinish = false
  settled : s.sender = .finSent ∨ s.sender = .finAcked → s.active = true → t.active = true →
    t.lingerAfterStreamsFinish = s.lingerAfterStreamsFinish

/-- The state diagram of a connection. -/
def State.next : State → List State
  | .listen => [.synSent, .synRcvd, .reset]
  | .synSent => [.synRcvd, .established, .reset]
  | .synRcvd => [.established, .finWait1, .reset]
  | .established => [.finWait1, .closeWait, .reset]
  | .finWait1 => [.finWait2, .closing, .timeWait, .reset]
  | .finWait2 => [.timeWait, .reset]
  | .closing => [.timeWait, .reset]
  | .closeWait => [.lastAck, .reset]
  | .lastAck => [.closed, .reset]
  | .timeWait => [.closed, .reset]
  | .closed => []
  | .reset => []

/-- One edge of it. -/
def State.Next (s t : State) : Prop := t ∈ s.next

/-- The states that are at most `n` edges away. -/
def State.within : Nat → State → List State
  | 0, s => [s]
  | n + 1, s => s :: s.next.flatMap (within n)

theorem State.reaches_of_within {n : Nat} {s t : State} (h : t ∈ within n s) :
    Relation.ReflTransGen Next s t := by
  induction n generalizing s with
  | zero =>
    rw [List.mem_singleton.mp h]
  | succ n ih =>
    cases List.mem_cons.mp h with
    | inl heq => rw [heq]
    | inr hmem =>
      obtain ⟨u, hu, ht⟩ := List.mem_flatMap.mp hmem
      exact .head hu (ih ht)

/-- Between two of the named states the diagram has a way, but for those that come back after
the end. -/
theorem Follows.path {s t : State} (h : Follows (ofState s) (ofState t)) :
    Relation.ReflTransGen State.Next s t ∨ s = .closed ∧ (t = .timeWait ∨ t = .reset) := by
  have hsender := h.sender
  have hreceiver := h.receiver
  have hpassive := h.passive
  have hsettled := h.settled
  cases s <;> cases t
  all_goals first
    | exact .inl (State.reaches_of_within (n := 4) (by decide))
    | exact absurd hsender (by decide)
    | exact absurd hreceiver (by decide)
    | exact absurd (hpassive rfl rfl) (by decide)
    | exact absurd (hsettled (.inl rfl) rfl rfl) (by decide)
    | exact .inr ⟨rfl, by decide⟩

end TCPState

namespace TCPConnection

section Summary

variable {x y : TCPConnection}

/-- The FIN is sent only at the end of the stream. -/
theorem summary_ended {s : TCPSender}
    (h : TCPState.stateSummary s = .finSent ∨ TCPState.stateSummary s = .finAcked) :
    s.stream.inputEnded = true := by
  have heof : s.stream.eof = true := by
    by_contra heof
    unfold TCPState.stateSummary at h
    rw [if_pos heof] at h
    repeat' split at h
    all_goals cases h <;> contradiction
  exact (ByteStream.eof_iff.mp heof).1

theorem Later.follows (h : x.Later y) (hle : x.sender.bytesInFlight ≤ x.sender.nextSeqno) :
    TCPState.Follows x.state y.state where
  sender := h.sender.stage h.failed hle
  receiver := h.receiver.stage
  passive := fun hactive hlinger => by
    simp only [state, TCPState.new] at hactive hlinger ⊢
    rw [if_pos hactive] at hlinger
    rw [h.passive hlinger, ite_self]
  settled := fun hsent hactive hactive' => by
    simp only [state, TCPState.new] at hsent hactive hactive' ⊢
    rw [if_pos hactive, if_pos hactive', h.settled (summary_ended hsent)]

end Summary

theorem new_later (cfg : TCPConfig) (random : WrappingInt32) {us : List ConnUse}
    (h : Run.Along use WriteOpen (new cfg random) us) :
    (new cfg random).Later (Run.final use (new cfg random) us) :=
  (Run.always_of_invariant (I := Later (new cfg random)) (.refl (TCPSender.new_queued _ _ _)) h
    (fun _ _ hx hu => hx.use hu) (fun _ h => h)).final

/-- The states of a connection, where they have a name, follow one another along the state
diagram, whatever segments come in, if the owner writes only before it ends its stream. Only a
closed connection can come back: its owner ends the stream once more, and into a closed window
the FIN goes out again. -/
theorem states_along_diagram (cfg : TCPConfig) (random : WrappingInt32) (us vs : List ConnUse)
    (hopen : Run.Along use WriteOpen (new cfg random) (us ++ vs)) {s t : TCPState.State}
    (hs : (Run.final use (new cfg random) us).state = .ofState s)
    (ht : (Run.final use (new cfg random) (us ++ vs)).state = .ofState t) :
    Relation.ReflTransGen TCPState.State.Next s t ∨
      s = .closed ∧ (t = .timeWait ∨ t = .reset) := by
  obtain ⟨hus, hvs⟩ := Run.Along.append.mp hopen
  have hx := new_later cfg random hus
  have hle : (Run.final use (new cfg random) us).sender.bytesInFlight ≤
      (Run.final use (new cfg random) us).sender.nextSeqno := by
    have hgap : 0 + _ ≤ _ + 0 := hx.sender.gap
    omega
  have hy := Run.always_of_invariant (Q := fun y => TCPState.Follows _ y.state)
    (Later.refl hx.queue) hvs (fun _ _ hy hu => hy.use hu) (fun _ hy => hy.follows hle)
  have hfollows := hy.final
  rw [← Run.final_append, hs, ht] at hfollows
  exact hfollows.path

/-- A byte is sent, the peer acknowledges it with its FIN, and the connection closes too. -/
theorem states_along_diagram_close :
    let us : List ConnUse := [.connect, .segmentReceived { header :=
      { syn := true, ack := true, seqno := ⟨100⟩, ackno := ⟨8⟩, win := 10 } }]
    let vs : List ConnUse := [.write [1], .segmentReceived { header :=
      { ack := true, fin := true, seqno := ⟨101⟩, ackno := ⟨9⟩, win := 10 } }]
    let ws : List ConnUse := [.endInputStream, .segmentReceived { header :=
      { ack := true, seqno := ⟨102⟩, ackno := ⟨10⟩, win := 10 } }]
    (Run.final use (new {} ⟨7⟩) us).state = .ofState .established ∧
      (Run.final use (new {} ⟨7⟩) (us ++ vs)).state = .ofState .closeWait ∧
      (Run.final use (new {} ⟨7⟩) (us ++ (vs ++ ws))).state = .ofState .closed ∧
      (Relation.ReflTransGen TCPState.State.Next .established .closed ∨
        TCPState.State.established = .closed ∧
          (TCPState.State.closed = .timeWait ∨ TCPState.State.closed = .reset)) := by
  intro us vs ws
  have hopened : (Run.final use (new {} ⟨7⟩) us).state = .ofState .established := by
    decide +kernel
  have hclosed : (Run.final use (new {} ⟨7⟩) (us ++ (vs ++ ws))).state = .ofState .closed := by
    decide +kernel
  exact ⟨hopened, by decide +kernel, hclosed,
    states_along_diagram {} ⟨7⟩ us (vs ++ ws) (by decide +kernel) hopened hclosed⟩

end TCPConnection

end Sponge
