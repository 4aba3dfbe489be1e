import Sponge.Connection.Session
import Sponge.Reassembler.Session

namespace Sponge

open StreamReassembler Word64

namespace TCPReceiver

/-- What a receiver does not take back. -/
structure Advances (r r' : TCPReceiver) : Prop where
  set : r.isnSet = true → r'.isnSet = true
  read : r.streamOut.read ≤ r'.streamOut.read
  ended : r.streamOut.inputEnd = true → r'.streamOut.inputEnd = true
  capacity : r'.streamOut.capacity = r.streamOut.capacity
  counted : r.streamOut.Counted → r'.streamOut.Counted

theorem Advances.refl (r : TCPReceiver) : Advances r r := ⟨id, Nat.le_refl _, id, rfl, id⟩

theorem advances_segment_received (r : TCPReceiver) (seg : TCPSegment) :
    Advances r (r.segmentReceived seg) := by
  have ho := r.segment_received_onward seg
  refine ⟨fun h => by simp [h], Nat.le_of_eq ho.read.symm, ho.ended, ho.capacity, fun hc => ?_⟩
  simp only [segmentReceived]
  split
  · exact push_counted (by simpa [streamOut] using hc) _ _ _
  · simpa [streamOut] using hc

theorem advances_read_out (r : TCPReceiver) (len : Nat) : Advances r (r.readOut len) :=
  ⟨id, Nat.le_add_right _ _, id, rfl, fun hc => hc.pop len⟩

/-- The right edge of the receiver's window. -/
def edge (r : TCPReceiver) : Nat := r.received + r.windowSize

/-- The right edge is the capacity past the bytes read, and the SYN and the FIN. -/
theorem edge_eq {r : TCPReceiver} (hset : r.isnSet = true) (hc : r.streamOut.Counted) :
    r.edge = r.streamOut.read + r.streamOut.capacity +
      (if r.streamOut.inputEnded = true then 2 else 1) := by
  obtain ⟨hw, hb⟩ := hc
  simp only [edge, received, windowSize, ByteStream.remainingCapacity, ByteStream.bytesWritten,
    if_pos hset]
  omega

theorem Advances.edge_le {r r' : TCPReceiver} (h : Advances r r') (hset : r.isnSet = true)
    (hc : r.streamOut.Counted) : r.edge ≤ r'.edge := by
  have hread := h.read
  rw [edge_eq hset hc, edge_eq (h.set hset) (h.counted hc), h.capacity]
  by_cases hend : r.streamOut.inputEnded = true
  · rw [if_pos hend, if_pos (show r'.streamOut.inputEnded = true from h.ended hend)]
    omega
  · rw [if_neg hend]
    split <;> omega

theorem window_size_le (r : TCPReceiver) : r.windowSize ≤ r.streamOut.capacity :=
  Nat.sub_le _ _

/-- A first segment with SYN and at most a byte leaves the rest of the capacity. -/
theorem window_size_first (capacity : Nat) (seg : TCPSegment) (hsyn : seg.header.syn = true)
    (hfin : seg.header.fin = false)
    (hdata : seg.payload.length = 0 ∨ seg.payload.length = 1 ∧ 0 < capacity % 2 ^ 64) :
    ((new capacity).segmentReceived seg).windowSize = capacity - seg.payload.length := by
  have hindex : ((new capacity).noteSyn seg).pushIndex seg = 0 := by
    simp only [pushIndex, noteSyn, hsyn, ↓reduceIte]
    have hone : seg.header.seqno.plus 1 = wrap 1 seg.header.seqno := rfl
    rw [hone, unwrap_near _ (by decide) (by simp [new, streamOut, StreamReassembler.new,
      ByteStream.new, ByteStream.bytesWritten]) (by simp [new, streamOut, StreamReassembler.new,
      ByteStream.new, ByteStream.bytesWritten]) (by simp)]
    rfl
  have hset : ((new capacity).noteSyn seg).isnSet = true := by simp [noteSyn, hsyn]
  simp only [windowSize, streamOut, segmentReceived, hset, ↓reduceIte, hindex, hfin,
    note_syn_reassembler]
  change ((StreamReassembler.new capacity).pushSubstring seg.payload
    (StreamReassembler.new capacity).output.bytesWritten false).output.remainingCapacity = _
  by_cases hcap : 0 < capacity % 2 ^ 64
  · have hroom : seg.payload.length ≤ capacity ∧ capacity ≠ 0 := by omega
    have hfit : seg.payload.length ≤ (StreamReassembler.new capacity).emptySize := by
      rw [new_empty_size]
      omega
    have hwin : 0 < (StreamReassembler.new capacity).windowEnd := by rwa [new_window_end]
    rw [push_first (r := .new capacity) rfl hwin hfit hroom.1 hroom.2]
    simp only [StreamReassembler.new, ByteStream.new, ByteStream.write, ByteStream.accepts,
      ByteStream.remainingCapacity, List.length_nil, List.nil_append, List.length_take]
    omega
  · rw [push_beyond (by rw [new_window_end]; omega)]
    change capacity - 0 = _
    omega

end TCPReceiver

namespace TCPConnection

/-- The segments with ACK that a use puts out. -/
def acksOf (x : TCPConnection) (u : ConnUse) : List TCPSegment :=
  ((x.use u).segmentsOut.drop x.segmentsOut.length).filter (·.header.ack)

theorem advances_use (x : TCPConnection) (u : ConnUse) :
    x.receiver.Advances (x.use u).receiver :=
  use_receiver (.refl _) (fun _ h => ⟨h.set, h.read, h.ended, h.capacity,
      fun hc => ⟨(h.counted hc).counted, (h.counted hc).bounded⟩⟩)
    (fun seg _ => x.receiver.advances_segment_received seg) x.receiver.advances_read_out

/-- What an emitted acknowledgment says is what the receiver says after the call. -/
theorem mem_acks_of {x : TCPConnection} (h : x.sender.Queued) {u : ConnUse} {g : TCPSegment}
    (hg : g ∈ x.acksOf u) : (x.use u).receiver.ackno = some g.header.ackno ∧
      g.header.win = UInt16.ofNat (x.use u).receiver.windowSize := by
  obtain ⟨new, hnew, hsaid⟩ := (use_speaks h u).said
  rw [acksOf, hnew, List.drop_left, List.mem_filter] at hg
  exact hsaid g hg.1 hg.2

theorem new_active (cfg : TCPConfig) (random : WrappingInt32) : (new cfg random).active = true := by
  simp [active, new, TCPSender.new, TCPReceiver.new, TCPReceiver.streamOut, StreamReassembler.new,
    ByteStream.new, timeWaitState, ByteStream.eof, ByteStream.inputEnded]

theorem first_syn_answered (cfg : TCPConfig) (random : WrappingInt32) (seg : TCPSegment)
    (hsyn : seg.header.syn = true) (hrst : seg.header.rst = false) (hack : seg.header.ack = false) :
    ((new cfg random).segmentReceived seg).receiver =
        (TCPReceiver.new cfg.recvCapacity).segmentReceived seg ∧
      ((new cfg random).segmentReceived seg).segmentsOut =
        [stamp ((TCPReceiver.new cfg.recvCapacity).segmentReceived seg)
          { header := { syn := true, seqno := cfg.fixedIsn.getD random } }] := by
  have hlen : seg.lengthInSequenceSpace ≠ 0 := by
    simp [TCPSegment.lengthInSequenceSpace, hsyn]
  have hackno : ((TCPReceiver.new cfg.recvCapacity).segmentReceived seg).ackno.isSome = true := by
    rw [TCPReceiver.ackno_of_set (by simp [hsyn])]
    rfl
  unfold segmentReceived
  rw [new_active]
  simp only [hrst, hack, Bool.true_eq_false, Bool.false_eq_true, ↓reduceIte, hlen, ne_eq,
    not_false_eq_true, true_and, false_and]
  have hr : (new cfg random).receiver = TCPReceiver.new cfg.recvCapacity := rfl
  rw [hr]
  generalize (TCPReceiver.new cfg.recvCapacity).segmentReceived seg = r at hackno
  simp [noteEnds, hackno, reply, new, TCPSender.new, TCPSender.nextSeqnoAbsolute,
    TCPSender.fillWindow, TCPSender.sendSyn, TCPSender.transmit, TCPSender.startTimer,
    ensureSegment, sendCommonSeg, sendAllSegs]

end TCPConnection

/-- A connection in use, and the right edges of the windows it has advertised: the
absolute number acknowledged, plus the window. -/
structure EdgeSession where
  conn : TCPConnection
  edges : List Nat := []

namespace EdgeSession

open TCPConnection

def new (cfg : TCPConfig) (random : WrappingInt32) : EdgeSession := { conn := .new cfg random }

def step (x : EdgeSession) (u : ConnUse) : EdgeSession :=
  { conn := x.conn.use u
    edges := x.edges ++
      (x.conn.acksOf u).map (fun g => (x.conn.use u).receiver.received + g.header.win.toNat) }

/-- Each segment put out with ACK acknowledges what the receiver has, and its window is
the receiver's, as far as the field goes. -/
def Advertises (isn : WrappingInt32) (x : EdgeSession) (u : ConnUse) : Prop :=
  ∀ g ∈ x.conn.acksOf u,
    g.header.ackno = wrap (x.conn.use u).receiver.received isn ∧
      g.header.win.toNat = min (x.conn.use u).receiver.windowSize 65535

/-- In the run every window is the right one and no right edge is left of one before. -/
def NeverShrinks (isn : WrappingInt32) (x : EdgeSession) (us : List ConnUse) : Prop :=
  Run.Along step (Advertises isn) x us ∧ (Run.final step x us).edges.Pairwise (· ≤ ·)

/-- Every SYN received has this sequence number. -/
def SynsAt (isn : WrappingInt32) (us : List ConnUse) : Prop :=
  ∀ seg, .segmentReceived seg ∈ us → seg.header.syn = true → seg.header.seqno = isn

/-- What holds of a connection with a window the header field can hold. -/
structure Sound (isn : WrappingInt32) (x : EdgeSession) : Prop where
  queue : x.conn.sender.Queued
  counted : x.conn.receiver.streamOut.Counted
  small : x.conn.receiver.streamOut.capacity ≤ 65535
  synced : x.conn.receiver.isnSet = true → x.conn.receiver.isn = isn
  sorted : x.edges.Pairwise (· ≤ ·)
  below : ∀ e ∈ x.edges, x.conn.receiver.isnSet = true ∧ e ≤ x.conn.receiver.edge

section Steps

variable {isn : WrappingInt32} {x : EdgeSession} {u : ConnUse}

/-- The initial sequence number stays what the SYNs say. -/
theorem Sound.synced_use (h : x.Sound isn)
    (hu : ∀ seg, u = .segmentReceived seg → seg.header.syn = true → seg.header.seqno = isn) :
    (x.conn.use u).receiver.isnSet = true → (x.conn.use u).receiver.isn = isn := by
  refine use_receiver (P := fun r => r.isnSet = true → r.isn = isn) h.synced (fun _ h => h) ?_
    (fun _ => h.synced)
  intro seg heq hset
  rw [TCPReceiver.segment_received_isn]
  split
  · exact hu seg heq ‹_›
  · rename_i hsyn
    refine h.synced ?_
    simpa [hsyn] using hset

theorem Sound.advertises (h : x.Sound isn)
    (hu : ∀ seg, u = .segmentReceived seg → seg.header.syn = true → seg.header.seqno = isn) :
    ∀ g ∈ x.conn.acksOf u, (x.conn.use u).receiver.isnSet = true ∧
      g.header.ackno = wrap (x.conn.use u).receiver.received isn ∧
      g.header.win.toNat = (x.conn.use u).receiver.windowSize ∧
      (x.conn.use u).receiver.windowSize ≤ 65535 := by
  intro g hg
  obtain ⟨hack, hwin⟩ := mem_acks_of h.queue hg
  obtain ⟨hset, hackno⟩ := TCPReceiver.ackno_eq hack
  have hle := (x.conn.use u).receiver.window_size_le
  rw [(advances_use x.conn u).capacity] at hle
  have hsmall := h.small
  refine ⟨hset, by rw [hackno, h.synced_use hu hset], ?_, by omega⟩
  rw [hwin, UInt16.toNat_ofNat', Nat.mod_eq_of_lt (by omega)]

theorem Sound.step (h : x.Sound isn)
    (hu : ∀ seg, u = .segmentReceived seg → seg.header.syn = true → seg.header.seqno = isn) :
    (x.step u).Sound isn := by
  have hadv := advances_use x.conn u
  have hsaid := h.advertises hu
  have hnew : ∀ e ∈ (x.conn.acksOf u).map
      (fun g => (x.conn.use u).receiver.received + g.header.win.toNat),
      (x.conn.use u).receiver.isnSet = true ∧ e = (x.conn.use u).receiver.edge := by
    intro e he
    obtain ⟨g, hg, rfl⟩ := List.mem_map.mp he
    obtain ⟨hset, -, hwin, -⟩ := hsaid g hg
    exact ⟨hset, by rw [hwin, TCPReceiver.edge]⟩
  have hold : ∀ e ∈ x.edges, e ≤ (x.conn.use u).receiver.edge := by
    intro e he
    obtain ⟨hset, hle⟩ := h.below e he
    exact Nat.le_trans hle (hadv.edge_le hset h.counted)
  refine ⟨(use_speaks h.queue u).queue, hadv.counted h.counted, hadv.capacity ▸ h.small,
    h.synced_use hu, ?_, ?_⟩
  · refine List.pairwise_append.mpr ⟨h.sorted, ?_, ?_⟩
    · refine List.pairwise_of_forall_mem_list ?_
      intro d hd e he
      rw [(hnew d hd).2, (hnew e he).2]
    · intro d hd e he
      rw [(hnew e he).2]
      exact hold d hd
  · intro e he
    rcases List.mem_append.mp he with he | he
    · exact ⟨hadv.set (h.below e he).1, hold e he⟩
    · exact ⟨(hnew e he).1, Nat.le_of_eq (hnew e he).2⟩

end Steps

/-- A SYN, with a byte where the field would happen to be right without it, is answered
with a window that is not the receiver's. -/
theorem wrong_window (cfg : TCPConfig) (random : WrappingInt32) (h : 65535 < cfg.recvCapacity) :
    ∃ seg : TCPSegment, seg.header.seqno = ⟨0⟩ ∧
      ¬ (new cfg random).Advertises ⟨0⟩ (.segmentReceived seg) := by
  let seg : TCPSegment :=
    { header := { syn := true }, payload := if cfg.recvCapacity % 65536 = 65535 then [0] else [] }
  refine ⟨seg, rfl, fun hadv => ?_⟩
  have hlen : seg.payload.length = if cfg.recvCapacity % 65536 = 65535 then 1 else 0 := by
    simp only [seg]
    split <;> rfl
  obtain ⟨hrecv, hout⟩ := first_syn_answered cfg random seg rfl rfl rfl
  have hwin := TCPReceiver.window_size_first cfg.recvCapacity seg rfl rfl
    (by split at hlen <;> omega)
  have hackno := TCPReceiver.ackno_of_set (r := (TCPReceiver.new cfg.recvCapacity).segmentReceived
    seg) (by simp [seg])
  have hsaid := hadv (stamp ((TCPReceiver.new cfg.recvCapacity).segmentReceived seg)
    { header := { syn := true, seqno := cfg.fixedIsn.getD random } })
    (by
      simp only [acksOf, use, new, hout]
      simp [stamp, hackno, TCPConnection.new])
  have hfield := hsaid.2
  simp only [new, use, hrecv, hwin, stamp, hackno, UInt16.toNat_ofNat'] at hfield
  split at hlen <;> omega

/-- The window never shrinks in any run just when the capacity fits into the header's
field for it. -/
theorem window_never_shrinks_iff (cfg : TCPConfig) (random : WrappingInt32) :
    (∀ isn us, SynsAt isn us → NeverShrinks isn (new cfg random) us) ↔
      cfg.recvCapacity ≤ 65535 := by
  constructor
  · intro h
    by_contra hgt
    obtain ⟨seg, hseqno, hwrong⟩ := wrong_window cfg random (Nat.lt_of_not_le hgt)
    refine hwrong (h ⟨0⟩ [.segmentReceived seg] ?_).1.1
    intro g hg _
    cases List.mem_singleton.mp hg
    exact hseqno
  · intro hcap isn us hsyns
    have hstart : (new cfg random).Sound isn :=
      ⟨TCPSender.new_queued _ _ _, ByteStream.counted_new _, hcap, by simp [new, TCPConnection.new,
        TCPReceiver.new], .nil, by simp [new]⟩
    have hsyn : ∀ u ∈ us, ∀ seg, u = .segmentReceived seg → seg.header.syn = true →
        seg.header.seqno = isn := by
      rintro u hu seg rfl
      exact hsyns seg hu
    refine ⟨Run.along_of_invariant hstart (Run.along_of_mem hsyn) (fun x u hx hu => hx.step hu) ?_,
      (Run.invariant_of_mem (I := Sound isn) hstart (fun x u hu hx => hx.step (hsyn u hu))).sorted⟩
    intro x u hx hu g hg
    obtain ⟨-, hackno, hwin, hle⟩ := hx.advertises hu g hg
    exact ⟨hackno, by rw [hwin, Nat.min_eq_left hle]⟩

/-- A capacity of 2^16 bytes is advertised as none at all. -/
theorem capacity_advertised_as_zero :
    ¬ ∀ (cfg : TCPConfig) (random isn : WrappingInt32) (us : List ConnUse),
      SynsAt isn us → NeverShrinks isn (new cfg random) us := by
  intro h
  obtain ⟨seg, hseqno, hwrong⟩ := wrong_window { recvCapacity := 65536 } ⟨0⟩ (by decide)
  refine hwrong (h { recvCapacity := 65536 } ⟨0⟩ ⟨0⟩ [.segmentReceived seg] ?_).1.1
  intro g hg _
  cases List.mem_singleton.mp hg
  exact hseqno

end EdgeSession

end Sponge
