import Sponge.Network.Delivery
import Sponge.Sender.Closing

namespace Sponge

open TCPConnection StreamReassembler

/-- The segment cannot be cut where its end mark is lost track of, nor make the
reassembler cut another that has the mark. -/
def TCPReceiver.EofSafe (r : TCPReceiver) (seg : TCPSegment) : Prop :=
  (r.noteSyn seg).isnSet = true →
    r.reassembler.EofSafe seg.payload ((r.noteSyn seg).pushIndex seg) seg.header.fin

instance (r : TCPReceiver) (seg : TCPSegment) : Decidable (r.EofSafe seg) :=
  inferInstanceAs (Decidable (_ → _))

theorem TCPConnection.Copy.eof_safe {seg copy : TCPSegment} (h : Copy seg copy) (r : TCPReceiver) :
    r.EofSafe copy ↔ r.EofSafe seg := by
  rw [TCPReceiver.EofSafe, TCPReceiver.EofSafe, h.note_syn, h.push_index, h.fin, h.payload]

/-- The end of the stream in one direction: FIN comes last on the sender's tape, and
end marks stand only where it stands. -/
structure Ends (s : TCPSender) (r : TCPReceiver) : Prop where
  closing : s.Closing
  marks : Sealed (finAt s.tape) r.reassembler
  capacity : r.reassembler.capacity < 2 ^ 64

theorem new_ends (cfg cfg' : TCPConfig) (random random' : WrappingInt32)
    (hc : cfg'.recvCapacity < 2 ^ 64) : Ends (new cfg random).sender (new cfg' random').receiver :=
  ⟨TCPSender.new_closing .., new_sealed .., hc⟩

namespace Ends

variable {W taken : Bytes} {s s' : TCPSender} {out back : List TCPSegment} {r : TCPReceiver}

theorem sender (h : Ends s r) (hc : s.Continues s') (hcl : s'.Closing) : Ends s' r := by
  refine ⟨hcl, ?_, h.capacity⟩
  obtain ⟨ys, hys⟩ := hc.tape
  rw [hys]
  exact h.marks.imp (fun _ hf => hf.grow ys)

theorem arrive (h : Ends s r) (hl : Link W taken s out r back) (hW : W.length < 2 ^ 31)
    {g : TCPSegment} (hg : g ∈ out) (hsafe : r.EofSafe g) : Ends s (r.segmentReceived g) := by
  obtain ⟨e, he, hcopy⟩ := hl.copies g hg
  rw [hcopy.segment_received]
  rw [hcopy.eof_safe] at hsafe
  have hr := hl.taped.sent e he
  have hrec := hl.receives.note_syn hl.taped hr
  have hsame := r.note_syn_reassembler e.seg
  unfold TCPReceiver.EofSafe at hsafe
  rw [← hsame] at hsafe
  have h' : Ends s (r.noteSyn e.seg) := ⟨h.closing, hsame ▸ h.marks, hsame ▸ h.capacity⟩
  unfold TCPReceiver.segmentReceived
  generalize r.noteSyn e.seg = r' at hrec h' hsafe
  simp only
  split
  · rename_i hset
    have hbw := Nat.lt_of_le_of_lt (hrec.written_le hl.taped) hW
    have hp := TCPReceiver.push_index_piece hl.taped hr (hrec.synced hset).1 hbw (hl.next_lt hW)
    have hord : ∀ i b j, tapeByte s.tape i b → finAt s.tape j → i < j := fun i b j hb hf => by
      have := h.closing.order (i + 1) (j + 1) b hb hf
      omega
    exact ⟨h'.closing, h'.marks.push hord hrec.faithful hrec.wf h'.capacity hp.lt hp.carries hp.ends
      (hsafe hset), (push_capacity hrec.wf hp.lt _).symm ▸ h'.capacity⟩
  · exact h'

/-- Where end marks stand right, an ended stream is whole. -/
theorem complete (h : Ends s r) (hl : Link W taken s out r back)
    (hend : r.streamOut.inputEnded = true) :
    s.stream.inputEnded = true ∧ r.streamOut.bytesWritten = W.length := by
  have hfin : s.tape[r.streamOut.bytesWritten + 1]? = some .fin := h.marks.ended hend
  refine ⟨(h.closing.ended (List.mem_of_getElem? hfin)).1, ?_⟩
  have := h.closing.length_lt_fin hl.taped hfin
  have := hl.receives.written_le hl.taped
  omega

end Ends

namespace Endpoint

/-- The direction from `e` to `p`, with its end. -/
def EndTo (e p : Endpoint) : Prop := e.LinkTo p ∧ Ends e.conn.sender p.conn.receiver

theorem ends_kept (W taken : Bytes) (p : Endpoint) : Kept (fun x =>
    EndTo ⟨x, W, taken⟩ p ∧ EndTo p ⟨x, W, taken⟩) where
  fill := fun _ ⟨⟨hl, h⟩, hp⟩ => ⟨⟨hl.fill_window,
    h.sender (TCPSender.continues_fill_window hl.taped) (h.closing.fill_window hl.taped)⟩, hp⟩
  tick := fun x ms ⟨⟨hl, h⟩, hp⟩ =>
    ⟨⟨hl.tick ms, h.sender (x.sender.continues_tick ms) (h.closing.tick ms)⟩, hp⟩
  empty := fun _ ⟨⟨hl, h⟩, hp⟩ => ⟨⟨hl.send_empty, h.sender (.one rfl rfl rfl)
    (h.closing.keep (TCPSender.tape_append_again rfl) rfl rfl)⟩, hp⟩
  errors := fun _ ⟨⟨hl, h⟩, hl', h'⟩ =>
    ⟨⟨hl.sender_error, h.sender (.same rfl rfl rfl) h.closing.set_error⟩, hl'.receiver_error,
      ⟨h'.closing, ⟨h'.marks.stored, h'.marks.ended⟩, h'.capacity⟩⟩
  flags := fun _ _ _ h => h
  forward := fun _ _ _ _ ⟨⟨hl, h⟩, hl', h'⟩ hseg hq hc =>
    ⟨⟨hl.put_out hseg hq hc.toCopy, ⟨h.closing.keep rfl rfl rfl, h.marks, h.capacity⟩⟩,
      hl'.put_back (hl.queue_bare hseg) hc, h'⟩

/-- No write comes after the end of the input. -/
def WriteOpen (e _ : Endpoint) : Act → Prop
  | .write _ => e.conn.sender.stream.inputEnded = false
  | _ => True

instance (e p : Endpoint) : (u : Act) → Decidable (e.WriteOpen p u)
  | .write _ => inferInstanceAs (Decidable (_ = _))
  | .connect | .endInputStream | .tick _ | .read _ | .deliver _ => .isTrue trivial

/-- A segment that gets through to the receiver is safe there. -/
def SafeArrival (e p : Endpoint) : Act → Prop
  | .deliver k => ∀ seg ∈ p.conn.segmentsOut[k]?, e.conn.active = true →
      seg.header.rst = false → e.conn.receiver.EofSafe seg
  | _ => True

instance (e p : Endpoint) : (u : Act) → Decidable (e.SafeArrival p u)
  | .deliver _ => inferInstanceAs (Decidable (∀ seg ∈ _, _))
  | .connect | .endInputStream | .tick _ | .read _ | .write _ => .isTrue trivial

theorem ends_act {e p : Endpoint} {u : Act} (he : e.EndTo p) (hp : p.EndTo e)
    (hs : e.accepted.length < 2 ^ 31) (hs' : p.accepted.length < 2 ^ 31)
    (ho : e.WriteOpen p u) (hu : e.SafeArrival p u) :
    (e.act p.conn.segmentsOut u).EndTo p ∧ p.EndTo (e.act p.conn.segmentsOut u) := by
  have hk := ends_kept e.accepted e.taken p
  cases u with
  | connect => exact hk.connect ⟨he, hp⟩
  | write data =>
    exact (ends_kept (e.accepted ++ data.take (e.conn.sender.stream.accepts data)) e.taken p).write
      ⟨⟨he.1.write data, he.2.sender (.same rfl rfl rfl) (he.2.closing.write ho data)⟩, hp⟩
  | endInputStream =>
    exact hk.end_input_stream
      ⟨⟨he.1.end_input, he.2.sender (.same rfl rfl rfl) he.2.closing.end_input⟩, hp⟩
  | tick ms => exact hk.time_passes ⟨he, hp⟩ ms
  | read len =>
    exact ⟨he, hp.1.read len, ⟨hp.2.closing, ⟨hp.2.marks.stored, hp.2.marks.ended⟩, hp.2.capacity⟩⟩
  | deliver k =>
    simp only [act]
    split
    · rename_i seg hget
      have hseg := List.mem_of_getElem? hget
      refine hk.segment_received ⟨he, hp⟩ ?_ ?_
      · intro hactive hrst
        exact ⟨he, hp.1.arrive hs' hseg, hp.2.arrive hp.1 hs' hseg (hu seg hget hactive hrst)⟩
      · rintro x ⟨⟨hl, h⟩, hp⟩ hack
        exact ⟨⟨hl.ack_received hs hseg hack, h.sender (x.sender.continues_ack_received _ _)
          (h.closing.ack_received _ _)⟩, hp⟩
    · exact ⟨he, hp⟩

/-- When `p` sees the end of its inbound stream, `e` has called for it, and `p` has
been given as many bytes as were written at `e`. -/
def EndComplete (e p : Endpoint) : Prop :=
  p.conn.inboundStream.inputEnded = true →
    e.conn.sender.stream.inputEnded = true ∧
      p.conn.inboundStream.bytesWritten = e.accepted.length

instance (e p : Endpoint) : Decidable (e.EndComplete p) := inferInstanceAs (Decidable (_ → _))

end Endpoint

namespace Network

open Endpoint

/-- Over any network, as long as every segment that arrives is safe, neither end
reports the end of a truncated stream. -/
theorem end_is_complete (cfgA cfgB : TCPConfig) (randomA randomB : WrappingInt32)
    (us : List (Side × Act)) (hA : cfgA.recvCapacity < 2 ^ 64) (hB : cfgB.recvCapacity < 2 ^ 64)
    (hs : Run.Always step (Both Short) (new cfgA cfgB randomA randomB) us)
    (ho : Run.Along step (OnAct WriteOpen) (new cfgA cfgB randomA randomB) us)
    (hu : Run.Along step (OnAct SafeArrival) (new cfgA cfgB randomA randomB) us) :
    Run.Always step (Both EndComplete) (new cfgA cfgB randomA randomB) us := by
  refine Run.always_of_invariant (I := fun n => n.Both EndTo ∧ n.Both Short)
    ⟨⟨⟨new_link .., new_ends _ _ _ _ hB⟩, new_link .., new_ends _ _ _ _ hA⟩, hs.head⟩
    (((hs.along (P := fun n su => (n.step su).Both Short) (fun _ _ => id)).and ho).and hu) ?_ ?_
  · rintro n ⟨side, u⟩ ⟨hn, hshort⟩ ⟨⟨hshort', ho⟩, hu⟩
    refine ⟨hn.step (C := fun e p u => (e.Short p ∧ p.Short e) ∧ e.WriteOpen p u ∧ e.SafeArrival p u)
      (fun e p u he hp hc => ends_act he hp hc.1.1 hc.1.2 hc.2.1 hc.2.2) ?_, hshort'⟩
    cases side with
    | a => exact ⟨hshort, ho, hu⟩
    | b => exact ⟨hshort.symm, ho, hu⟩
  · rintro n ⟨⟨ha, hb⟩, -⟩
    exact ⟨ha.2.complete ha.1, hb.2.complete hb.1⟩

/-- A whole connection, with one segment repeated. -/
theorem end_is_complete_whole : Run.Always step (Both EndComplete) (new {} {} ⟨7⟩ ⟨100⟩)
    [(.a, .connect), (.b, .deliver 0), (.a, .deliver 0), (.a, .write [1, 2]), (.a, .endInputStream),
      (.b, .deliver 3), (.b, .deliver 2), (.b, .deliver 3), (.b, .deliver 2), (.b, .read 2)] :=
  end_is_complete {} {} ⟨7⟩ ⟨100⟩ _ (by decide) (by decide) (by decide +kernel) (by decide +kernel)
    (by decide +kernel)

/-- An old acknowledgment opens a window that is no longer there. The last segment is
sent into it and cut by the receiver, and its end mark ends a stream of seven
bytes after six. -/
theorem old_window_truncates :
    ¬ ∀ (cfgA cfgB : TCPConfig) (randomA randomB : WrappingInt32) (us : List (Side × Act)),
      cfgA.recvCapacity < 2 ^ 64 → cfgB.recvCapacity < 2 ^ 64 →
      Run.Always step (Both Short) (new cfgA cfgB randomA randomB) us →
      Run.Along step (OnAct WriteOpen) (new cfgA cfgB randomA randomB) us →
      Run.Always step (Both EndComplete) (new cfgA cfgB randomA randomB) us := by
  intro h
  have hend := (h {} { recvCapacity := 4 } ⟨7⟩ ⟨100⟩
    [(.a, .write [1, 2, 3, 4, 5, 6, 7]), (.a, .endInputStream), (.b, .deliver 0), (.a, .deliver 0),
      (.b, .deliver 1), (.b, .read 1), (.b, .deliver 1), (.a, .deliver 2), (.a, .deliver 0),
      (.b, .deliver 2), (.b, .read 1), (.b, .deliver 3)]
    (by decide) (by decide) (by decide +kernel) (by decide +kernel)).final
  revert hend
  decide +kernel

end Network

end Sponge
