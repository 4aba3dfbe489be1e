import Sponge.Lib.Run
import Sponge.Sender.Closing

namespace Sponge

/-- What is done with a sender. -/
inductive SenderUse where
  | write (data : Bytes)
  | endInput
  | fillWindow
  | ackReceived (ackno : WrappingInt32) (windowSize : UInt16)
  | tick (ms : Nat)
  deriving DecidableEq, Repr

/-- A sender in use, and the bytes its stream has accepted so far. -/
structure SenderSession where
  sender : TCPSender
  accepted : Bytes := []

namespace SenderSession

open TCPSender

def new (capacity : Nat) (timeout : UInt16) (isn : WrappingInt32) : SenderSession :=
  { sender := .new capacity timeout isn }

def step (x : SenderSession) : SenderUse → SenderSession
  | .write data =>
    { sender := { x.sender with stream := x.sender.stream.write data }
      accepted := x.accepted ++ data.take (x.sender.stream.accepts data) }
  | .endInput => { x with sender := { x.sender with stream := x.sender.stream.endInput } }
  | .fillWindow => { x with sender := x.sender.fillWindow }
  | .ackReceived ackno win => { x with sender := x.sender.ackReceived ackno win }
  | .tick ms => { x with sender := x.sender.tick ms }

/-- No write comes after the end of the input. -/
def WriteOpen (x : SenderSession) : SenderUse → Prop
  | .write _ => x.sender.stream.inputEnded = false
  | _ => True

instance (x : SenderSession) : (u : SenderUse) → Decidable (x.WriteOpen u)
  | .write _ => inferInstanceAs (Decidable (_ = _))
  | .endInput | .fillWindow | .ackReceived _ _ | .tick _ => .isTrue trivial

end SenderSession

/-- The segments occupy consecutive ranges of sequence numbers, from `a` to `b`. -/
def Tiles : Nat → List Sent → Nat → Prop
  | a, [], b => a = b
  | a, h :: hs, b => h.seqno = a ∧ Tiles (a + h.seg.lengthInSequenceSpace) hs b

theorem Tiles.append {a b c : Nat} {hs ks : List Sent} (h : Tiles a hs b) (k : Tiles b ks c) :
    Tiles a (hs ++ ks) c := by
  induction hs generalizing a with
  | nil =>
    cases h
    exact k
  | cons e hs ih => exact ⟨h.1, ih h.2⟩

namespace TCPSender

/-- The record of what was sent: it is the queue, no segment in it is empty, and
the first transmissions follow one another. -/
structure Logged (s : TCPSender) : Prop where
  queue : s.segmentsOut = s.sent.map (·.seg)
  solid : ∀ h ∈ s.sent, h.seg.symbols ≠ []
  tiles : Tiles 0 (s.sent.filter (·.first)) s.nextSeqno

section Logged

variable {W : Bytes} {s s' : TCPSender} {seg : TCPSegment}

theorem Logged.send (h : s.Logged) (hq : s'.segmentsOut = s.segmentsOut ++ [seg])
    (hs : s'.sent = s.sent ++ [⟨s.nextSeqno, seg, true⟩]) (hne : seg.symbols ≠ [])
    (hn : s'.nextSeqno = s.nextSeqno + seg.lengthInSequenceSpace) : s'.Logged := by
  refine ⟨by rw [hq, hs, h.queue]; simp, ?_, ?_⟩
  · intro e he
    rw [hs] at he
    rcases List.mem_append.mp he with he | he
    · exact h.solid e he
    · rw [List.mem_singleton.mp he]
      exact hne
  · rw [hs, List.filter_append, hn]
    exact h.tiles.append ⟨rfl, rfl⟩

theorem Logged.resend (h : s.Logged) (hne : seg.symbols ≠ []) (seqno : Nat) :
    (s.resend seqno seg).Logged := by
  refine ⟨by simp [TCPSender.resend, h.queue], ?_, ?_⟩
  · intro e he
    rcases List.mem_append.mp he with he | he
    · exact h.solid e he
    · rw [List.mem_singleton.mp he]
      exact hne
  · simpa [TCPSender.resend] using h.tiles

theorem Logged.fill_window (hl : s.Logged) (h : s.Taped W) : s.fillWindow.Logged :=
  (fill_window_preserves h hl (fun _ _ _ _ hl hs => hl.send rfl rfl hs.some rfl)
    (fun _ _ _ _ hl hp => hl.send rfl rfl hp.some rfl)).2

theorem Logged.tick (hl : s.Logged) (h : s.Taped W) (ms : Nat) : (s.tick ms).Logged := by
  refine (tick_preserves (Q := fun s => s.Taped W ∧ s.Logged) ⟨h, hl⟩ ?_ ?_ ?_ ms).2
  · rintro s _ _ _ _ ⟨h, hl⟩
    exact ⟨h.keep rfl rfl rfl rfl (fun _ => .inl) (fun _ => id) id rfl rfl,
      ⟨hl.queue, hl.solid, hl.tiles⟩⟩
  · rintro s ⟨h, hl⟩ hz
    exact ⟨h.resend (h.slot hz).1, hl.resend (h.slot hz).2 _⟩
  · rintro s seqno seg rest ⟨h, hl⟩ he
    have hheld := h.held (seqno, seg) (by simp [he])
    exact ⟨h.resend hheld.1, hl.resend hheld.2 _⟩

theorem Logged.ack_received (h : s.Logged) (ackno : WrappingInt32) (win : UInt16) :
    (s.ackReceived ackno win).Logged := by
  unfold ackReceived
  split
  · exact h
  · exact ⟨h.queue, h.solid, h.tiles⟩

end Logged

end TCPSender

namespace SenderSession

open TCPSender

/-- What holds of every sender whose stream is not written to after its end. -/
structure Sound (x : SenderSession) : Prop where
  taped : x.sender.Taped x.accepted
  closing : x.sender.Closing
  logged : x.sender.Logged

theorem new_sound (capacity : Nat) (timeout : UInt16) (isn : WrappingInt32) :
    (new capacity timeout isn).Sound :=
  ⟨new_taped .., new_closing .., ⟨rfl, by simp [new, TCPSender.new], rfl⟩⟩

theorem step_taped {x : SenderSession} (h : x.sender.Taped x.accepted) (u : SenderUse) :
    (x.step u).sender.Taped (x.step u).accepted := by
  cases u with
  | write data => exact h.write data
  | endInput => exact h.end_input
  | fillWindow => exact h.fill_window
  | ackReceived ackno win => exact h.ack_received ackno win
  | tick ms => exact h.tick ms

theorem step_closing {x : SenderSession} {u : SenderUse} (h : x.sender.Taped x.accepted)
    (hc : x.sender.Closing) (hu : x.WriteOpen u) : (x.step u).sender.Closing := by
  cases u with
  | write data => exact hc.write hu data
  | endInput => exact hc.end_input
  | fillWindow => exact hc.fill_window h
  | ackReceived ackno win => exact hc.ack_received ackno win
  | tick ms => exact hc.tick ms

theorem Sound.step {x : SenderSession} {u : SenderUse} (h : x.Sound) (hu : x.WriteOpen u) :
    (x.step u).Sound := by
  obtain ⟨ht, hc, hl⟩ := h
  refine ⟨step_taped ht u, step_closing ht hc hu, ?_⟩
  cases u with
  | write data => exact ⟨hl.queue, hl.solid, hl.tiles⟩
  | endInput => exact ⟨hl.queue, hl.solid, hl.tiles⟩
  | fillWindow => exact hl.fill_window ht
  | ackReceived ackno win => exact hl.ack_received ackno win
  | tick ms => exact hl.tick ht ms

/-- In front of a byte there are bytes only, down to the SYN. -/
theorem Sound.bytes_before {x : SenderSession} (h : x.Sound) {i : Nat} {b : UInt8}
    (hb : x.sender.tape[i]? = some (.byte b)) :
    1 ≤ i ∧ ∀ j, 1 ≤ j → j ≤ i → ∃ c, x.sender.tape[j]? = some (.byte c) := by
  have hlen := (List.getElem?_eq_some_iff.mp hb).1
  have hpos : 0 < x.sender.nextSeqno := by
    have := h.taped.length
    omega
  constructor
  · by_contra h0
    have : i = 0 := by omega
    subst this
    rw [(h.taped.start 0).mpr ⟨rfl, hpos⟩] at hb
    cases hb
  · intro j hj hji
    rcases h.taped.byte_or_fin hj (show j < x.sender.nextSeqno by rw [← h.taped.length]; omega)
      with hbyte | hfin
    · exact hbyte
    · have := h.closing.order i j b hb hfin
      omega

/-- The payload of a segment is the stretch of the stream at its number. -/
theorem Sound.payload_eq {x : SenderSession} (h : x.Sound) {q : Nat} {seg : TCPSegment}
    (hr : Reads x.sender.isn x.sender.tape q seg) (hne : 0 < seg.payload.length) :
    1 ≤ q ∧ seg.payload = (x.accepted.drop (q - 1)).take seg.payload.length := by
  have hsyn : seg.header.syn = false := by
    by_contra hs
    simp [hr.alone (Bool.eq_true_of_not_eq_false hs)] at hne
  have hget : ∀ t b, seg.payload[t]? = some b → x.sender.tape[q + t]? = some (.byte b) := by
    intro t b hb
    have := hr.stands _ _ (TCPSegment.symbols_byte hb)
    simpa [hsyn] using this
  have hq := (h.bytes_before (hget 0 _ (List.getElem?_eq_getElem hne))).1
  refine ⟨hq, List.ext_getElem? fun t => ?_⟩
  by_cases ht : t < seg.payload.length
  · have hb := List.getElem?_eq_getElem ht
    have hbyte := hget t _ hb
    have := h.taped.byte_at (h.bytes_before hbyte).2 (by omega) hbyte
    rw [hb, List.getElem?_take_of_lt ht, List.getElem?_drop,
      show q - 1 + t = q + t - 1 by omega, this]
  · rw [List.getElem?_eq_none (by omega), List.getElem?_eq_none (by simp; omega)]

/-- SYN is the first symbol of the tape, so the segments that start there have it. -/
theorem Sound.syn_iff {x : SenderSession} (h : x.Sound) {e : Sent} (he : e ∈ x.sender.sent) :
    e.seg.header.syn = true ↔ e.seqno = 0 := by
  have hr := h.taped.sent e he
  refine ⟨h.taped.syn_at_zero hr, ?_⟩
  intro h0
  have hpos := List.length_pos_iff.mpr (h.logged.solid e he)
  have hget := hr.stands 0 _ (List.getElem?_eq_getElem hpos)
  have hnext : 0 < x.sender.nextSeqno := by
    have := (List.getElem?_eq_some_iff.mp hget).1
    have := h.taped.length
    omega
  rw [h0, (h.taped.start 0).mpr ⟨rfl, hnext⟩] at hget
  have := List.getElem?_eq_getElem hpos
  rw [← hget] at this
  exact (TCPSegment.symbols_syn.mp this).2

/-- What is right about everything put in `segments_out()`: the record agrees with
the queue and its numbers with the headers, SYN stands exactly on the segments
numbered zero, a payload is the stretch of the stream at its number and within
the size limit, and the first transmissions tile the numbers used so far. -/
def CarriesStream (x : SenderSession) : Prop :=
  x.sender.segmentsOut = x.sender.sent.map (·.seg) ∧
  (∀ e ∈ x.sender.sent,
    e.seg.header.seqno = wrap e.seqno x.sender.isn ∧
    (e.seg.header.syn = true ↔ e.seqno = 0) ∧
    (0 < e.seg.payload.length →
      1 ≤ e.seqno ∧
      e.seg.payload = (x.accepted.drop (e.seqno - 1)).take e.seg.payload.length ∧
      e.seg.payload.length ≤ TCPConfig.maxPayloadSize)) ∧
  Tiles 0 (x.sender.sent.filter (·.first)) x.sender.nextSeqnoAbsolute

/-- In every state of a sender whose stream is not written to after its end,
everything sent is right. -/
theorem sent_segments_carry_stream (capacity : Nat) (timeout : UInt16) (isn : WrappingInt32)
    (us : List SenderUse) (h : Run.Along step WriteOpen (new capacity timeout isn) us) :
    Run.Always step CarriesStream (new capacity timeout isn) us := by
  refine Run.always_of_invariant (I := Sound) (new_sound capacity timeout isn) h
    (fun x u hx hu => hx.step hu) ?_
  intro x hx
  refine ⟨hx.logged.queue, ?_, hx.logged.tiles⟩
  intro e he
  have hr := hx.taped.sent e he
  refine ⟨hr.number, hx.syn_iff he, ?_⟩
  intro hne
  obtain ⟨hq, hp⟩ := hx.payload_eq hr hne
  exact ⟨hq, hp, hr.small⟩

/-- A SYN, four bytes in two segments, the last one with FIN, and a repetition. -/
theorem sent_segments_carry_stream_four : Run.Always step CarriesStream (new 10 1000 ⟨7⟩)
    [.fillWindow, .ackReceived ⟨8⟩ 3, .write [1, 2, 3, 4], .endInput, .fillWindow,
      .ackReceived ⟨11⟩ 3, .fillWindow, .tick 1000] :=
  sent_segments_carry_stream 10 1000 ⟨7⟩ _ (by decide +kernel)

end SenderSession

end Sponge
