import Sponge.Lib.Stands
import Sponge.Sender.Model

namespace Sponge

/-- The data bytes among the symbols. -/
def bytesOf (tape : List Sym) : Bytes :=
  tape.filterMap (fun y => match y with | .byte b => some b | _ => none)

@[simp] theorem bytes_of_append (t u : List Sym) : bytesOf (t ++ u) = bytesOf t ++ bytesOf u := by
  simp [bytesOf]

@[simp] theorem bytes_of_bytes (d : Bytes) : bytesOf (d.map .byte) = d := by
  induction d with
  | nil => rfl
  | cons b d ih => simp [bytesOf]

theorem bytes_of_eq_nil {tape : List Sym} (h : ∀ (i : Nat) (b : UInt8), tape[i]? ≠ some (.byte b)) :
    bytesOf tape = [] := by
  rw [bytesOf, List.filterMap_eq_nil_iff]
  intro y hy
  obtain ⟨i, hi⟩ := List.getElem?_of_mem hy
  cases y with
  | byte b => exact absurd hi (h i b)
  | syn => rfl
  | fin => rfl

/-- Where the tape has had bytes only, its bytes are counted by position. -/
theorem bytes_of_leading {tape : List Sym} {k : Nat} {b : UInt8}
    (h : ∀ j ≤ k, ∃ b, tape[j]? = some (Sym.byte b)) (hb : tape[k]? = some (.byte b)) :
    (bytesOf tape)[k]? = some b := by
  induction tape generalizing k with
  | nil => simp at hb
  | cons y tape ih =>
    obtain ⟨c, hc⟩ := h 0 (Nat.zero_le _)
    rw [List.getElem?_cons_zero, Option.some.injEq] at hc
    subst hc
    cases k with
    | zero => simpa [bytesOf] using hb
    | succ k => exact ih (fun j hj => h (j + 1) (by omega)) hb

namespace TCPSegment

variable {seg : TCPSegment} {t : Nat}

theorem bytes_of_symbols (seg : TCPSegment) : bytesOf seg.symbols = seg.payload := by
  unfold symbols front
  split <;> split <;> simp <;> simp [bytesOf]

theorem symbols_ne_nil : seg.symbols ≠ [] ↔ 0 < seg.lengthInSequenceSpace := by
  rw [← length_symbols, List.length_pos_iff]

theorem symbols_syn : seg.symbols[t]? = some .syn ↔ t = 0 ∧ seg.header.syn = true := by
  have hrest : Sym.syn ∉ seg.payload.map Sym.byte ++ if seg.header.fin then [Sym.fin] else [] := by
    split <;> simp
  unfold symbols front
  rw [List.append_assoc]
  split
  · rename_i h
    cases t with
    | zero => simp [h]
    | succ u => simpa [h] using fun hu => hrest (List.mem_of_getElem? hu)
  · rename_i h
    simpa [h] using fun ht => hrest (List.mem_of_getElem? ht)

theorem symbols_byte {b : UInt8} (h : seg.payload[t]? = some b) :
    seg.symbols[(if seg.header.syn then 1 else 0) + t]? = some (.byte b) := by
  have ht := (List.getElem?_eq_some_iff.mp h).1
  have hlen := seg.length_front
  rw [symbols, List.getElem?_append_left (by omega)]
  unfold front
  split
  · rw [Nat.add_comm 1 t, List.singleton_append, List.getElem?_cons_succ, List.getElem?_map, h]
    rfl
  · rw [Nat.zero_add, List.nil_append, List.getElem?_map, h]
    rfl

theorem payload_of_byte {b : UInt8} (h : seg.symbols[t]? = some (.byte b)) : seg.payload ≠ [] := by
  intro hnil
  have hm := List.mem_of_getElem? h
  simp only [symbols, front, hnil] at hm
  split at hm <;> split at hm <;> simp at hm

/-- FIN is a segment's last symbol. -/
theorem symbols_fin :
    seg.symbols[t]? = some .fin ↔ seg.header.fin = true ∧ t + 1 = seg.lengthInSequenceSpace := by
  have hfront : Sym.fin ∉ seg.front := by
    unfold front
    split <;> simp
  rw [← length_symbols, symbols]
  split
  · rename_i hf
    by_cases ht : t < seg.front.length
    · rw [List.getElem?_append_left ht]
      have : seg.front[t]? ≠ some .fin := fun h => hfront (List.mem_of_getElem? h)
      simp [this]
      omega
    · rw [List.getElem?_append_right (by omega), List.getElem?_singleton]
      simp only [hf, List.length_append, List.length_singleton, true_and]
      split
      · exact ⟨fun _ => by omega, fun _ => rfl⟩
      · exact ⟨fun h => (by cases h), fun _ => by omega⟩
  · rename_i hf
    have : seg.front[t]? ≠ some .fin := fun h => hfront (List.mem_of_getElem? h)
    simp [this, hf]

theorem last_symbol (h : seg.header.fin = true) :
    seg.symbols[seg.lengthInSequenceSpace - 1]? = some .fin := by
  have hpos : 0 < seg.lengthInSequenceSpace := by
    simp only [lengthInSequenceSpace, h, ↓reduceIte]
    omega
  exact symbols_fin.mpr ⟨h, by omega⟩

theorem fin_mem_symbols : .fin ∈ seg.symbols ↔ seg.header.fin = true := by
  constructor
  · intro hm
    obtain ⟨t, ht⟩ := List.getElem?_of_mem hm
    exact (symbols_fin.mp ht).1
  · exact fun h => List.mem_of_getElem? (last_symbol h)

end TCPSegment

namespace TCPSender

/-- Everything sent for the first time, sequence number by sequence number. -/
def tape (s : TCPSender) : List Sym := (s.sent.filter (·.first)).flatMap (·.seg.symbols)

/-- The segment carries what the tape has from `seqno` on, and says so; its
acknowledgment fields are not filled in yet. -/
structure Reads (isn : WrappingInt32) (tape : List Sym) (seqno : Nat) (seg : TCPSegment) :
    Prop where
  number : seg.header.seqno = wrap seqno isn
  stands : Stands seg.symbols tape seqno
  small : seg.payload.length ≤ TCPConfig.maxPayloadSize
  alone : seg.header.syn = true → seg.payload = []
  bare : seg.header.ack = false

/-- How the sender's data hang together: what was ever sent, what is kept to be
sent again and what is left in the stream, given the bytes `W` written to it. -/
structure Taped (W : Bytes) (s : TCPSender) : Prop where
  stream : s.stream.Counted
  length : s.tape.length = s.nextSeqno
  bytes : W = bytesOf s.tape ++ s.stream.buffer
  read : s.stream.bytesRead = (bytesOf s.tape).length
  sent : ∀ h ∈ s.sent, Reads s.isn s.tape h.seqno h.seg
  held : ∀ e ∈ s.outstandingSegs.entries, Reads s.isn s.tape e.1 e.2 ∧ e.2.symbols ≠ []
  slot : s.zeroWinSegSend = true →
    Reads s.isn s.tape s.zeroWinSegSeq s.zeroWinSeg ∧ s.zeroWinSeg.symbols ≠ []
  plain : s.zeroWinSeg.header.syn = false ∧ s.zeroWinSeg.header.ack = false
  start : ∀ i, s.tape[i]? = some .syn ↔ i = 0 ∧ 0 < s.nextSeqno

theorem new_taped (capacity : Nat) (timeout : UInt16) (isn : WrappingInt32) :
    (new capacity timeout isn).Taped [] where
  stream := ByteStream.counted_new capacity
  length := rfl
  bytes := rfl
  read := rfl
  sent := by simp [new]
  held := by simp [new]
  slot := by simp [new]
  plain := ⟨rfl, rfl⟩
  start := by simp [new, tape]

section Tape

variable {s s' : TCPSender} {seg : TCPSegment} {seqno : Nat}

theorem tape_append_first (h : s'.sent = s.sent ++ [⟨seqno, seg, true⟩]) :
    s'.tape = s.tape ++ seg.symbols := by
  simp [tape, h]

theorem tape_append_again (h : s'.sent = s.sent ++ [⟨seqno, seg, false⟩]) : s'.tape = s.tape := by
  simp [tape, h]

theorem first_of_fin_mem (h : .fin ∈ s.tape) :
    ∃ e ∈ s.sent.filter (·.first), e.seg.header.fin = true := by
  obtain ⟨e, he, hm⟩ := List.mem_flatMap.mp h
  exact ⟨e, he, TCPSegment.fin_mem_symbols.mp hm⟩

theorem Reads.grow {isn : WrappingInt32} {tape : List Sym} (h : Reads isn tape seqno seg)
    (ys : List Sym) : Reads isn (tape ++ ys) seqno seg :=
  ⟨h.number, h.stands.grow ys, h.small, h.alone, h.bare⟩

/-- A segment with SYN starts the tape. -/
theorem Taped.syn_at_zero {W : Bytes} (h : s.Taped W) (hr : Reads s.isn s.tape seqno seg)
    (hsyn : seg.header.syn = true) : seqno = 0 := by
  have hget := hr.stands 0 _ (TCPSegment.symbols_syn.mpr ⟨rfl, hsyn⟩)
  exact ((h.start _).mp hget).1

theorem Taped.written {W : Bytes} (h : s.Taped W) : s.stream.bytesWritten = W.length := by
  have hcount := h.stream.counted
  have hread := h.read
  rw [h.bytes, List.length_append]
  simp only [ByteStream.bytesWritten, ByteStream.bytesRead] at *
  omega

/-- Behind the SYN there are bytes and FINs. -/
theorem Taped.byte_or_fin {W : Bytes} (h : s.Taped W) {j : Nat} (hj : 1 ≤ j)
    (hlt : j < s.nextSeqno) : (∃ b, s.tape[j]? = some (.byte b)) ∨ s.tape[j]? = some .fin := by
  obtain ⟨y, hget⟩ : ∃ y, s.tape[j]? = some y :=
    ⟨_, List.getElem?_eq_getElem (show j < s.tape.length from h.length ▸ hlt)⟩
  cases y with
  | syn =>
    have := ((h.start j).mp hget).1
    omega
  | byte b => exact .inl ⟨b, hget⟩
  | fin => exact .inr hget

/-- The byte at a sequence number behind bytes only is the byte written at the
index before it. -/
theorem Taped.byte_at {W : Bytes} (h : s.Taped W) {i : Nat} {b : UInt8}
    (hall : ∀ j, 1 ≤ j → j ≤ i → ∃ b, s.tape[j]? = some (.byte b)) (hi : 1 ≤ i)
    (hb : s.tape[i]? = some (.byte b)) : W[i - 1]? = some b := by
  have hpos : 0 < s.nextSeqno := by
    have := (List.getElem?_eq_some_iff.mp hb).1
    have := h.length
    omega
  have hsyn := (h.start 0).mpr ⟨rfl, hpos⟩
  obtain ⟨rest, hrest⟩ : ∃ rest, s.tape = .syn :: rest := by
    cases ht : s.tape with
    | nil => simp [ht] at hsyn
    | cons y rest => exact ⟨rest, by simpa [ht] using hsyn⟩
  have hget : ∀ j, 1 ≤ j → s.tape[j]? = rest[j - 1]? := by
    intro j hj
    rw [hrest, List.getElem?_cons, if_neg (by omega)]
  have hbyte : (bytesOf rest)[i - 1]? = some b := by
    refine bytes_of_leading ?_ (hget i hi ▸ hb)
    intro j hj
    obtain ⟨c, hc⟩ := hall (j + 1) (by omega) (by omega)
    rw [hget _ (by omega)] at hc
    exact ⟨c, hc⟩
  have hbytes : W = bytesOf rest ++ s.stream.buffer := by
    rw [h.bytes, hrest]
    rfl
  rw [hbytes, List.getElem?_append_left (List.getElem?_eq_some_iff.mp hbyte).1, hbyte]

end Tape

section Steps

variable {W : Bytes} {s : TCPSender} {seg : TCPSegment} {stream : ByteStream}

/-- The part a first transmission plays in the books, whether the segment is kept
as outstanding or in the zero-window slot. -/
structure Fresh (s : TCPSender) (seg : TCPSegment) (stream : ByteStream) : Prop where
  number : seg.header.seqno = wrap s.nextSeqno s.isn
  small : seg.payload.length ≤ TCPConfig.maxPayloadSize
  alone : seg.header.syn = true → seg.payload = []
  bare : seg.header.ack = false
  some : seg.symbols ≠ []
  syn : seg.header.syn = true ↔ s.nextSeqno = 0
  taken : seg.payload ++ stream.buffer = s.stream.buffer
  read : stream.bytesRead = s.stream.bytesRead + seg.payload.length
  counted : stream.Counted

theorem Fresh.length_pos (h : Fresh s seg stream) : 0 < seg.lengthInSequenceSpace :=
  TCPSegment.symbols_ne_nil.mp h.some

/-- Sending new data keeps the books, wherever the segment is kept. -/
theorem Taped.send {s' : TCPSender} (h : s.Taped W) (hf : Fresh s seg stream)
    (hisn : s'.isn = s.isn) (hsent : s'.sent = s.sent ++ [⟨s.nextSeqno, seg, true⟩])
    (hstream : s'.stream = stream)
    (hnext : s'.nextSeqno = s.nextSeqno + seg.lengthInSequenceSpace)
    (hheld : ∀ e ∈ s'.outstandingSegs.entries,
      e ∈ s.outstandingSegs.entries ∨ e = (s.nextSeqno, seg))
    (hslot : s'.zeroWinSegSend = true →
      (s.zeroWinSegSend = true ∧ s'.zeroWinSegSeq = s.zeroWinSegSeq ∧
        s'.zeroWinSeg = s.zeroWinSeg) ∨
      (s'.zeroWinSegSeq = s.nextSeqno ∧ s'.zeroWinSeg = seg))
    (hplain : s'.zeroWinSeg.header.syn = false ∧ s'.zeroWinSeg.header.ack = false) :
    s'.Taped W := by
  have ht : s'.tape = s.tape ++ seg.symbols := tape_append_first hsent
  have hnew : Reads s'.isn s'.tape s.nextSeqno seg := by
    refine ⟨hisn ▸ hf.number, ?_, hf.small, hf.alone, hf.bare⟩
    rw [ht, ← h.length]
    exact .last _ _
  refine ⟨hstream ▸ hf.counted, ?_, ?_, ?_, ?_, ?_, ?_, hplain, ?_⟩
  · rw [ht, hnext, List.length_append, h.length, TCPSegment.length_symbols]
  · rw [ht, bytes_of_append, TCPSegment.bytes_of_symbols, List.append_assoc, hstream, hf.taken]
    exact h.bytes
  · rw [ht, bytes_of_append, TCPSegment.bytes_of_symbols, List.length_append, hstream, hf.read,
      h.read]
  · intro e he
    rw [hsent] at he
    rcases List.mem_append.mp he with he | he
    · rw [hisn, ht]
      exact (h.sent e he).grow _
    · rw [List.mem_singleton.mp he]
      exact hnew
  · intro e he
    rcases hheld e he with he | rfl
    · rw [hisn, ht]
      exact ⟨(h.held e he).1.grow _, (h.held e he).2⟩
    · exact ⟨hnew, hf.some⟩
  · intro hz
    rcases hslot hz with ⟨hz, hseq, hseg⟩ | ⟨hseq, hseg⟩
    · rw [hseq, hseg, hisn, ht]
      exact ⟨(h.slot hz).1.grow _, (h.slot hz).2⟩
    · rw [hseq, hseg]
      exact ⟨hnew, hf.some⟩
  · intro i
    have hpos := hf.length_pos
    rw [ht, hnext]
    by_cases hi : i < s.tape.length
    · rw [List.getElem?_append_left hi, h.start]
      have := h.length
      omega
    · rw [List.getElem?_append_right (by omega), TCPSegment.symbols_syn, hf.syn, h.length]
      have := h.length
      omega

theorem Taped.transmit (h : s.Taped W) (hf : Fresh s seg stream) :
    ({ s with stream := stream }.transmit seg).Taped W := by
  refine h.send hf rfl rfl rfl rfl ?_ (fun hz => .inl ⟨hz, rfl, rfl⟩) h.plain
  intro e he
  rcases OrdMap.mem_insert.mp he with he | ⟨he, -⟩
  · exact .inr he
  · exact .inl he

theorem Taped.probe (h : s.Taped W) (hf : Fresh s seg stream) (hplain : seg.header.syn = false) :
    ({ s with stream := stream }.probe seg).Taped W :=
  h.send hf rfl rfl rfl rfl (fun _ => .inl) (fun _ => .inr ⟨rfl, rfl⟩) ⟨hplain, hf.bare⟩

/-- Steps that send nothing new: the tape, the stream and what is kept stay, or
some of what is kept goes; what is sent again reads the tape. -/
theorem Taped.keep {s' : TCPSender} (h : s.Taped W) (hisn : s'.isn = s.isn)
    (ht : s'.tape = s.tape) (hstream : s'.stream = s.stream) (hnext : s'.nextSeqno = s.nextSeqno)
    (hsent : ∀ e ∈ s'.sent, e ∈ s.sent ∨ Reads s.isn s.tape e.seqno e.seg)
    (hheld : ∀ e ∈ s'.outstandingSegs.entries, e ∈ s.outstandingSegs.entries)
    (hslot : s'.zeroWinSegSend = true → s.zeroWinSegSend = true)
    (hseq : s'.zeroWinSegSeq = s.zeroWinSegSeq) (hseg : s'.zeroWinSeg = s.zeroWinSeg) :
    s'.Taped W := by
  refine ⟨hstream ▸ h.stream, ?_, ?_, ?_, ?_, ?_, ?_, hseg ▸ h.plain, ?_⟩
  · rw [ht, hnext, h.length]
  · rw [ht, hstream]
    exact h.bytes
  · rw [ht, hstream]
    exact h.read
  · intro e he
    rw [hisn, ht]
    rcases hsent e he with he | he
    · exact h.sent e he
    · exact he
  · intro e he
    rw [hisn, ht]
    exact h.held e (hheld e he)
  · intro hz
    rw [hseq, hseg, hisn, ht]
    exact h.slot (hslot hz)
  · rw [ht, hnext]
    exact h.start

theorem Taped.resend (h : s.Taped W) {seqno : Nat} (hr : Reads s.isn s.tape seqno seg) :
    (s.resend seqno seg).Taped W := by
  refine h.keep rfl (tape_append_again rfl) rfl rfl ?_ (fun _ => id) id rfl rfl
  intro e he
  rcases List.mem_append.mp he with he | he
  · exact .inl he
  · rw [List.mem_singleton.mp he]
    exact .inr hr

theorem Taped.retire (h : s.Taped W) (ack : Nat) : (s.retire ack).Taped W := by
  refine h.keep rfl rfl rfl rfl (fun _ => .inl) ?_ ?_ rfl rfl
  · intro e he
    exact (unacked_sublist ack _).subset he
  · intro hz
    simp only [TCPSender.retire] at hz
    split at hz
    · cases hz
    · exact hz

theorem Taped.send_empty (h : s.Taped W) : s.sendEmptySegment.Taped W := by
  refine h.keep rfl (tape_append_again rfl) rfl rfl ?_ (fun _ => id) id rfl rfl
  intro e he
  rcases List.mem_append.mp he with he | he
  · exact .inl he
  · rw [List.mem_singleton.mp he]
    exact .inr ⟨rfl, .nil _ _, Nat.zero_le _, fun _ => rfl, rfl⟩

end Steps

section Fresh

variable {W : Bytes} {s : TCPSender} {seg : TCPSegment} {stream : ByteStream}

/-- A segment that `fill_window` sends and keeps as outstanding. It is within the
window, apart from the SYN, and a FIN without data is not one more. -/
structure Transmits (s : TCPSender) (seg : TCPSegment) (stream : ByteStream) : Prop extends
    Fresh s seg stream where
  ended : stream.inputEnd = s.stream.inputEnd
  fin : seg.header.fin = true → stream.eof = true
  room : s.nextSeqno = 0 ∧ seg.lengthInSequenceSpace = 1 ∨
    s.bytesInFlight + seg.lengthInSequenceSpace ≤ s.winSize.toNat
  due : seg.payload ≠ [] ∨ s.nextSeqno < s.stream.bytesWritten + 2

/-- A segment that `fill_window` sends into a zero window: a byte, under the header
of the last such segment, or FIN. -/
structure Probes (s : TCPSender) (seg : TCPSegment) (stream : ByteStream) : Prop extends
    Fresh s seg stream where
  ended : stream.inputEnd = s.stream.inputEnd
  small_slot : seg.payload.length ≤ 1
  fin : seg.header.fin = true →
    seg.payload = [] ∧ stream.eof = true ∨ seg.payload ≠ [] ∧ s.zeroWinSeg.header.fin = true
  last : seg.payload = [] → seg.header.fin = true
  zero : s.winSize = 0
  flight : s.nextSeqno > s.bytesInFlight
  free : s.zeroWinSegSend = false

theorem transmits_syn (h : s.Taped W) (h0 : s.nextSeqno = 0) :
    Transmits s { header := { syn := true, seqno := s.isn } } s.stream where
  number := by rw [h0, wrap_zero]
  small := Nat.zero_le _
  alone := fun _ => rfl
  bare := rfl
  some := by simp [TCPSegment.symbols, TCPSegment.front]
  syn := by simp [h0]
  taken := rfl
  read := rfl
  counted := h.stream
  ended := rfl
  fin := by simp
  room := .inl ⟨h0, rfl⟩
  due := .inr (by omega)

theorem transmits_fin (h : s.Taped W) (h0 : s.nextSeqno ≠ 0)
    (hw : s.winSize.toNat > s.bytesInFlight) (heof : s.stream.eof = true)
    (hlt : s.nextSeqno < s.stream.bytesWritten + 2) :
    Transmits s { header := { seqno := s.nextSeqnoRelative, fin := true } } s.stream where
  number := rfl
  small := Nat.zero_le _
  alone := fun _ => rfl
  bare := rfl
  some := by simp [TCPSegment.symbols, TCPSegment.front]
  syn := by simp [h0]
  taken := rfl
  read := rfl
  counted := h.stream
  ended := rfl
  fin := fun _ => heof
  room := .inr hw
  due := .inr hlt

theorem transfer_size_pos (hw : s.winSize.toNat > s.bytesInFlight) : 0 < s.transferSize := by
  unfold transferSize
  split
  · omega
  · decide

theorem transfer_size_le (s : TCPSender) : s.transferSize ≤ TCPConfig.maxPayloadSize := by
  unfold transferSize
  split <;> omega

theorem transfer_size_fits (s : TCPSender) : s.transferSize ≤ s.winSize.toNat - s.bytesInFlight := by
  unfold transferSize
  split <;> omega

theorem peek_ne_nil {len : Nat} (hlen : 0 < len) (hb : s.stream.bufferEmpty = false) :
    s.stream.peekOutput len ≠ [] := by
  simp only [ByteStream.bufferEmpty, decide_eq_false_iff_not] at hb
  rw [← List.length_pos_iff]
  simp only [ByteStream.peekOutput, List.length_take]
  omega

@[simp] theorem data_segment_payload (s : TCPSender) :
    s.dataSegment.payload = s.stream.peekOutput s.transferSize := by
  simp only [dataSegment]
  split <;> rfl

@[simp] theorem data_segment_seqno (s : TCPSender) :
    s.dataSegment.header.seqno = s.nextSeqnoRelative := by
  simp only [dataSegment]
  split <;> rfl

@[simp] theorem data_segment_syn (s : TCPSender) : s.dataSegment.header.syn = false := by
  simp only [dataSegment]
  split <;> rfl

theorem data_segment_ack (s : TCPSender) : s.dataSegment.header.ack = false := by
  simp only [dataSegment]
  split <;> rfl

/-- FIN goes with the data that ends the stream, if the window has room for it. -/
theorem data_segment_fin (h : s.dataSegment.header.fin = true) :
    s.winSize.toNat > s.bytesInFlight + s.dataSegment.payload.length ∧
      (s.stream.popOutput s.transferSize).eof = true := by
  rw [data_segment_payload]
  simp only [dataSegment] at h
  split at h
  · simpa [TCPSegment.lengthInSequenceSpace] using ‹_ ∧ _›
  · cases h

theorem data_segment_room (hw : s.winSize.toNat > s.bytesInFlight) :
    s.bytesInFlight + s.dataSegment.lengthInSequenceSpace ≤ s.winSize.toNat := by
  have hle := transfer_size_fits s
  have hlen : s.dataSegment.payload.length ≤ s.transferSize := by
    simp only [data_segment_payload, ByteStream.peekOutput, List.length_take]
    omega
  simp only [TCPSegment.lengthInSequenceSpace, data_segment_syn, Bool.false_eq_true, ↓reduceIte]
  split
  · have := (data_segment_fin ‹_›).1
    omega
  · omega

/-- Reading from the stream hands over its next bytes. -/
theorem pop_read (stream : ByteStream) (len : Nat) :
    (stream.popOutput len).bytesRead = stream.bytesRead + (stream.peekOutput len).length := by
  simp [ByteStream.popOutput, ByteStream.bytesRead, ByteStream.peekOutput]

theorem transmits_data (h : s.Taped W) (h0 : s.nextSeqno ≠ 0)
    (hw : s.winSize.toNat > s.bytesInFlight) (hb : s.stream.bufferEmpty = false) :
    Transmits s s.dataSegment (s.stream.popOutput s.transferSize) where
  number := data_segment_seqno s
  small := by
    have := transfer_size_le s
    simp only [data_segment_payload, ByteStream.peekOutput, List.length_take]
    omega
  alone := by simp
  bare := data_segment_ack s
  some := by
    have := List.length_pos_iff.mpr (peek_ne_nil (transfer_size_pos hw) hb)
    rw [TCPSegment.symbols_ne_nil, TCPSegment.lengthInSequenceSpace, data_segment_payload]
    omega
  syn := by simp [h0]
  taken := by
    rw [data_segment_payload]
    exact ByteStream.peek_append_pop _ _
  read := by rw [data_segment_payload, pop_read]
  counted := h.stream.pop _
  ended := rfl
  fin := fun hf => (data_segment_fin hf).2
  room := .inr (data_segment_room hw)
  due := .inl (data_segment_payload s ▸ peek_ne_nil (transfer_size_pos hw) hb)

theorem probes_byte (h : s.Taped W) (h0 : s.nextSeqno ≠ 0) (hw : s.winSize = 0)
    (hfl : s.nextSeqno > s.bytesInFlight) (hz : s.zeroWinSegSend = false)
    (hb : s.stream.bufferEmpty = false) :
    Probes s { header := { s.zeroWinSeg.header with seqno := s.nextSeqnoRelative }
               payload := s.stream.peekOutput 1 } (s.stream.popOutput 1) where
  number := rfl
  small := by simp [ByteStream.peekOutput, TCPConfig.maxPayloadSize]
  alone := by simp [h.plain.1]
  bare := h.plain.2
  some := by
    have := List.length_pos_iff.mpr (peek_ne_nil Nat.one_pos hb)
    rw [TCPSegment.symbols_ne_nil, TCPSegment.lengthInSequenceSpace]
    simp only
    omega
  syn := by simp [h.plain.1, h0]
  taken := ByteStream.peek_append_pop _ _
  read := pop_read _ _
  counted := h.stream.pop _
  ended := rfl
  small_slot := by simp [ByteStream.peekOutput]
  fin := fun hf => .inr ⟨peek_ne_nil Nat.one_pos hb, hf⟩
  last := fun hnil => absurd hnil (peek_ne_nil Nat.one_pos hb)
  zero := hw
  flight := hfl
  free := hz

theorem probes_fin (h : s.Taped W) (h0 : s.nextSeqno ≠ 0) (hw : s.winSize = 0)
    (hfl : s.nextSeqno > s.bytesInFlight) (hz : s.zeroWinSegSend = false)
    (heof : s.stream.eof = true) :
    Probes s { header := { s.zeroWinSeg.header with seqno := s.nextSeqnoRelative, fin := true }
               payload := [] } s.stream where
  number := rfl
  small := Nat.zero_le _
  alone := fun _ => rfl
  bare := h.plain.2
  some := by simp [TCPSegment.symbols, TCPSegment.front]
  syn := by simp [h.plain.1, h0]
  taken := rfl
  read := rfl
  counted := h.stream
  ended := rfl
  small_slot := Nat.zero_le _
  fin := fun _ => .inl ⟨rfl, heof⟩
  last := fun _ => rfl
  zero := hw
  flight := hfl
  free := hz

theorem Probes.plain (hp : Probes s seg stream) (h0 : s.nextSeqno ≠ 0) :
    seg.header.syn = false :=
  Bool.eq_false_iff.mpr (fun hs => h0 (hp.syn.mp hs))

end Fresh

section Rules

variable {Q : TCPSender → Prop} {s : TCPSender}

/-- The induction rule for `fill_window`: what sending a segment preserves, and
what sending one into a zero window preserves, the function preserves. -/
theorem fill_window_preserves {W : Bytes} (ht : s.Taped W) (hq : Q s)
    (transmit : ∀ s seg stream, s.Taped W → Q s → Transmits s seg stream →
      Q ({ s with stream := stream }.transmit seg))
    (probe : ∀ s seg stream, s.Taped W → Q s → Probes s seg stream →
      Q ({ s with stream := stream }.probe seg)) :
    s.fillWindow.Taped W ∧ Q s.fillWindow := by
  have hsend : ∀ {s seg stream}, s.Taped W → Q s → Transmits s seg stream →
      ({ s with stream := stream }.transmit seg).Taped W ∧
        Q ({ s with stream := stream }.transmit seg) :=
    fun ht hq hs => ⟨ht.transmit hs.toFresh, transmit _ _ _ ht hq hs⟩
  have hloop : ∀ s, s.Taped W → Q s → s.nextSeqno ≠ 0 → s.fillLoop.Taped W ∧ Q s.fillLoop := by
    intro s ht hq h0
    fun_induction fillLoop s with
    | case1 s h ih =>
      obtain ⟨ht', hq'⟩ := hsend ht hq (transmits_data ht h0 h.2 h.1)
      refine ih ht' hq' ?_
      simp only [sendData, TCPSender.transmit, startTimer]
      omega
    | case2 s h => exact ⟨ht, hq⟩
  unfold fillWindow
  split
  · exact hsend ht hq (transmits_syn ht ‹_›)
  rename_i h0
  split
  · rename_i hw
    simp only
    split
    · rename_i hf
      obtain ⟨ht', hq'⟩ := hsend ht hq (transmits_fin ht h0 hw.1 hf.1 hf.2)
      refine hloop _ ht' hq' ?_
      simp only [sendFin, TCPSender.transmit, startTimer]
      omega
    · exact hloop s ht hq h0
  split
  · rename_i hz
    by_cases hb : s.stream.bufferEmpty = false ∧ s.zeroWinSegSend = false
    · have hsend : s.probeByte.zeroWinSegSend = true := rfl
      simp only [hb, and_self, ↓reduceIte, hsend, Bool.true_eq_false, and_false]
      have hp := probes_byte ht h0 hz.1 hz.2 hb.2 hb.1
      exact ⟨ht.probe hp.toFresh (hp.plain h0), probe s _ _ ht hq hp⟩
    · simp only [hb, ↓reduceIte]
      split
      · rename_i hf
        have hp := probes_fin ht h0 hz.1 hz.2 hf.2 hf.1
        exact ⟨ht.probe hp.toFresh (hp.plain h0), probe s _ _ ht hq hp⟩
      · exact ⟨ht, hq⟩
  · exact ⟨ht, hq⟩

/-- The rule for `tick`: besides the timer only a repetition can change. -/
theorem tick_preserves (hq : Q s)
    (timer : ∀ s running left times timeout, Q s → Q { s with
      timerRunning := running, rxTimeLeft := left, rxTimes := times,
      initialRetransmissionTimeout := timeout })
    (slot : ∀ s, Q s → s.zeroWinSegSend = true → Q (s.resend s.zeroWinSegSeq s.zeroWinSeg))
    (oldest : ∀ s seqno seg rest, Q s → s.outstandingSegs.entries = (seqno, seg) :: rest →
      Q (s.resend seqno seg)) (ms : Nat) : Q (s.tick ms) := by
  unfold tick
  split
  · simp only
    split
    · exact slot _ (timer s _ _ _ _ hq) ‹_›
    · exact timer s _ _ _ _ hq
  split
  · exact timer s _ _ _ _ hq
  · rename_i seqno seg rest he
    split
    · exact hq
    · simp only
      split
      · exact oldest _ seqno seg rest (timer s _ _ _ _ hq) he
      · exact timer s _ _ _ _ hq

end Rules

section Functions

variable {W : Bytes} {s : TCPSender}

theorem Taped.fill_window (h : s.Taped W) : s.fillWindow.Taped W :=
  (fill_window_preserves (Q := fun _ => True) h trivial (fun _ _ _ _ _ _ => trivial)
    (fun _ _ _ _ _ _ => trivial)).1

theorem Taped.tick (h : s.Taped W) (ms : Nat) : (s.tick ms).Taped W :=
  tick_preserves h
    (fun _ _ _ _ _ h => h.keep rfl rfl rfl rfl (fun _ => .inl) (fun _ => id) id rfl rfl)
    (fun _ h hz => h.resend (h.slot hz).1)
    (fun _ seqno seg rest h he => h.resend (h.held (seqno, seg) (by simp [he])).1) ms

theorem Taped.ack_received (h : s.Taped W) (ackno : WrappingInt32) (win : UInt16) :
    (s.ackReceived ackno win).Taped W := by
  unfold ackReceived
  split
  · exact h
  · exact (h.retire _).keep rfl rfl rfl rfl (fun _ => .inl) (fun _ => id) id rfl rfl

/-- The owner takes from the queue. -/
theorem Taped.take (h : s.Taped W) (queue : List TCPSegment) :
    { s with segmentsOut := queue }.Taped W :=
  h.keep rfl rfl rfl rfl (fun _ => .inl) (fun _ => id) id rfl rfl

theorem Taped.write (h : s.Taped W) (data : Bytes) :
    { s with stream := s.stream.write data }.Taped (W ++ data.take (s.stream.accepts data)) := by
  refine ⟨h.stream.write data, h.length, ?_, h.read, h.sent, h.held, h.slot, h.plain, h.start⟩
  rw [ByteStream.write]
  simp only
  rw [← List.append_assoc]
  exact congrArg (· ++ _) h.bytes

theorem Taped.end_input (h : s.Taped W) : { s with stream := s.stream.endInput }.Taped W :=
  ⟨⟨h.stream.counted, h.stream.bounded⟩, h.length, h.bytes, h.read, h.sent, h.held, h.slot,
    h.plain, h.start⟩

theorem Taped.set_error (h : s.Taped W) : { s with stream := s.stream.setError }.Taped W :=
  ⟨⟨h.stream.counted, h.stream.bounded⟩, h.length, h.bytes, h.read, h.sent, h.held, h.slot,
    h.plain, h.start⟩

end Functions

section Continues

/-- The sender goes on: what it puts in its queue it also puts on record. -/
structure Continues (s s' : TCPSender) : Prop where
  isn : s'.isn = s.isn
  more : ∃ log : List Sent, s'.sent = s.sent ++ log ∧
    s'.segmentsOut = s.segmentsOut ++ log.map (·.seg)

variable {s s' s'' : TCPSender}

theorem Continues.same (hisn : s'.isn = s.isn) (hsent : s'.sent = s.sent)
    (hq : s'.segmentsOut = s.segmentsOut) : Continues s s' :=
  ⟨hisn, [], by simp [hsent], by simp [hq]⟩

theorem Continues.one {e : Sent} (hisn : s'.isn = s.isn) (hsent : s'.sent = s.sent ++ [e])
    (hq : s'.segmentsOut = s.segmentsOut ++ [e.seg]) : Continues s s' :=
  ⟨hisn, [e], hsent, by simp [hq]⟩

theorem Continues.trans (h : Continues s s') (h' : Continues s' s'') : Continues s s'' := by
  obtain ⟨log, hl, hq⟩ := h.more
  obtain ⟨log', hl', hq'⟩ := h'.more
  exact ⟨h'.isn.trans h.isn, log ++ log', by simp [hl', hl], by simp [hq', hq]⟩

theorem Continues.tape (h : Continues s s') : ∃ ys, s'.tape = s.tape ++ ys := by
  obtain ⟨log, hl, -⟩ := h.more
  exact ⟨(log.filter (·.first)).flatMap (·.seg.symbols), by simp [TCPSender.tape, hl]⟩

theorem continues_fill_window {W : Bytes} (h : s.Taped W) : Continues s s.fillWindow :=
  (fill_window_preserves (Q := Continues s) h (.same rfl rfl rfl)
    (fun _ _ _ _ hc _ => hc.trans (.one rfl rfl rfl))
    (fun _ _ _ _ hc _ => hc.trans (.one rfl rfl rfl))).2

theorem continues_tick (s : TCPSender) (ms : Nat) : Continues s (s.tick ms) :=
  tick_preserves (Q := Continues s) (.same rfl rfl rfl)
    (fun _ _ _ _ _ hc => hc.trans (.same rfl rfl rfl))
    (fun _ hc _ => hc.trans (.one rfl rfl rfl))
    (fun _ _ _ _ hc _ => hc.trans (.one rfl rfl rfl)) ms

theorem continues_ack_received (s : TCPSender) (ackno : WrappingInt32) (win : UInt16) :
    Continues s (s.ackReceived ackno win) := by
  unfold ackReceived
  split
  · exact .same rfl rfl rfl
  · exact .same rfl rfl rfl

end Continues

end TCPSender

end Sponge
