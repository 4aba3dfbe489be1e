import Sponge.ByteStream
import Sponge.EventLoop.Serving

namespace Sponge

open FileDescriptor (OnlyRead OnlyWritten Throws)

/-- The state of `bidirectional_stream_copy`. -/
structure StreamCopy where
  input : FileDescriptor
  output : FileDescriptor
  socket : FileDescriptor
  outbound : ByteStream
  inbound : ByteStream
  outboundShutdown : Bool := false
  inboundShutdown : Bool := false

namespace StreamCopy

def maxCopyLength : Nat := 65536

def bufferSize : Nat := 1048576

/-- Read from a descriptor into a stream, as much as there is room for. -/
def fill (fd : FileDescriptor) (stream : ByteStream) :
    Outcome SystemFault (FileDescriptor × ByteStream) Unit :=
  ((fd.read stream.remainingCapacity).into (·, stream)).andThen fun data x =>
    let stream := x.2.write data
    .done (x.1, if x.1.eof then stream.endInput else stream) ()

/-- Write from a stream to a descriptor and, at the end of the stream, finish with it. -/
def drain (finish : FileDescriptor → Outcome SystemFault FileDescriptor Unit) (fd : FileDescriptor)
    (stream : ByteStream) (shutdown : Bool) :
    Outcome SystemFault (FileDescriptor × ByteStream × Bool) Unit :=
  let bytesToWrite := min maxCopyLength stream.bufferSize
  ((fd.writeList ⟨[stream.peekOutput bytesToWrite]⟩ false).into (·, stream, shutdown)).andThen
    fun bytesWritten x =>
      let stream := x.2.1.popOutput bytesWritten
      if stream.eof then
        ((finish x.1).into (·, stream, shutdown)).andThen fun _ x => .done (x.1, stream, true) ()
      else .done (x.1, stream, shutdown) ()

def fillInterest (stream other : ByteStream) : Bool :=
  !stream.error && stream.remainingCapacity > 0 && !other.error

def drainInterest (stream : ByteStream) (shutdown : Bool) : Bool :=
  !stream.bufferEmpty || (stream.eof && !shutdown)

/-- Read from stdin into the outbound stream. -/
def inputToOutbound (c : StreamCopy) : Outcome SystemFault StreamCopy Unit :=
  (fill c.input c.outbound).into fun x => { c with input := x.1, outbound := x.2 }

/-- Read from the outbound stream into the socket. -/
def outboundToSocket (c : StreamCopy) : Outcome SystemFault StreamCopy Unit :=
  (drain (·.shutdown .wr) c.socket c.outbound c.outboundShutdown).into fun x =>
    { c with socket := x.1, outbound := x.2.1, outboundShutdown := x.2.2 }

/-- Read from the socket into the inbound stream. -/
def socketToInbound (c : StreamCopy) : Outcome SystemFault StreamCopy Unit :=
  (fill c.socket c.inbound).into fun x => { c with socket := x.1, inbound := x.2 }

/-- Read from the inbound stream into stdout. -/
def inboundToOutput (c : StreamCopy) : Outcome SystemFault StreamCopy Unit :=
  (drain (·.close) c.output c.inbound c.inboundShutdown).into fun x =>
    { c with output := x.1, inbound := x.2.1, inboundShutdown := x.2.2 }

def endOutbound (c : StreamCopy) : Outcome SystemFault StreamCopy Unit :=
  .done { c with outbound := c.outbound.endInput } ()

def endInbound (c : StreamCopy) : Outcome SystemFault StreamCopy Unit :=
  .done { c with inbound := c.inbound.endInput } ()

def eventloop : EventLoop StreamCopy :=
  (((({} : EventLoop StreamCopy).addRule (·.input) .In inputToOutbound
      (fun c => fillInterest c.outbound c.inbound) endOutbound).addRule
    (·.socket) .Out outboundToSocket
      (fun c => drainInterest c.outbound c.outboundShutdown) endOutbound).addRule
    (·.socket) .In socketToInbound
      (fun c => fillInterest c.inbound c.outbound) endInbound).addRule
    (·.output) .Out inboundToOutput
      (fun c => drainInterest c.inbound c.inboundShutdown) endInbound

/-- The loop, for as long as the kernel has answers: whether it has come to its end. -/
def loop : List Poll → List (Rule StreamCopy) → StreamCopy →
    Outcome SystemFault (List (Rule StreamCopy) × StreamCopy) Bool
  | [], rules, c => .done (rules, c) false
  | poll :: polls, rules, c =>
    (EventLoop.waitNextEvent poll rules c).andThen fun r x =>
      if r = .exit then .done x true else loop polls x.1 x.2

def start (input output socket : FileDescriptor) : StreamCopy :=
  { input, output, socket, outbound := .new bufferSize, inbound := .new bufferSize }

def bidirectionalStreamCopy (input output socket : FileDescriptor) (polls : List Poll) :
    Outcome SystemFault (List (Rule StreamCopy) × StreamCopy) Bool :=
  let rules := eventloop.rules
  let c := start input output socket
  ((c.socket.setBlocking.into fun f => (rules, { c with socket := f })).andThen fun _ x =>
    (x.2.input.setBlocking.into fun f => (rules, { x.2 with input := f })).andThen fun _ x =>
    (x.2.output.setBlocking.into fun f => (rules, { x.2 with output := f }))).andThen fun _ x =>
      loop polls x.1 x.2

/-- What was put out is a first part of what was got, both from these strings on. Nothing is said
about the rest. -/
def InOrder (got₀ put₀ : Bytes) (source sink : FileDescriptor) : Prop :=
  ∃ w rest, sink.put.flatten = put₀ ++ w ∧ source.got.flatten = got₀ ++ (w ++ rest)

/-- One direction of the copy while nothing has failed; `reads` and `writes` say whether its two
rules are still there. -/
structure Piped (got₀ put₀ : Bytes) (reads writes : Prop) (source : FileDescriptor)
    (stream : ByteStream) (sink : FileDescriptor) (shutdown : Bool) : Prop where
  conserved : ∃ w, sink.put.flatten = put₀ ++ w ∧
    source.got.flatten = got₀ ++ (w ++ stream.buffer)
  capacity : stream.capacity = bufferSize
  bounded : stream.buffer.length ≤ bufferSize
  error : stream.error = false
  stopped : ¬ reads → stream.inputEnd = true
  ended : stream.inputEnd = true → source.eof = true ∨ ¬ reads ∨ ¬ writes
  shut : shutdown = true → stream.eof = true ∧ (source.eof = true ∨ ¬ reads)

section Piped

variable {got₀ put₀ : Bytes} {reads writes reads' writes' : Prop}
  {source source' sink sink' : FileDescriptor} {stream : ByteStream} {shutdown : Bool}

theorem Piped.in_order (h : Piped got₀ put₀ reads writes source stream sink shutdown) :
    InOrder got₀ put₀ source sink :=
  let ⟨w, hput, hgot⟩ := h.conserved
  ⟨w, stream.buffer, hput, hgot⟩

/-- Only these parts of the descriptors matter. -/
theorem Piped.congr (h : Piped got₀ put₀ reads writes source stream sink shutdown)
    (hgot : source'.got = source.got) (heof : source'.eof = source.eof) (hput : sink'.put = sink.put) :
    Piped got₀ put₀ reads writes source' stream sink' shutdown :=
  { conserved := by rw [hgot, hput]; exact h.conserved
    capacity := h.capacity
    bounded := h.bounded
    error := h.error
    stopped := h.stopped
    ended := by rw [heof]; exact h.ended
    shut := by rw [heof]; exact h.shut }

theorem InOrder.congr (h : InOrder got₀ put₀ source sink) (hgot : source'.got = source.got)
    (hput : sink'.put = sink.put) : InOrder got₀ put₀ source' sink' := by
  rw [InOrder, hgot, hput]
  exact h

/-- One of the two rules is cancelled. -/
theorem Piped.end_input (h : Piped got₀ put₀ reads writes source stream sink shutdown)
    (hreads : ¬ reads → ¬ reads') (hless : ¬ reads' ∨ ¬ writes') :
    Piped got₀ put₀ reads' writes' source stream.endInput sink shutdown where
  conserved := h.conserved
  capacity := h.capacity
  bounded := h.bounded
  error := h.error
  stopped := fun _ => rfl
  ended := fun _ => .inr hless
  shut := fun hs => by
    obtain ⟨heof, hsrc⟩ := h.shut hs
    exact ⟨ByteStream.eof_iff.mpr ⟨rfl, (ByteStream.eof_iff.mp heof).2⟩, hsrc.imp_right hreads⟩

theorem fill_stream {str : Bytes} (hle : str.length ≤ stream.remainingCapacity) {eof : Bool} :
    (if eof then (stream.write str).endInput else stream.write str) =
      { stream with
        buffer := stream.buffer ++ str
        written := stream.written + str.length
        inputEnd := eof || stream.inputEnd } := by
  rw [ByteStream.write_all hle]
  cases eof <;> rfl

theorem drain_interest_filled {str : Bytes} {eof : Bool} {n : Nat}
    (h : drainInterest stream shutdown = true) :
    drainInterest { stream with
      buffer := stream.buffer ++ str
      written := n
      inputEnd := eof || stream.inputEnd } shutdown = true := by
  simp only [drainInterest, ByteStream.bufferEmpty, ByteStream.eof, ByteStream.inputEnded,
    List.length_append, Bool.or_eq_true, Bool.and_eq_true, Bool.not_eq_true', decide_eq_true_eq,
    decide_eq_false_iff_not] at h ⊢
  by_cases hstr : str.length = 0
  · rw [hstr, Nat.add_zero]
    exact h.imp_right fun h => ⟨⟨.inr h.1.1, h.1.2⟩, h.2⟩
  · exact .inl (by omega)

/-- The reading rule. It is not called once the source has ended, so the writing side has not
been shut down. -/
theorem Piped.fill (h : Piped got₀ put₀ reads writes source stream sink shutdown) (hreads : reads)
    (heof : source.eof = false) :
    (fill source stream).Leaves
      (fun _ x => Piped got₀ put₀ reads writes x.1 x.2 sink shutdown ∧ OnlyRead source x.1 ∧
        x.1.readCount = source.readCount + 1 ∧ x.2.error = stream.error ∧
        (drainInterest stream shutdown = true → drainInterest x.2 shutdown = true))
      (fun e x => Throws e ∧ OnlyRead source x.1 ∧ InOrder got₀ put₀ x.1 sink) := by
  obtain ⟨w, hput, hgot⟩ := h.conserved
  have hopen : shutdown = false := by
    by_contra hshut
    rcases (h.shut (by simpa using hshut)).2 with hend | hgone
    · simp [heof] at hend
    · exact hgone hreads
  unfold StreamCopy.fill
  rcases source.read_cases stream.remainingCapacity with
    ⟨f', e, hrun, hthrows, honly, new, hnew⟩ | ⟨f', str, hrun, honly, hle, hstr, hcount, -⟩
  · rw [hrun]
    refine ⟨hthrows, honly, w, stream.buffer ++ new.flatten, hput, ?_⟩
    change f'.got.flatten = _
    rw [hnew, List.flatten_append, hgot]
    simp only [List.append_assoc]
  · rw [hrun]
    have hroom : str.length ≤ bufferSize - stream.buffer.length := h.capacity ▸ hle
    have hbound := h.bounded
    rw [Outcome.into, Outcome.andThen, Outcome.done]
    simp only
    rw [fill_stream hle]
    refine Outcome.leaves_done ⟨⟨⟨w, hput, ?_⟩, h.capacity, ?_, h.error, ?_, ?_, ?_⟩, honly, hcount,
      rfl, drain_interest_filled⟩
    · rw [hstr, List.flatten_append, hgot]
      simp
    · rw [List.length_append]
      omega
    · exact fun hgone => absurd hreads hgone
    · intro hend
      rcases Bool.or_eq_true_iff.mp hend with hend | hend
      · exact .inl hend
      · exact .inr ((h.ended hend).resolve_left (by simp [heof]))
    · intro hshut
      simp [hopen] at hshut

/-- The descriptor was written to once, and possibly finished with. -/
def Drained (finish : FileDescriptor → Outcome SystemFault FileDescriptor Unit)
    (f f' : FileDescriptor) (shutdown : Bool) : Prop :=
  ∃ f₁, OnlyWritten f f₁ ∧ f₁.writeCount = f.writeCount + 1 ∧
    (f' = f₁ ∨ finish f₁ = .done f' () ∧ shutdown = true)

/-- What is done with a descriptor in the end neither reads nor writes. -/
def Finishes (finish : FileDescriptor → Outcome SystemFault FileDescriptor Unit) : Prop :=
  ∀ f, (finish f).Leaves (fun _ f' => f'.put = f.put)
    (fun e f' => Throws e ∧ f'.got = f.got ∧ f'.put = f.put)

/-- What the kernel takes goes from the stream to the descriptor. -/
theorem drain_conserved {taken : Bytes} {n : Nat} (h : taken <+: stream.peekOutput n) :
    taken ++ (stream.popOutput taken.length).buffer = stream.buffer := by
  obtain ⟨rest, hrest⟩ := h.trans (List.take_prefix _ _)
  simp [ByteStream.popOutput, ← hrest]

/-- So it stays what it was, with a new stream, and the end of the stream may be passed on. -/
theorem Piped.popped (h : Piped got₀ put₀ reads writes source stream sink shutdown)
    (hwrites : writes) {taken : Bytes} {n : Nat} (hin : taken <+: stream.peekOutput n)
    (hput : sink'.put.flatten = sink.put.flatten ++ taken) {shutdown' : Bool}
    (hshut : shutdown' = true → shutdown = true ∨ (stream.popOutput taken.length).eof = true) :
    Piped got₀ put₀ reads writes source (stream.popOutput taken.length) sink' shutdown' where
  conserved := by
    obtain ⟨w, hput₀, hgot₀⟩ := h.conserved
    refine ⟨w ++ taken, by rw [hput, hput₀, List.append_assoc], ?_⟩
    rw [hgot₀, ← drain_conserved hin, List.append_assoc, drain_conserved hin]
  capacity := h.capacity
  bounded := by
    have hbound := h.bounded
    rw [ByteStream.popOutput, List.length_drop]
    omega
  error := h.error
  stopped := h.stopped
  ended := h.ended
  shut := by
    intro hs
    rcases hshut hs with hold | hnew
    · obtain ⟨heof, hsrc⟩ := h.shut hold
      obtain ⟨hend, hempty⟩ := ByteStream.eof_iff.mp heof
      refine ⟨ByteStream.eof_iff.mpr ⟨hend, ?_⟩, hsrc⟩
      simp only [ByteStream.bufferEmpty, decide_eq_true_eq] at hempty ⊢
      rw [ByteStream.popOutput, List.length_drop, hempty, Nat.zero_sub]
    · have hended := h.ended (ByteStream.eof_iff.mp hnew).1
      exact ⟨hnew, hended.imp_right fun h => h.resolve_right fun hno => hno hwrites⟩

/-- The writing rule. -/
theorem Piped.drain (h : Piped got₀ put₀ reads writes source stream sink shutdown) (hwrites : writes)
    {finish : FileDescriptor → Outcome SystemFault FileDescriptor Unit} (hfinish : Finishes finish) :
    (drain finish sink stream shutdown).Leaves
      (fun _ x => Piped got₀ put₀ reads writes source x.2.1 x.1 x.2.2 ∧
        Drained finish sink x.1 x.2.2 ∧
        x.2.1.error = stream.error ∧ (shutdown = true → x.2.2 = true))
      (fun e x => Throws e ∧ x.1.got = sink.got ∧ InOrder got₀ put₀ source x.1) := by
  unfold StreamCopy.drain
  simp only
  generalize min maxCopyLength stream.bufferSize = n
  obtain ⟨chunks, hw⟩ := sink.write_list_written ⟨[stream.peekOutput n]⟩ false
  have hin : chunks.flatten <+: stream.peekOutput n := by
    simpa [BufferList.concatenate] using hw.inOrder
  generalize sink.writeList ⟨[stream.peekOutput n]⟩ false = o at hw ⊢
  have hput : o.state.put.flatten = sink.put.flatten ++ chunks.flatten := by
    rw [hw.put, List.flatten_append]
  have hpop : ∀ {sink' shutdown'}, sink'.put = o.state.put → (shutdown' = true → shutdown = true ∨ _) →
      Piped got₀ put₀ reads writes source _ sink' shutdown' :=
    fun hsame hshut => h.popped hwrites hin (by rw [hsame, hput]) hshut
  cases hr : o.result with
  | error e =>
    rw [Outcome.into_and_then_error hr]
    refine Outcome.leaves_fail ⟨hw.throws e hr, ?_, (hpop rfl .inl).in_order⟩
    exact hw.others.got_eq
  | ok t =>
    rw [Outcome.into_and_then_ok hr]
    obtain rfl : t = chunks.flatten.length := by rw [hw.counted t hr, Nat.zero_add]
    have hcount := hw.counted_once hr
    split
    · rename_i heof
      have hf := hfinish o.state
      cases hfr : (finish o.state).result with
      | error e =>
        rw [Outcome.Leaves, hfr] at hf
        obtain ⟨hthrows, hgot, hsame⟩ := hf
        rw [Outcome.into_and_then_error hfr]
        refine Outcome.leaves_fail ⟨hthrows, ?_, (hpop hsame .inl).in_order⟩
        exact hgot.trans hw.others.got_eq
      | ok _ =>
        rw [Outcome.Leaves, hfr] at hf
        rw [Outcome.into_and_then_ok hfr]
        refine Outcome.leaves_done ⟨hpop hf fun _ => .inr heof, ⟨o.state, hw.others, hcount,
          .inr ⟨?_, rfl⟩⟩, rfl, fun _ => rfl⟩
        rw [Outcome.done, ← hfr]
    · exact Outcome.leaves_done ⟨hpop rfl .inl, ⟨o.state, hw.others, hcount, .inl rfl⟩, rfl, id⟩

end Piped

/-- The copy while nothing has failed. -/
structure Copying (c₀ : StreamCopy) (rules : List (Rule StreamCopy)) (c : StreamCopy) : Prop where
  left : ∀ rule ∈ rules, rule ∈ eventloop.rules
  ordered : (rules.map Rule.number).Pairwise (· < ·)
  outbound : Piped c₀.input.got.flatten c₀.socket.put.flatten (0 ∈ rules.map Rule.number)
    (1 ∈ rules.map Rule.number) c.input c.outbound c.socket c.outboundShutdown
  inbound : Piped c₀.socket.got.flatten c₀.output.put.flatten (2 ∈ rules.map Rule.number)
    (3 ∈ rules.map Rule.number) c.socket c.inbound c.output c.inboundShutdown
  closed : c.output.closed = true → c₀.output.closed = true ∨ c.inboundShutdown = true

/-- What a fault leaves behind. -/
structure Broken (c₀ : StreamCopy) (e : SystemFault) (c : StreamCopy) : Prop where
  fault : Throws e ∨ e = EventLoop.polledError
  outbound : InOrder c₀.input.got.flatten c₀.socket.put.flatten c.input c.socket
  inbound : InOrder c₀.socket.got.flatten c₀.output.put.flatten c.socket c.output

theorem Copying.broken {c₀ c : StreamCopy} {rules : List (Rule StreamCopy)} {e : SystemFault}
    (h : Copying c₀ rules c) (he : Throws e ∨ e = EventLoop.polledError) : Broken c₀ e c :=
  ⟨he, h.outbound.in_order, h.inbound.in_order⟩

/-- The interest of a rule is what it was when the kernel was asked; if it is asked about reading,
there is something to come. -/
def Known (rule : Rule StreamCopy) (events : Option Direction) (c : StreamCopy) : Prop :=
  rule.interest c = events.isSome ∧
    (events.isSome = true → rule.direction = .In → (rule.fd c).eof = false)

theorem rules_eq : eventloop.rules =
    [⟨0, (·.input), .In, inputToOutbound, fun c => fillInterest c.outbound c.inbound, endOutbound⟩,
      ⟨1, (·.socket), .Out, outboundToSocket, fun c => drainInterest c.outbound c.outboundShutdown,
        endOutbound⟩,
      ⟨2, (·.socket), .In, socketToInbound, fun c => fillInterest c.inbound c.outbound, endInbound⟩,
      ⟨3, (·.output), .Out, inboundToOutput, fun c => drainInterest c.inbound c.inboundShutdown,
        endInbound⟩] := rfl

theorem shutdown_finishes : Finishes (·.shutdown .wr) := by
  intro f
  change (f.shutdown .wr).Leaves _ _
  rcases f.shutdown_wr_cases with ⟨f', errno, hrun, hf'⟩ | ⟨f', hrun, hf'⟩
  · rw [hrun, hf']
    exact Outcome.leaves_fail ⟨.inl ⟨_, _, rfl⟩, rfl, rfl⟩
  · rw [hrun, hf']
    exact Outcome.leaves_done rfl

theorem close_finishes : Finishes (·.close) := by
  intro f
  change f.close.Leaves _ _
  rcases f.close_cases with ⟨f', errno, hrun, hf'⟩ | ⟨f', hrun, hf'⟩
  · rw [hrun, hf']
    exact Outcome.leaves_fail ⟨.inl ⟨_, _, rfl⟩, rfl, rfl⟩
  · rw [hrun, hf']
    exact Outcome.leaves_done rfl

theorem Drained.by_shutdown {f f' : FileDescriptor} {b : Bool}
    (h : Drained (·.shutdown .wr) f f' b) :
    f'.got = f.got ∧ f'.eof = f.eof ∧ f'.writeCount ≠ f.writeCount := by
  obtain ⟨f₁, honly, hcount, rfl | ⟨hrun, -⟩⟩ := h
  · rw [hcount]
    exact ⟨honly.got_eq, honly.eof_eq, FileDescriptor.count_succ_ne _⟩
  · change f₁.shutdown .wr = _ at hrun
    rcases f₁.shutdown_wr_cases with ⟨f₂, errno, hsys, -⟩ | ⟨f₂, hsys, hf₂⟩
    · rw [hsys] at hrun
      cases hrun
    · rw [hsys] at hrun
      cases hrun
      rw [hf₂]
      rw [hcount]
      exact ⟨honly.got_eq, honly.eof_eq, FileDescriptor.count_succ_succ_ne _⟩

theorem Drained.by_close {f f' : FileDescriptor} {b : Bool} (h : Drained (·.close) f f' b) :
    f'.writeCount ≠ f.writeCount ∧ (f'.closed = true → f.closed = true ∨ b = true) := by
  obtain ⟨f₁, honly, hcount, rfl | ⟨hrun, hb⟩⟩ := h
  · rw [hcount]
    exact ⟨FileDescriptor.count_succ_ne _, fun h => .inl (honly.closed_eq ▸ h)⟩
  · change f₁.close = _ at hrun
    rcases f₁.close_cases with ⟨f₂, errno, hsys, -⟩ | ⟨f₂, hsys, hf₂⟩
    · rw [hsys] at hrun
      cases hrun
    · rw [hsys] at hrun
      cases hrun
      rw [hf₂]
      refine ⟨?_, fun _ => .inr hb⟩
      simp only [hcount]
      exact FileDescriptor.count_succ_ne _

section Callbacks

variable {c₀ c : StreamCopy} {rules : List (Rule StreamCopy)}

theorem Copying.input_to_outbound (h : Copying c₀ rules c) (hthere : 0 ∈ rules.map Rule.number)
    (heof : c.input.eof = false) :
    (inputToOutbound c).Leaves
      (fun _ c' => Copying c₀ rules c' ∧ c'.input.readCount ≠ c.input.readCount ∧
        ∀ rule ∈ eventloop.rules, 0 < rule.number → Known rule (some rule.direction) c →
          Known rule (some rule.direction) c')
      (fun e c' => Broken c₀ e c') := by
  refine Outcome.Leaves.into ((h.outbound.fill hthere heof).mono ?_ ?_)
  · rintro _ x ⟨hpiped, honly, hcount, herror, hinterest⟩
    refine ⟨{ h with outbound := hpiped }, ?_, ?_⟩
    · rw [hcount]
      exact FileDescriptor.count_succ_ne _
    · intro rule hrule hpos hknown
      simp only [rules_eq, List.mem_cons, List.not_mem_nil, or_false] at hrule
      rcases hrule with rfl | rfl | rfl | rfl
      · exact absurd hpos (Nat.lt_irrefl 0)
      · exact ⟨hinterest hknown.1, hknown.2⟩
      · exact ⟨by simpa [fillInterest, herror] using hknown.1, hknown.2⟩
      · exact hknown
  · rintro e x ⟨hthrows, honly, hin⟩
    exact ⟨.inl hthrows, hin, h.inbound.in_order⟩

theorem Copying.outbound_to_socket (h : Copying c₀ rules c) (hthere : 1 ∈ rules.map Rule.number) :
    (outboundToSocket c).Leaves
      (fun _ c' => Copying c₀ rules c' ∧ c'.socket.writeCount ≠ c.socket.writeCount ∧
        ∀ rule ∈ eventloop.rules, 1 < rule.number → Known rule (some rule.direction) c →
          Known rule (some rule.direction) c')
      (fun e c' => Broken c₀ e c') := by
  refine Outcome.Leaves.into ((h.outbound.drain hthere shutdown_finishes).mono ?_ ?_)
  · rintro _ x ⟨hpiped, hdrained, herror, -⟩
    obtain ⟨hgot, heof, hcount⟩ := hdrained.by_shutdown
    refine ⟨{ h with outbound := hpiped, inbound := h.inbound.congr hgot heof rfl }, hcount, ?_⟩
    intro rule hrule hlater hknown
    simp only [rules_eq, List.mem_cons, List.not_mem_nil, or_false] at hrule
    rcases hrule with rfl | rfl | rfl | rfl
    · exact absurd hlater (by decide)
    · exact absurd hlater (by decide)
    · exact ⟨by simpa [fillInterest, herror] using hknown.1, fun he hd => heof.trans (hknown.2 he hd)⟩
    · exact hknown
  · rintro e x ⟨hthrows, hgot, hin⟩
    exact ⟨.inl hthrows, hin, h.inbound.in_order.congr hgot rfl⟩

theorem Copying.socket_to_inbound (h : Copying c₀ rules c) (hthere : 2 ∈ rules.map Rule.number)
    (heof : c.socket.eof = false) :
    (socketToInbound c).Leaves
      (fun _ c' => Copying c₀ rules c' ∧ c'.socket.readCount ≠ c.socket.readCount ∧
        ∀ rule ∈ eventloop.rules, 2 < rule.number → Known rule (some rule.direction) c →
          Known rule (some rule.direction) c')
      (fun e c' => Broken c₀ e c') := by
  refine Outcome.Leaves.into ((h.inbound.fill hthere heof).mono ?_ ?_)
  · rintro _ x ⟨hpiped, honly, hcount, herror, hinterest⟩
    have hput : x.1.put = c.socket.put := honly.put_eq
    refine ⟨{ h with outbound := h.outbound.congr rfl rfl hput, inbound := hpiped }, ?_, ?_⟩
    · rw [hcount]
      exact FileDescriptor.count_succ_ne _
    · intro rule hrule hlater hknown
      simp only [rules_eq, List.mem_cons, List.not_mem_nil, or_false] at hrule
      rcases hrule with rfl | rfl | rfl | rfl
      · exact absurd hlater (by decide)
      · exact absurd hlater (by decide)
      · exact absurd hlater (by decide)
      · exact ⟨hinterest hknown.1, hknown.2⟩
  · rintro e x ⟨hthrows, honly, hin⟩
    have hput : x.1.put = c.socket.put := honly.put_eq
    exact ⟨.inl hthrows, h.outbound.in_order.congr rfl hput, hin⟩

theorem Copying.inbound_to_output (h : Copying c₀ rules c) (hthere : 3 ∈ rules.map Rule.number) :
    (inboundToOutput c).Leaves
      (fun _ c' => Copying c₀ rules c' ∧ c'.output.writeCount ≠ c.output.writeCount ∧
        ∀ rule ∈ eventloop.rules, 3 < rule.number → Known rule (some rule.direction) c →
          Known rule (some rule.direction) c')
      (fun e c' => Broken c₀ e c') := by
  refine Outcome.Leaves.into ((h.inbound.drain hthere close_finishes).mono ?_ ?_)
  · rintro _ x ⟨hpiped, hdrained, herror, hshut⟩
    obtain ⟨hcount, hclosed⟩ := hdrained.by_close
    refine ⟨{ h with inbound := hpiped, closed := fun hc => ?_ }, hcount, ?_⟩
    · exact (hclosed hc).elim (fun hold => (h.closed hold).imp_right hshut) .inr
    · intro rule hrule hlater hknown
      simp only [rules_eq, List.mem_cons, List.not_mem_nil, or_false] at hrule
      rcases hrule with rfl | rfl | rfl | rfl <;> exact absurd hlater (by decide)
  · rintro e x ⟨hthrows, hgot, hin⟩
    exact ⟨.inl hthrows, h.outbound.in_order, hin⟩

theorem drain_interest_end_input {stream : ByteStream} {shutdown : Bool}
    (h : drainInterest stream shutdown = true) :
    drainInterest stream.endInput shutdown = true := by
  simp only [drainInterest, ByteStream.eof, ByteStream.inputEnded, Bool.or_eq_true,
    Bool.and_eq_true] at h ⊢
  exact h.imp_right fun h => ⟨⟨rfl, h.1.2⟩, h.2⟩

/-- The rule that a stream is read by may become interested when the stream ends; the others do
not look at that. -/
theorem Known.end_outbound {rule : Rule StreamCopy} {events : Option Direction}
    (hrule : rule ∈ eventloop.rules) (hev : rule.number = 1 → events.isSome = true)
    (h : Known rule events c) : Known rule events { c with outbound := c.outbound.endInput } := by
  simp only [rules_eq, List.mem_cons, List.not_mem_nil, or_false] at hrule
  rcases hrule with rfl | rfl | rfl | rfl
  · exact h
  · refine ⟨?_, h.2⟩
    rw [hev rfl]
    exact drain_interest_end_input (h.1.trans (hev rfl))
  · exact h
  · exact h

theorem Known.end_inbound {rule : Rule StreamCopy} {events : Option Direction}
    (hrule : rule ∈ eventloop.rules) (hev : rule.number = 3 → events.isSome = true)
    (h : Known rule events c) : Known rule events { c with inbound := c.inbound.endInput } := by
  simp only [rules_eq, List.mem_cons, List.not_mem_nil, or_false] at hrule
  rcases hrule with rfl | rfl | rfl | rfl
  · exact h
  · exact h
  · exact h
  · refine ⟨?_, h.2⟩
    rw [hev rfl]
    exact drain_interest_end_input (h.1.trans (hev rfl))

theorem Copying.cancelled {before after : List (Rule StreamCopy)} {rule : Rule StreamCopy}
    (h : Copying c₀ (before ++ rule :: after) c) :
    (rule.cancel c).Leaves
      (fun _ c' => Copying c₀ (before ++ after) c' ∧
        (∀ r ∈ before, ∀ events, Known r events c → Known r events c') ∧
        ∀ r ∈ after, Known r (some r.direction) c → Known r (some r.direction) c')
      (fun e c' => Broken c₀ e c') := by
  have hleft : ∀ r ∈ before ++ after, r ∈ eventloop.rules := fun r hr =>
    h.left r (by simp only [List.mem_append, List.mem_cons] at hr ⊢; tauto)
  have hp := EventLoop.placed h.ordered
  have hrule := h.left rule (List.mem_append_right _ List.mem_cons_self)
  have hb : ∀ r ∈ before, r ∈ eventloop.rules := fun r hr => hleft r (List.mem_append_left _ hr)
  have ha : ∀ r ∈ after, r ∈ eventloop.rules := fun r hr => hleft r (List.mem_append_right _ hr)
  obtain ⟨-, -, hout, hin, hclosed⟩ := h
  simp only [rules_eq, List.mem_cons, List.not_mem_nil, or_false] at hrule
  rcases hrule with rfl | rfl | rfl | rfl
  · refine Outcome.leaves_done ⟨⟨hleft, hp.ordered, ?_, ?_, hclosed⟩, fun r hr _ hk => ?_,
      fun r hr => .end_outbound (ha r hr) fun _ => rfl⟩
    · exact hout.end_input (fun _ => hp.gone) (.inl hp.gone)
    · rwa [hp.stay 2 (by decide), hp.stay 3 (by decide)]
    · exact hk.end_outbound (hb r hr) fun h1 => absurd (hp.earlier r hr) (by simp [h1])
  · refine Outcome.leaves_done ⟨⟨hleft, hp.ordered, ?_, ?_, hclosed⟩, fun r hr _ hk => ?_,
      fun r hr => .end_outbound (ha r hr) fun _ => rfl⟩
    · rw [hp.stay 0 (by decide)]
      exact hout.end_input id (.inr hp.gone)
    · rwa [hp.stay 2 (by decide), hp.stay 3 (by decide)]
    · exact hk.end_outbound (hb r hr) fun h1 => absurd (hp.earlier r hr) (by simp [h1])
  · refine Outcome.leaves_done ⟨⟨hleft, hp.ordered, ?_, ?_, hclosed⟩, fun r hr _ hk => ?_,
      fun r hr => .end_inbound (ha r hr) fun _ => rfl⟩
    · rwa [hp.stay 0 (by decide), hp.stay 1 (by decide)]
    · exact hin.end_input (fun _ => hp.gone) (.inl hp.gone)
    · exact hk.end_inbound (hb r hr) fun h3 => absurd (hp.earlier r hr) (by simp [h3])
  · refine Outcome.leaves_done ⟨⟨hleft, hp.ordered, ?_, ?_, hclosed⟩, fun r hr _ hk => ?_,
      fun r hr => .end_inbound (ha r hr) fun _ => rfl⟩
    · rwa [hp.stay 0 (by decide), hp.stay 1 (by decide)]
    · rw [hp.stay 2 (by decide)]
      exact hin.end_input id (.inr hp.gone)
    · exact hk.end_inbound (hb r hr) fun h3 => absurd (hp.earlier r hr) (by simp [h3])

end Callbacks

theorem copying_serves (c₀ : StreamCopy) :
    EventLoop.Serves (Copying c₀) Known (fun e _ c => Broken c₀ e c) where
  asked := by
    intro rules rule c _ _ heof _
    cases hi : rule.interest c with
    | true => exact ⟨hi, fun _ hd => Bool.eq_false_iff.mpr fun he => heof ⟨hd, he⟩⟩
    | false => exact ⟨hi, nofun⟩
  callback := by
    intro before rule after c h hk
    have hmem : rule ∈ before ++ rule :: after := List.mem_append_right _ List.mem_cons_self
    have hthere := List.mem_map_of_mem (f := Rule.number) hmem
    have hp := EventLoop.placed h.ordered
    have ha : ∀ r ∈ after, r ∈ eventloop.rules := fun r hr =>
      h.left r (List.mem_append_right _ (List.mem_cons_of_mem _ hr))
    have hrule := h.left rule hmem
    simp only [rules_eq, List.mem_cons, List.not_mem_nil, or_false] at hrule
    rcases hrule with rfl | rfl | rfl | rfl
    · refine (h.input_to_outbound hthere (hk.2 rfl rfl)).mono (fun _ c' hc' => ?_) fun _ _ => id
      exact ⟨hc'.1, fun r hr => hc'.2.2 r (ha r hr) (hp.later r hr), fun hsame => absurd hsame.symm hc'.2.1⟩
    · refine (h.outbound_to_socket hthere).mono (fun _ c' hc' => ?_) fun _ _ => id
      exact ⟨hc'.1, fun r hr => hc'.2.2 r (ha r hr) (hp.later r hr), fun hsame => absurd hsame.symm hc'.2.1⟩
    · refine (h.socket_to_inbound hthere (hk.2 rfl rfl)).mono (fun _ c' hc' => ?_) fun _ _ => id
      exact ⟨hc'.1, fun r hr => hc'.2.2 r (ha r hr) (hp.later r hr), fun hsame => absurd hsame.symm hc'.2.1⟩
    · refine (h.inbound_to_output hthere).mono (fun _ c' hc' => ?_) fun _ _ => id
      exact ⟨hc'.1, fun r hr => hc'.2.2 r (ha r hr) (hp.later r hr), fun hsame => absurd hsame.symm hc'.2.1⟩
  cancel := fun _ _ _ _ h => h.cancelled
  polled := fun _ _ h => h.broken (.inr rfl)

/-- All that was got was put out, and the end was passed on. -/
structure Complete (got₀ put₀ : Bytes) (source sink : FileDescriptor) (shutdown : Bool) : Prop where
  all : ∃ w, sink.put.flatten = put₀ ++ w ∧ source.got.flatten = got₀ ++ w
  shut : shutdown = true

section Complete

variable {got₀ put₀ : Bytes} {reads writes : Prop} {source sink : FileDescriptor}
  {stream other : ByteStream} {shutdown : Bool}

theorem Piped.complete_of_shut (h : Piped got₀ put₀ reads writes source stream sink shutdown)
    (hs : shutdown = true) : Complete got₀ put₀ source sink shutdown := by
  obtain ⟨w, hput, hgot⟩ := h.conserved
  have hempty : stream.buffer = [] := by
    simpa [ByteStream.bufferEmpty] using (ByteStream.eof_iff.mp (h.shut hs).1).2
  rw [hempty, List.append_nil] at hgot
  exact ⟨⟨w, hput, hgot⟩, hs⟩

/-- If no rule is interested, the stream is empty, so there is room, so the rule that would fill
it has gone, so the stream has ended. -/
theorem Piped.complete (h : Piped got₀ put₀ reads writes source stream sink shutdown)
    (hother : other.error = false) (hfill : reads → fillInterest stream other = false)
    (hdrain : drainInterest stream shutdown = false) :
    Complete got₀ put₀ source sink shutdown := by
  simp only [drainInterest, Bool.or_eq_false_iff, Bool.not_eq_false'] at hdrain
  obtain ⟨hempty, hshut⟩ := hdrain
  have hgone : ¬ reads := by
    intro hreads
    have hroom : stream.remainingCapacity = bufferSize := by
      have hlen : stream.buffer.length = 0 := by simpa [ByteStream.bufferEmpty] using hempty
      rw [ByteStream.remainingCapacity, hlen, h.capacity, Nat.sub_zero]
    have hno := hfill hreads
    rw [fillInterest, h.error, hother, hroom] at hno
    exact absurd hno (by decide)
  have heof : stream.eof = true := ByteStream.eof_iff.mpr ⟨h.stopped hgone, hempty⟩
  exact h.complete_of_shut (by simpa [heof] using hshut)

end Complete

/-- What the loop comes to: if it has come to its end and no call was interrupted, a direction
whose writing rule was not cancelled is complete. -/
structure Copied (c₀ : StreamCopy) (polls : List Poll) (ended : Bool)
    (rules : List (Rule StreamCopy)) (c : StreamCopy) : Prop where
  outbound : InOrder c₀.input.got.flatten c₀.socket.put.flatten c.input c.socket
  inbound : InOrder c₀.socket.got.flatten c₀.output.put.flatten c.socket c.output
  sent : (∀ poll ∈ polls, ∀ fds, poll fds ≠ .error EINTR) → ended = true →
    1 ∈ rules.map Rule.number →
    Complete c₀.input.got.flatten c₀.socket.put.flatten c.input c.socket c.outboundShutdown
  received : (∀ poll ∈ polls, ∀ fds, poll fds ≠ .error EINTR) → ended = true →
    3 ∈ rules.map Rule.number ∨ (c.output.closed = true ∧ c₀.output.closed = false) →
    Complete c₀.socket.got.flatten c₀.output.put.flatten c.socket c.output c.inboundShutdown

theorem Copied.cons {c₀ c : StreamCopy} {poll : Poll} {polls : List Poll} {ended : Bool}
    {rules : List (Rule StreamCopy)} (h : Copied c₀ polls ended rules c) :
    Copied c₀ (poll :: polls) ended rules c :=
  { h with
    sent := fun hq => h.sent fun p hp => hq p (List.mem_cons_of_mem _ hp)
    received := fun hq => h.received fun p hp => hq p (List.mem_cons_of_mem _ hp) }

theorem Copying.copied {c₀ c : StreamCopy} {rules : List (Rule StreamCopy)} {polls : List Poll}
    (h : Copying c₀ rules c)
    (hknown : (∀ poll ∈ polls, ∀ fds, poll fds ≠ .error EINTR) → ∀ rule ∈ rules, Known rule none c) :
    Copied c₀ polls true rules c := by
  -- a rule that is there is the one of this number
  have hinterest : (∀ poll ∈ polls, ∀ fds, poll fds ≠ .error EINTR) →
      ∀ n ∈ rules.map Rule.number, ∃ rule ∈ rules, rule ∈ eventloop.rules ∧
        rule.number = n ∧ rule.interest c = false := by
    intro hq n hn
    obtain ⟨rule, hrule, rfl⟩ := List.mem_map.mp hn
    exact ⟨rule, hrule, h.left rule hrule, rfl, (hknown hq rule hrule).1⟩
  simp only [rules_eq, List.mem_cons (a := (_ : Rule StreamCopy)), List.not_mem_nil,
    or_false] at hinterest
  refine ⟨h.outbound.in_order, h.inbound.in_order, fun hq _ hw => ?_, fun hq _ hw => ?_⟩
  · refine h.outbound.complete h.inbound.error (fun hn => ?_) ?_
    · obtain ⟨rule, -, rfl | rfl | rfl | rfl, hnum, hno⟩ := hinterest hq 0 hn
      all_goals first | exact hno | cases hnum
    · obtain ⟨rule, -, rfl | rfl | rfl | rfl, hnum, hno⟩ := hinterest hq 1 hw
      all_goals first | exact hno | cases hnum
  · rcases hw with hw | ⟨hclosed, hopen⟩
    · refine h.inbound.complete h.outbound.error (fun hn => ?_) ?_
      · obtain ⟨rule, -, rfl | rfl | rfl | rfl, hnum, hno⟩ := hinterest hq 2 hn
        all_goals first | exact hno | cases hnum
      · obtain ⟨rule, -, rfl | rfl | rfl | rfl, hnum, hno⟩ := hinterest hq 3 hw
        all_goals first | exact hno | cases hnum
    · refine h.inbound.complete_of_shut ((h.closed hclosed).resolve_left ?_)
      simp [hopen]

theorem loop_leaves {c₀ c : StreamCopy} {rules : List (Rule StreamCopy)} (polls : List Poll)
    (h : Copying c₀ rules c) :
    (loop polls rules c).Leaves (fun ended x => Copied c₀ polls ended x.1 x.2)
      (fun e x => Broken c₀ e x.2) := by
  induction polls generalizing rules c with
  | nil =>
    exact Outcome.leaves_done ⟨h.outbound.in_order, h.inbound.in_order, nofun, nofun⟩
  | cons poll polls ih =>
    refine ((copying_serves c₀).wait_next_event h).and_then fun r x hx => ?_
    split
    · rename_i hexit
      exact Outcome.leaves_done (hx.1.copied fun hq => hx.2 hexit (hq poll List.mem_cons_self))
    · exact (ih hx.1).mono (fun _ _ => Copied.cons) fun _ _ => id

theorem start_copying {input output socket input' output' socket' : FileDescriptor}
    (hinput : input' = { input with controlAnswers := input'.controlAnswers })
    (houtput : output' = { output with controlAnswers := output'.controlAnswers })
    (hsocket : socket' = { socket with controlAnswers := socket'.controlAnswers }) :
    Copying (start input output socket) eventloop.rules (start input' output' socket') where
  left := fun _ => id
  ordered := eventloop.ordered
  outbound :=
    { conserved := ⟨[], by rw [hsocket]; simp [start], by rw [hinput]; simp [start, ByteStream.new]⟩
      capacity := rfl
      bounded := Nat.zero_le _
      error := rfl
      stopped := fun hno => absurd (by decide) hno
      ended := nofun
      shut := nofun }
  inbound :=
    { conserved := ⟨[], by rw [houtput]; simp [start], by rw [hsocket]; simp [start, ByteStream.new]⟩
      capacity := rfl
      bounded := Nat.zero_le _
      error := rfl
      stopped := fun hno => absurd (by decide) hno
      ended := nofun
      shut := nofun }
  closed := by
    intro hc
    rw [start, houtput] at hc
    exact .inl hc

/-- Whatever the kernel answers, each direction puts out the bytes it gets, in order and once. The
loop throws only what the descriptors throw, or its error on a polled descriptor: it never waits
busily. When it comes to its end
without having been interrupted, all that was read has been written and the end passed on, unless
the writing side had hung up. -/
theorem bidirectional_stream_copy_exact (input output socket : FileDescriptor)
    (polls : List Poll) :
    (bidirectionalStreamCopy input output socket polls).Leaves
      (fun ended x => Copied (start input output socket) polls ended x.1 x.2)
      (fun e x => Broken (start input output socket) e x.2) := by
  refine Outcome.Leaves.and_then
    (Q := fun _ x => Copying (start input output socket) x.1 x.2) ?_
    fun _ x hx => loop_leaves polls hx
  refine Outcome.Leaves.and_then (Q := fun _ x => ∃ socket', x.2 = start input output socket' ∧
    socket' = { socket with controlAnswers := socket'.controlAnswers }) (.into ?_) ?_
  · exact socket.set_blocking_leaves.mono (fun _ f hf => ⟨f, rfl, hf⟩)
      fun _ f hf => (start_copying rfl rfl hf.2).broken (.inl hf.1)
  rintro _ ⟨_, _⟩ ⟨socket', rfl, hsocket⟩
  refine Outcome.Leaves.and_then (Q := fun _ x => ∃ input', x.2 = start input' output socket' ∧
    input' = { input with controlAnswers := input'.controlAnswers }) (.into ?_) ?_
  · exact input.set_blocking_leaves.mono (fun _ f hf => ⟨f, rfl, hf⟩)
      fun _ f hf => (start_copying hf.2 rfl hsocket).broken (.inl hf.1)
  rintro _ ⟨_, _⟩ ⟨input', rfl, hinput⟩
  exact .into (output.set_blocking_leaves.mono (fun _ f hf => start_copying hinput hf hsocket)
    fun _ f hf => (start_copying hinput hf.2 hsocket).broken (.inl hf.1))

end StreamCopy

end Sponge
