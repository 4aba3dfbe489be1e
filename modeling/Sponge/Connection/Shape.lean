import Sponge.Connection.Session

namespace Sponge

namespace TCPSender

/-- What the sender has queued or holds back are segments whose headers have no options. -/
structure Shaped (s : TCPSender) : Prop where
  queue : ∀ g ∈ s.segmentsOut, g.header.doff = 5
  held : ∀ e ∈ s.outstandingSegs.entries, e.2.header.doff = 5
  slot : s.zeroWinSeg.header.doff = 5

theorem new_shaped (capacity : Nat) (timeout : UInt16) (isn : WrappingInt32) :
    (new capacity timeout isn).Shaped :=
  ⟨by simp [new], by simp [new, OrdMap.empty], rfl⟩

section Shaped

variable {s : TCPSender} {seg : TCPSegment} (h : s.Shaped)
include h

theorem Shaped.queue_append (hseg : seg.header.doff = 5) :
    ∀ g ∈ s.segmentsOut ++ [seg], g.header.doff = 5 := by
  intro g hg
  rcases List.mem_append.mp hg with hg | hg
  · exact h.queue g hg
  · rw [List.mem_singleton.mp hg]
    exact hseg

theorem Shaped.transmit (hseg : seg.header.doff = 5) : (s.transmit seg).Shaped := by
  refine ⟨h.queue_append hseg, ?_, h.slot⟩
  intro e he
  rcases OrdMap.mem_insert.mp he with rfl | ⟨he, -⟩
  · exact hseg
  · exact h.held e he

theorem Shaped.probe (hseg : seg.header.doff = 5) : (s.probe seg).Shaped :=
  ⟨h.queue_append hseg, h.held, hseg⟩

theorem Shaped.stream (stream : ByteStream) : { s with stream := stream }.Shaped :=
  ⟨h.queue, h.held, h.slot⟩

theorem Shaped.send_data : s.sendData.Shaped := by
  refine (h.stream _).transmit ?_
  unfold dataSegment
  simp only
  split <;> rfl

theorem Shaped.fill_loop : s.fillLoop.Shaped := by
  fun_induction fillLoop s with
  | case1 s hgo ih => exact ih h.send_data
  | case2 s hstop => exact h

theorem Shaped.probe_byte : s.probeByte.Shaped := (h.stream _).probe h.slot

theorem Shaped.probe_fin : s.probeFin.Shaped := h.probe h.slot

theorem Shaped.fill_window : s.fillWindow.Shaped := by
  unfold fillWindow
  split
  · exact h.transmit rfl
  split
  · simp only
    split
    · exact (h.transmit rfl : s.sendFin.Shaped).fill_loop
    · exact h.fill_loop
  split
  · -- the second probe is sent with the header of the first
    simp only
    split
    · have hbyte := h.probe_byte
      split
      · exact hbyte.probe_fin
      · exact hbyte
    · split
      · exact h.probe_fin
      · exact h
  · exact h

theorem Shaped.ack_received (ackno : WrappingInt32) (win : UInt16) :
    (s.ackReceived ackno win).Shaped := by
  unfold ackReceived
  split
  · exact h
  · rename_i ack _
    exact ⟨h.queue, fun e he => h.held e ((unacked_sublist ack _).subset he), h.slot⟩

theorem Shaped.tick (ms : Nat) : (s.tick ms).Shaped :=
  tick_preserves h (fun _ _ _ _ _ h => ⟨h.queue, h.held, h.slot⟩)
    (fun _ h _ => ⟨h.queue_append h.slot, h.held, h.slot⟩)
    (fun _ _ _ _ h he =>
      ⟨h.queue_append (h.held _ (he ▸ List.mem_cons_self)), h.held, h.slot⟩) ms

theorem Shaped.send_empty : s.sendEmptySegment.Shaped :=
  ⟨h.queue_append rfl, h.held, h.slot⟩

end Shaped

end TCPSender

namespace TCPConnection

/-- No segment that was put out has options. -/
structure Shaped (x : TCPConnection) : Prop where
  sender : x.sender.Shaped
  out : ∀ g ∈ x.segmentsOut, g.header.doff = 5

theorem new_shaped (cfg : TCPConfig) (random : WrappingInt32) : (new cfg random).Shaped :=
  ⟨TCPSender.new_shaped _ _ _, by simp [new]⟩

theorem shaped_kept : Kept Shaped where
  fill := fun _ h => ⟨h.sender.fill_window, h.out⟩
  tick := fun _ ms h => ⟨h.sender.tick ms, h.out⟩
  empty := fun _ h => ⟨h.sender.send_empty, h.out⟩
  errors := fun _ h => ⟨h.sender.stream _, h.out⟩
  flags := fun _ _ _ h => ⟨h.sender, h.out⟩
  forward := fun x seg copy queue h hseg hq hc => by
    refine ⟨⟨fun g hg => h.sender.queue g (hq g hg), h.sender.held, h.sender.slot⟩, ?_⟩
    intro g hg
    rcases List.mem_append.mp hg with hg | hg
    · exact h.out g hg
    · rw [List.mem_singleton.mp hg, hc.doff]
      exact h.sender.queue seg hseg

/-- What was put out stays so. -/
theorem out_kept (out : List TCPSegment) : Kept (fun x => ∀ g ∈ out, g ∈ x.segmentsOut) where
  fill := fun _ h => h
  tick := fun _ _ h => h
  empty := fun _ h => h
  errors := fun _ h => h
  flags := fun _ _ _ h => h
  forward := fun _ _ _ _ h _ _ _ g hg => List.mem_append_left _ (h g hg)

theorem Shaped.use {x : TCPConnection} (h : x.Shaped) (u : ConnUse) : (x.use u).Shaped := by
  cases u with
  | connect => exact shaped_kept.connect h
  | write data => exact shaped_kept.write ⟨h.sender.stream _, h.out⟩
  | endInputStream => exact shaped_kept.end_input_stream ⟨h.sender.stream _, h.out⟩
  | tick ms => exact shaped_kept.time_passes h ms
  | read len => exact ⟨h.sender, h.out⟩
  | segmentReceived seg =>
    apply shaped_kept.segment_received h (fun _ _ => ⟨h.sender, h.out⟩)
    intro y hy _
    exact ⟨hy.sender.ack_received _ _, hy.out⟩

theorem use_out (x : TCPConnection) (u : ConnUse) : ∀ g ∈ x.segmentsOut, g ∈ (x.use u).segmentsOut :=
  (out_kept x.segmentsOut).use_aside (fun _ hg => hg) (fun _ _ h => h) (fun _ _ h => h) u

end TCPConnection

end Sponge
