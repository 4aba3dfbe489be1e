import Sponge.Socket.Packets
import Sponge.Socket.Thread

namespace Sponge

namespace TCPSpongeSocket

open Packets (received sent)

section Link

variable {α : Type} [FdAdapter α] {decode : Format} [Packets α decode]

/-- What an adapter has put on the wire are segments of its connection. -/
def Carried (a : α) (e : Endpoint) : Prop :=
  ∀ str ∈ sent a, ∃ seg ∈ e.conn.segmentsOut, ∃ g, decode str = some g ∧ seg.OnWire g

/-- One end, with its peer. -/
structure Linked (a : α) (e p : Endpoint) : Prop where
  link : e.LinkTo p
  back : p.LinkTo e
  shaped : e.conn.Shaped
  carried : Carried a e

/-- What was got from the wire has been put there by the peer, the kernel has not cut what was put
there, and the stream is short. -/
structure Fair (wire : List Bytes) (a : α) (e : Endpoint) : Prop where
  honest : ∀ str ∈ received a, str ∈ wire
  whole : ∀ str ∈ sent a, (decode str).isSome
  short : e.accepted.length < 2 ^ 31

instance (wire : List Bytes) (a : α) (e : Endpoint) : Decidable (Fair wire a e) :=
  decidable_of_iff ((∀ str ∈ received a, str ∈ wire) ∧ (∀ str ∈ sent a, (decode str).isSome) ∧
      e.accepted.length < 2 ^ 31)
    ⟨fun h => ⟨h.1, h.2.1, h.2.2⟩, fun h => ⟨h.honest, h.whole, h.short⟩⟩

theorem accepted_act (e : Endpoint) (u : Act) :
    e.accepted.length ≤ (e.act [] u).accepted.length := by
  cases u with
  | write data => simp [Endpoint.act]
  | connect => exact Nat.le_refl _
  | endInputStream => exact Nat.le_refl _
  | tick ms => exact Nat.le_refl _
  | read len => exact Nat.le_refl _
  | deliver k => exact Nat.le_refl _

variable {a a' : α} {e p : Endpoint} {wire : List Bytes}

theorem Carried.mono {e' : Endpoint} (h : Carried a e) (hsent : sent a' = sent a)
    (hout : ∀ seg ∈ e.conn.segmentsOut, seg ∈ e'.conn.segmentsOut) : Carried a' e' := by
  intro str hstr
  rw [hsent] at hstr
  obtain ⟨seg, hseg, hrest⟩ := h str hstr
  exact ⟨seg, hout seg hseg, hrest⟩

theorem Linked.use {e' : Endpoint} (h : Linked a e p) (hlinks : e'.LinkTo p ∧ p.LinkTo e')
    (hconn : e'.conn = e.conn ∨ ∃ u, e'.conn = e.conn.use u) (hsent : sent a' = sent a) :
    Linked a' e' p := by
  have hkeep : e'.conn.Shaped ∧ ∀ seg ∈ e.conn.segmentsOut, seg ∈ e'.conn.segmentsOut := by
    rcases hconn with hsame | ⟨u, huse⟩
    · rw [hsame]
      exact ⟨h.shaped, fun _ hg => hg⟩
    · rw [huse]
      exact ⟨h.shaped.use u, e.conn.use_out u⟩
  exact ⟨hlinks.1, hlinks.2, hkeep.1, h.carried.mono hsent hkeep.2⟩

/-- A segment from the wire is one that the peer has sent. -/
theorem Linked.receive (h : Linked a e p) (hs : e.accepted.length < 2 ^ 31)
    (hs' : p.accepted.length < 2 ^ 31) {seg g : TCPSegment} (hseg : seg ∈ p.conn.segmentsOut)
    (hg : seg.OnWire g) (hsent : sent a' = sent a) : Linked a' (e.receive (some g)) p := by
  obtain ⟨sport, dport, cksum, rfl⟩ := hg
  obtain ⟨k, hk⟩ := List.mem_iff_getElem?.mp hseg
  have hact : e.act p.conn.segmentsOut (.deliver k) =
      { e with conn := e.conn.segmentReceived seg } := by
    simp only [Endpoint.act, hk]
  have hlinks := Endpoint.links_act (.deliver k) h.link h.back hs hs'
  rw [hact] at hlinks
  have hnext : Linked a' { e with conn := e.conn.segmentReceived seg } p :=
    h.use hlinks (.inr ⟨.segmentReceived seg, rfl⟩) hsent
  exact hnext

/-- If it has been fair up to a later time, it was so before. -/
theorem Fair.earlier {e' : Endpoint} {got put : List Bytes} (h : Fair wire a' e')
    (hgot : received a' = received a ++ got) (hput : sent a' = sent a ++ put)
    (hacc : e.accepted.length ≤ e'.accepted.length) : Fair wire a e := by
  refine ⟨fun str hstr => h.honest str ?_, fun str hstr => h.whole str ?_,
    Nat.lt_of_le_of_lt hacc h.short⟩
  · rw [hgot]
    exact List.mem_append_left _ hstr
  · rw [hput]
    exact List.mem_append_left _ hstr

theorem Linked.read {β : Type} [FdAdapter β] [Packets β decode] {b : β} (hwire : Carried b p)
    (hs' : p.accepted.length < 2 ^ 31) (h : Fair (sent b) a e → Linked a e p) :
    (FdAdapter.read a).Leaves
      (fun seg a' => Fair (sent b) a' (e.receive seg) → Linked a' (e.receive seg) p)
      (fun _ a' => Fair (sent b) a' e → Linked a' e p) := by
  refine (Packets.read a).mono ?_ ?_
  · rintro seg a' ⟨hsent, new, hnew, htaken⟩ hfair
    have hput : sent a' = sent a ++ [] := by rw [hsent, List.append_nil]
    cases seg with
    | none =>
      have hlinked := h (hfair.earlier hnew hput (Nat.le_refl _))
      exact hlinked.use ⟨hlinked.link, hlinked.back⟩ (.inl rfl) hsent
    | some g =>
      have hbefore : Fair (sent b) a e := hfair.earlier hnew hput (Nat.le_refl _)
      obtain ⟨str, hstr, hdecode⟩ := htaken g rfl
      have hmem : str ∈ received a' := by
        rw [hnew]
        exact List.mem_append_right _ hstr
      obtain ⟨seg, hseg, g', hg', hon⟩ := hwire str (hfair.honest str hmem)
      obtain rfl : g = g' := Option.some.inj (hdecode.symm.trans hg')
      exact (h hbefore).receive hbefore.short hs' hseg hon hsent
  · rintro _ a' ⟨hsent, new, hnew⟩ hfair
    have hlinked := h (hfair.earlier hnew (by rw [hsent, List.append_nil]) (Nat.le_refl _))
    exact hlinked.use ⟨hlinked.link, hlinked.back⟩ (.inl rfl) hsent

theorem Linked.write {seg : TCPSegment} (hseg : seg ∈ e.conn.segmentsOut)
    (h : Fair wire a e → Linked a e p) (hfair : Fair wire (FdAdapter.write a seg).state e) :
    Linked (FdAdapter.write a seg).state e p := by
  obtain ⟨hgot, new, hnew, hon⟩ := Packets.write a seg
  have hlinked := h (hfair.earlier (by rw [hgot, List.append_nil]) hnew (Nat.le_refl _))
  refine ⟨hlinked.link, hlinked.back, hlinked.shaped, fun str hstr => ?_⟩
  rw [hnew] at hstr
  rcases List.mem_append.mp hstr with hold | hstr
  · exact hlinked.carried str hold
  · -- the payload is that of a segment the sender has made
    obtain ⟨s, hs, hcopy⟩ := hlinked.link.copies seg hseg
    have hsmall : seg.payload.length ≤ 65495 := by
      rw [hcopy.payload]
      exact Nat.le_trans (hlinked.link.taped.sent s hs).small (by decide)
    have htaken : ∀ str ∈ new, (decode str).isSome := fun str hstr =>
      hfair.whole str (by rw [hnew]; exact List.mem_append_right _ hstr)
    exact ⟨seg, hseg, hon (hlinked.shaped.out seg hseg) hsmall htaken str hstr⟩

/-- All that a socket does keeps the two ends linked, as long as wire and kernel are fair. -/
theorem linked_drives {β : Type} [FdAdapter β] [Packets β decode] {b : β}
    (hwire : Carried b p) (hs' : p.accepted.length < 2 ^ 31) :
    Drives (fun (a : α) e _ => Fair (sent b) a e → Linked a e p) where
  read := fun _ _ _ h => Linked.read hwire hs' h
  write := fun _ _ _ _ h hseg =>
    Outcome.leaves_of_forall (fun _ => Linked.write hseg h) fun _ => Linked.write hseg h
  tick := by
    intro a e k ms h
    obtain ⟨hgot, hput⟩ := Packets.tick a ms
    have hkeep : Fair (sent b) (FdAdapter.tick a ms).state e →
        Linked (FdAdapter.tick a ms).state e p := by
      intro hfair
      have hlinked := h (hfair.earlier (by rw [hgot, List.append_nil])
        (by rw [hput, List.append_nil]) (Nat.le_refl _))
      exact hlinked.use ⟨hlinked.link, hlinked.back⟩ (.inl rfl) hput
    exact Outcome.leaves_of_forall (fun _ => hkeep) fun _ => hkeep
  act := by
    intro a e k u h _ hfair
    have hbefore : Fair (sent b) a e :=
      hfair.earlier (List.append_nil _).symm (List.append_nil _).symm (accepted_act e u)
    have hlinked := h hbefore
    refine hlinked.use ?_ (e.act_conn [] u) rfl
    cases e.act_nil p.conn.segmentsOut u with
    | inl hsame =>
      rw [hsame]
      exact ⟨hlinked.link, hlinked.back⟩
    | inr hsame =>
      rw [hsame]
      exact Endpoint.links_act u hlinked.link hlinked.back hbefore.short hs'

end Link

/-- What a socket starts from: its ends of the pipe and of the wire are new. -/
structure Setup (α : Type) [FdAdapter α] {decode : Format} [Packets α decode] where
  opening : Opening
  threadData : FileDescriptor
  datagramAdapter : α
  tcp : TCPConfig := {}
  random : WrappingInt32
  config : FdAdapterConfig
  now : UInt64 := 0
  newPipe : threadData.got = [] ∧ threadData.put = []
  newWire : sent datagramAdapter = []

def Setup.thread {α : Type} [FdAdapter α] {decode : Format} [Packets α decode] (c : Setup α) :
    Thread α :=
  .opened c.opening c.threadData c.datagramAdapter c.tcp c.random c.config c.now

section Threads

variable {α β : Type} [FdAdapter α] [FdAdapter β] {decode : Format} [Packets α decode]
  [Packets β decode]

theorem Setup.kept (c : Setup α) : c.thread.Kept (fun _ _ _ => True) [] [] := by
  have hnew : (Endpoint.new c.tcp c.random).conn.Driven c.tcp c.random := ⟨[], trivial, rfl⟩
  have hkept : c.thread.Kept (fun _ e _ => e.conn.Driven c.tcp c.random)
      c.threadData.got.flatten c.threadData.put.flatten :=
    Thread.opened_kept (driven_drives c.tcp c.random) hnew hnew
  rw [c.newPipe.1, c.newPipe.2] at hkept
  exact hkept.view trivial

theorem Setup.tcp_eq (c : Setup α) : c.thread.socket.tcp = .new c.tcp c.random ∨
    c.thread.socket.tcp = (Endpoint.new c.tcp c.random).act [] .connect := by
  unfold thread Thread.opened
  cases c.opening with
  | active => exact .inr rfl
  | passive => exact .inl rfl

theorem Setup.nothing_sent (c : Setup α) : sent c.thread.socket.datagramAdapter = [] := by
  have hconfig := (Packets.fresh c.datagramAdapter c.config).1.trans c.newWire
  unfold thread Thread.opened
  cases c.opening with
  | active => exact hconfig
  | passive =>
    exact (Packets.fresh (FdAdapter.setConfig c.datagramAdapter c.config) c.config).2.trans hconfig

/-- Two sockets that have just been opened. -/
theorem Setup.linked (c : Setup α) (d : Setup β) :
    Linked c.thread.socket.datagramAdapter c.thread.socket.tcp d.thread.socket.tcp := by
  have hconnect : ∀ e p : Endpoint, e.LinkTo p ∧ p.LinkTo e → e.accepted = [] → p.accepted = [] →
      (e.act [] .connect).LinkTo p ∧ p.LinkTo (e.act [] .connect) := by
    intro e p h he hp
    exact Endpoint.links_act .connect h.1 h.2 (by rw [he]; decide) (by rw [hp]; decide)
  have hnew : (Endpoint.new c.tcp c.random).LinkTo (.new d.tcp d.random) ∧
      (Endpoint.new d.tcp d.random).LinkTo (.new c.tcp c.random) :=
    ⟨Sponge.new_link .., Sponge.new_link ..⟩
  have hlinks : c.thread.socket.tcp.LinkTo d.thread.socket.tcp ∧
      d.thread.socket.tcp.LinkTo c.thread.socket.tcp := by
    rcases c.tcp_eq with hc | hc <;> rcases d.tcp_eq with hd | hd <;> rw [hc, hd]
    · exact hnew
    · exact (hconnect _ _ hnew.symm rfl rfl).symm
    · exact hconnect _ _ hnew rfl rfl
    · exact (hconnect _ _ (hconnect _ _ hnew rfl rfl).symm rfl rfl).symm
  have hshaped : c.thread.socket.tcp.conn.Shaped := by
    have hfresh := TCPConnection.new_shaped c.tcp c.random
    rcases c.tcp_eq with hc | hc <;> rw [hc]
    · exact hfresh
    · exact hfresh.use .connect
  refine ⟨hlinks.1, hlinks.2, hshaped, fun str hstr => ?_⟩
  rw [c.nothing_sent] at hstr
  cases hstr

/-- A step of one thread, which leaves the other as it is. -/
theorem Thread.step_linked {t : Thread α} {t' : Thread β} {got₀ put₀ : Bytes}
    (hkept : t.Kept (fun _ _ _ => True) got₀ put₀)
    (hnear : Linked t.socket.datagramAdapter t.socket.tcp t'.socket.tcp)
    (hfar : Linked t'.socket.datagramAdapter t'.socket.tcp t.socket.tcp)
    (hshort : t'.socket.tcp.accepted.length < 2 ^ 31) {u : ThreadUse}
    (hfair : Fair (sent t'.socket.datagramAdapter) (t.step u).socket.datagramAdapter
      (t.step u).socket.tcp) :
    (t.step u).Kept (fun _ _ _ => True) got₀ put₀ ∧
      Linked (t.step u).socket.datagramAdapter (t.step u).socket.tcp t'.socket.tcp ∧
      Linked t'.socket.datagramAdapter t'.socket.tcp (t.step u).socket.tcp := by
  have hnext := (hkept.view fun _ => hnear).step (linked_drives hfar.carried hshort) u
  have hlinked := hnext.core hfair
  exact ⟨hnext.view trivial, hlinked, hlinked.back, hlinked.link, hfar.shaped, hfar.carried⟩

end Threads

end TCPSpongeSocket

open TCPSpongeSocket

/-- Two sockets with their threads, on one wire. -/
structure Sockets (α β : Type) where
  a : Thread α
  b : Thread β

namespace Sockets

variable {α β : Type} [FdAdapter α] [FdAdapter β] {decode : Format} [Packets α decode]
  [Packets β decode]

def new (a : Setup α) (b : Setup β) : Sockets α β := ⟨a.thread, b.thread⟩

def step (n : Sockets α β) : Side × ThreadUse → Sockets α β
  | (.a, u) => { n with a := n.a.step u }
  | (.b, u) => { n with b := n.b.step u }

/-- A string comes off the wire only if the other side has put it there before, but any number of
times, at any time or never; the kernel takes what is put there in one piece; and no stream is too
long. -/
def Fair (n : Sockets α β) : Prop :=
  TCPSpongeSocket.Fair (Packets.sent n.b.socket.datagramAdapter) n.a.socket.datagramAdapter
      n.a.socket.tcp ∧
    TCPSpongeSocket.Fair (Packets.sent n.a.socket.datagramAdapter) n.b.socket.datagramAdapter
      n.b.socket.tcp

instance (n : Sockets α β) : Decidable n.Fair := inferInstanceAs (Decidable (_ ∧ _))

/-- All is in order at both ends. -/
structure Sound (n : Sockets α β) : Prop where
  a : n.a.Kept (fun _ _ _ => True) [] []
  b : n.b.Kept (fun _ _ _ => True) [] []
  near : Linked n.a.socket.datagramAdapter n.a.socket.tcp n.b.socket.tcp
  far : Linked n.b.socket.datagramAdapter n.b.socket.tcp n.a.socket.tcp

/-- What an application reads is the beginning of what the other one has written. If a connection
is done without an error, the other side has all that was written to it, and knows it. -/
structure Talks (n : Sockets α β) : Prop where
  there : n.b.socket.threadData.put.flatten <+: n.a.socket.threadData.got.flatten
  back : n.a.socket.threadData.put.flatten <+: n.b.socket.threadData.got.flatten
  closed : n.a.socket.tcp.CleanClose n.b.socket.tcp ∧ n.b.socket.tcp.CleanClose n.a.socket.tcp

theorem new_sound (a : Setup α) (b : Setup β) : (new a b).Sound :=
  ⟨a.kept, b.kept, a.linked b, b.linked a⟩

theorem Sound.step {n : Sockets α β} (h : n.Sound) (hfair : n.Fair) {su : Side × ThreadUse}
    (hfair' : (n.step su).Fair) : (n.step su).Sound := by
  obtain ⟨side, u⟩ := su
  cases side with
  | a =>
    obtain ⟨hkept, hnear, hfar⟩ := Thread.step_linked h.a h.near h.far hfair.2.short hfair'.1
    exact ⟨hkept, h.b, hnear, hfar⟩
  | b =>
    obtain ⟨hkept, hfar, hnear⟩ := Thread.step_linked h.b h.far h.near hfair.1.short hfair'.2
    exact ⟨h.a, hkept, hnear, hfar⟩

theorem Sound.talks {n : Sockets α β} (h : n.Sound) : n.Talks :=
  ⟨h.b.put.trans (h.near.link.delivered.trans h.a.got),
    h.a.put.trans (h.far.link.delivered.trans h.b.got),
    h.near.link.clean_close, h.far.link.clean_close⟩

/-- Two applications talk over their sockets, whatever the kernel answers, in whatever order the
threads run, with adapters that drop what they like, and on a wire that loses, repeats and
reorders. -/
theorem sockets_talk (a : Setup α) (b : Setup β) (us : List (Side × ThreadUse))
    (hfair : Run.Always step Fair (new a b) us) : Run.Always step Talks (new a b) us := by
  refine Run.always_of_invariant (I := fun n => n.Sound ∧ n.Fair)
    (P := fun n su => (n.step su).Fair) ⟨new_sound a b, hfair.head⟩ (hfair.along fun _ _ => id) ?_
    fun n hn => hn.1.talks
  intro n su hn hnext
  exact ⟨hn.1.step hn.2 hnext, hnext⟩

section Example

/-- The device has these answers, and then no more. -/
def answers {γ : Type} (l : List γ) : Stream' (Except Errno γ) := fun n =>
  match l[n]? with
  | some x => .ok x
  | none => .error 11

def script (reads : List Bytes) (writes : List Nat) : FileDescriptor where
  readAnswers := answers (reads.filterMap fun str =>
    if h : str.length < 2 ^ 31 then some ⟨str, h⟩ else none)
  writeAnswers := answers (writes.filterMap fun n => if h : n < 2 ^ 31 then some ⟨n, h⟩ else none)
  controlAnswers := .const (.ok ())

def callerAddress : SocketAddress := ⟨⟨1⟩, 80⟩

def listenerAddress : SocketAddress := ⟨⟨2⟩, 90⟩

/-- Connects, and its application writes two bytes. -/
def caller : Setup TCPOverIPv4OverTunFdAdapter where
  opening := .active
  threadData := script [[1, 2]] []
  datagramAdapter.tun :=
    let synAck : TCPHeader :=
      { syn := true, ack := true, seqno := ⟨100⟩, ackno := ⟨8⟩, win := 64000 }
    script [packet listenerAddress callerAddress { header := synAck }] [40, 40, 42]
  random := ⟨7⟩
  config := { source := callerAddress, destination := listenerAddress }
  newPipe := ⟨rfl, rfl⟩
  newWire := rfl

def listener : Setup TCPOverIPv4OverTunFdAdapter where
  opening := .passive
  threadData := script [] [2]
  datagramAdapter.tun :=
    let ack : TCPHeader := { ack := true, seqno := ⟨8⟩, ackno := ⟨101⟩, win := 64000 }
    script [packet callerAddress listenerAddress { header := { syn := true, seqno := ⟨7⟩ } },
      packet callerAddress listenerAddress { header := ack, payload := [1, 2] }] [40, 40]
  random := ⟨100⟩
  config := { source := listenerAddress }
  newPipe := ⟨rfl, rfl⟩
  newWire := rfl

/-- The handshake, where the last ACK is lost, and the two bytes. -/
def conversation : List (Side × ThreadUse) :=
  let fromWire : List Revents := [{ pollin := true }, {}, {}, {}]
  let fromPipe : List Revents := [{}, { pollin := true }, {}, {}]
  let toPipe : List Revents := [{}, {}, { pollout := true }, {}]
  let toWire : List Revents := [{}, {}, {}, { pollout := true }]
  [(.a, .turn (round toWire 10)), (.b, .turn (round fromWire 10)), (.b, .turn (round toWire 20)),
    (.a, .turn (round fromWire 20)), (.a, .enter 20), (.a, .turn (round toWire 30)),
    (.a, .turn (round fromPipe 40)), (.a, .turn (round toWire 50)),
    (.b, .turn (round fromWire 50)), (.b, .turn (round toPipe 60))]

theorem sockets_talk_conversation :
    (Run.final step (new caller listener) conversation).b.socket.threadData.put = [[1, 2]] ∧
      Run.Always step Talks (new caller listener) conversation := by
  refine ⟨by decide +kernel, sockets_talk caller listener conversation ?_⟩
  decide +kernel

end Example

end Sockets

end Sponge
