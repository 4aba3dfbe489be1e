import Sponge.Socket.Serving

namespace Sponge

/-- What an owner has made of a connection that never writes after the end of its stream. -/
def TCPConnection.Driven (cfg : TCPConfig) (random : WrappingInt32) (x : TCPConnection) : Prop :=
  ∃ us, Run.Along use WriteOpen (new cfg random) us ∧ x = Run.final use (new cfg random) us

theorem TCPConnection.Driven.use {cfg : TCPConfig} {random : WrappingInt32} {x : TCPConnection}
    (h : Driven cfg random x) {u : ConnUse} (hu : x.WriteOpen u) : Driven cfg random (x.use u) := by
  obtain ⟨us, hus, rfl⟩ := h
  refine ⟨us ++ [u], Run.Along.append.mpr ⟨hus, hu, trivial⟩, ?_⟩
  rw [Run.final_append]
  rfl

namespace TCPSpongeSocket

open FileDescriptor (Throws)

variable {α : Type} [FdAdapter α] {I : α → Endpoint → Nat → Prop} {cTcp : TCPConfig}
  {random : WrappingInt32} {got₀ put₀ : Bytes}

theorem driven_drives (cfg : TCPConfig) (random : WrappingInt32) :
    Drives (fun (_ : α) e _ => e.conn.Driven cfg random) where
  read := by
    intro a e k h
    refine Outcome.leaves_of_forall (fun seg => ?_) fun _ => h
    cases seg with
    | none => exact h
    | some seg => exact h.use (u := .segmentReceived seg) trivial
  write := fun _ _ _ _ h _ => Outcome.leaves_of_forall (fun _ => h) fun _ => h
  tick := fun _ _ _ _ h => Outcome.leaves_of_forall (fun _ => h) fun _ => h
  act := by
    intro a e k u h hu
    cases u with
    | connect => exact h.use (u := .connect) trivial
    | write data => exact h.use (u := .write data) hu
    | endInputStream => exact h.use (u := .endInputStream) trivial
    | tick ms => exact h.use (u := .tick ms) trivial
    | read len => exact h.use (u := .read len) trivial
    | deliver k => exact h

theorem fresh_serving {f : FileDescriptor} {a : α} (hstart : I a (.new cTcp random) 0)
    (hgot : f.got.flatten = got₀) (hput : f.put.flatten = put₀) :
    Serving I got₀ put₀ eventloop.rules (fresh f a cTcp random) where
  left := fun _ hrule => hrule
  ordered := eventloop.ordered
  served :=
    { core := hstart
      coupled := ⟨TCPSender.new_queued _ _ _, fun _ => rfl, Nat.zero_le _⟩
      got := hgot.trans (List.append_nil _).symm
      put := hput.trans (List.append_nil _).symm }

/-- The state after `connect` is the expected one, so nothing is thrown. -/
theorem connect_eq (f : FileDescriptor) (a : α) (baseTime : UInt64) (rounds : List Round)
    (rules : List (Rule (TCPSpongeSocket α))) :
    connect baseTime rounds rules (fresh f a cTcp random) =
      tcpLoop (fun s => s.tcp.conn.state = .ofState .synSent) rounds baseTime rules
        ((fresh f a cTcp random).act .connect) := by
  have hstate : ((fresh f a cTcp random).act .connect).tcp.conn.state = .ofState .synSent := rfl
  unfold connect
  exact if_neg (not_not.mpr hstate)

section Opening

variable (hI : Drives I)

theorem start_fresh {threadData : FileDescriptor} {datagramAdapter : α} {cAd : FdAdapterConfig}
    (hactive : I (FdAdapter.setConfig datagramAdapter cAd) (.new cTcp random) 0) :
    (start threadData datagramAdapter cTcp random cAd).Leaves
      (fun _ x => x.1 = eventloop.rules ∧
        ∃ f, f.got.flatten = threadData.got.flatten ∧ f.put.flatten = threadData.put.flatten ∧
          x.2 = fresh f (FdAdapter.setConfig datagramAdapter cAd) cTcp random)
      (fun e x => Broken I threadData.got.flatten threadData.put.flatten e x.2) := by
  refine Outcome.Leaves.into (threadData.set_blocking_leaves.mono ?_ ?_)
  · intro _ f hf
    exact ⟨rfl, f, by rw [hf], by rw [hf], rfl⟩
  · rintro e f ⟨hthrows, hf⟩
    have hserving := fresh_serving (f := f) hactive (by rw [hf]) (by rw [hf])
    exact hserving.served.broken (.inl hthrows)

include hI

theorem connect_serving {f : FileDescriptor} {a : α} (hstart : I a (.new cTcp random) 0)
    (hgot : f.got.flatten = got₀) (hput : f.put.flatten = put₀) (opened : UInt64 × List Round) :
    (connect opened.1 opened.2 eventloop.rules (fresh f a cTcp random)).Leaves
      (fun _ x => Serving I got₀ put₀ x.1 x.2) (fun e x => Broken I got₀ put₀ e x.2) := by
  have hserving := fresh_serving hstart hgot hput
  have hconnect : Serving I got₀ put₀ eventloop.rules ((fresh f a cTcp random).act .connect) :=
    ⟨hserving.left, hserving.ordered,
      hserving.served.act hI (v := .connect) trivial rfl (by simp) rfl rfl⟩
  rw [connect_eq]
  exact (hconnect.tcp_loop hI _ opened.2 opened.1).mono (fun _ _ h => h.1) fun _ _ hb => hb

theorem listen_serving {f : FileDescriptor} {a : α}
    (hstart : I (FdAdapter.setListening a true) (.new cTcp random) 0)
    (hgot : f.got.flatten = got₀) (hput : f.put.flatten = put₀) (opened : UInt64 × List Round) :
    (listenAndAccept opened.1 opened.2 eventloop.rules (fresh f a cTcp random)).Leaves
      (fun _ x => Serving I got₀ put₀ x.1 x.2) (fun e x => Broken I got₀ put₀ e x.2) :=
  ((fresh_serving hstart hgot hput).tcp_loop hI _ opened.2 opened.1).mono (fun _ _ h => h.1)
    fun _ _ hb => hb

/-- Whatever holds in the beginning and is kept by adapter and connection holds for the whole life
of a socket. -/
theorem life_served (datagramAdapter : α) (cAd : FdAdapterConfig)
    (hactive : I (FdAdapter.setConfig datagramAdapter cAd) (.new cTcp random) 0)
    (hpassive : I (FdAdapter.setListening (FdAdapter.setConfig datagramAdapter cAd) true)
      (.new cTcp random) 0)
    (threadData : FileDescriptor) (opening : Opening) (opened main : UInt64 × List Round) :
    (life threadData datagramAdapter cTcp random cAd opening opened main).Leaves
      (fun ended x => Serving I threadData.got.flatten threadData.put.flatten x.1 x.2 ∧
        (ended = true → (∃ r ∈ main.2, r.Stopped) ∨ ∀ rule ∈ x.1, Quiet rule x.2))
      (fun e x => Broken I threadData.got.flatten threadData.put.flatten e x.2) := by
  refine (start_fresh hactive).and_then ?_
  rintro _ ⟨rules, s⟩ ⟨rfl, f, hgot, hput, rfl⟩
  refine Outcome.Leaves.and_then
    (Q := fun _ x => Serving I threadData.got.flatten threadData.put.flatten x.1 x.2) ?_ ?_
  · cases opening with
    | active => exact connect_serving hI hactive hgot hput opened
    | passive => exact listen_serving hI hpassive hgot hput opened
  intro ended x hx
  split
  · refine (hx.tcp_loop hI _ main.2 main.1).mono (fun ended y hy => ⟨hy.1, ?_⟩) fun _ _ hb => hb
    exact fun hend => (hy.2 hend).resolve_left (by simp)
  · exact Outcome.leaves_done ⟨hx, by simp⟩

end Opening

/-- All through the life of a socket, over any adapter and whatever the kernel answers: the bytes
that come from the application are those its connection has accepted, and the bytes that go to
the application are those taken from the connection, which is never written to after the end of its
stream. Only the kernel and the adapter make a socket fail, and no byte is out of order then. -/
theorem life_relays (threadData : FileDescriptor) (datagramAdapter : α) (cTcp : TCPConfig)
    (random : WrappingInt32) (cAd : FdAdapterConfig) (opening : Opening)
    (opened main : UInt64 × List Round) :
    (life threadData datagramAdapter cTcp random cAd opening opened main).Leaves
      (fun _ x => x.2.tcp.conn.Driven cTcp random ∧
        x.2.threadData.got.flatten = threadData.got.flatten ++ x.2.tcp.accepted ∧
        x.2.threadData.put.flatten = threadData.put.flatten ++ x.2.tcp.taken)
      (fun e x => (Throws e ∨ e = EventLoop.polledError ∨ AdapterThrows α e) ∧
        x.2.tcp.conn.Driven cTcp random ∧
        threadData.got.flatten ++ x.2.tcp.accepted <+: x.2.threadData.got.flatten ∧
        x.2.threadData.put.flatten <+: threadData.put.flatten ++
          (x.2.tcp.taken ++ x.2.tcp.conn.inboundStream.buffer)) := by
  have hnew : (Endpoint.new cTcp random).conn.Driven cTcp random := ⟨[], trivial, rfl⟩
  refine (life_served (driven_drives cTcp random) datagramAdapter cAd hnew hnew threadData opening
    opened main).mono ?_ ?_
  · rintro _ x ⟨h, -⟩
    exact ⟨h.served.core, h.served.got, h.served.put⟩
  · intro e x h
    exact ⟨h.fault, h.core, h.got, h.put⟩

/-- Nothing is left to do for the rules that are still there. -/
structure Over (rules : List (Rule (TCPSpongeSocket α))) (s : TCPSpongeSocket α) : Prop where
  sent : 3 ∈ rules.map Rule.number → s.segmentsOut = []
  done : 0 ∈ rules.map Rule.number → 3 ∈ rules.map Rule.number → s.tcp.conn.active = false
  given : 2 ∈ rules.map Rule.number → s.tcp.conn.inboundStream.buffer = [] ∧
    ((s.tcp.conn.inboundStream.eof || s.tcp.conn.inboundStream.error) = true →
      s.inboundShutdown = true)

section Quiet

variable {rules : List (Rule (TCPSpongeSocket α))} {s : TCPSpongeSocket α}

/-- The rules are known by their numbers. -/
theorem Serving.quiet_at (h : Serving I got₀ put₀ rules s) (hquiet : ∀ rule ∈ rules, Quiet rule s)
    {n : Nat} {rule : Rule (TCPSpongeSocket α)}
    (hget : (eventloop (α := α)).rules[n]? = some rule) (hthere : n ∈ rules.map Rule.number) :
    Quiet rule s := by
  obtain ⟨found, hmem, hnumber⟩ := List.mem_map.mp hthere
  have hrule := h.left found hmem
  have hq := hquiet found hmem
  rw [rules_eq] at hget
  simp only [rules_eq, List.mem_cons, List.not_mem_nil, or_false] at hrule
  rcases hrule with rfl | rfl | rfl | rfl
  all_goals
    cases hnumber
    cases hget
    exact hq

theorem Serving.over (h : Serving I got₀ put₀ rules s) (hquiet : ∀ rule ∈ rules, Quiet rule s) :
    Over rules s := by
  have hsent : 3 ∈ rules.map Rule.number → s.segmentsOut = [] := by
    intro hthere
    rcases h.quiet_at hquiet rfl hthere with hno | ⟨hzero, -⟩
    · exact List.isEmpty_iff.mp (by simpa using hno)
    · cases hzero
  refine ⟨hsent, fun hthere hsends => ?_, fun hthere => ?_⟩
  · rcases h.quiet_at hquiet rfl hthere with hno | ⟨-, hout⟩
    · exact hno
    · exact absurd (hsent hsends) hout
  · rcases h.quiet_at hquiet rfl hthere with hno | ⟨hzero, -⟩
    · simp only [inboundInterest, Bool.or_eq_false_iff, Bool.not_eq_false',
        ByteStream.bufferEmpty, decide_eq_true_eq] at hno
      refine ⟨List.length_eq_zero_iff.mp hno.1, fun hfin => ?_⟩
      simpa [hfin] using hno.2
    · cases hzero

end Quiet

/-- When the thread of a socket ends, and not because the socket was let go or a signal came, its
work is done, as far as its rules have not been cancelled: the connection is over, all its segments
have been sent, and all that was received is with the application, with the end of the
stream. -/
theorem life_ends_done (threadData : FileDescriptor) (datagramAdapter : α) (cTcp : TCPConfig)
    (random : WrappingInt32) (cAd : FdAdapterConfig) (opening : Opening)
    (opened main : UInt64 × List Round)
    (hend : (life threadData datagramAdapter cTcp random cAd opening opened main).result = .ok true)
    (hrun : ∀ r ∈ main.2, ¬ r.Stopped) :
    let x := (life threadData datagramAdapter cTcp random cAd opening opened main).state
    Over x.1 x.2 := by
  have hnew : (Endpoint.new cTcp random).conn.Driven cTcp random := ⟨[], trivial, rfl⟩
  have hlife := life_served (driven_drives cTcp random) datagramAdapter cAd hnew hnew threadData
    opening opened main
  rw [Outcome.Leaves, hend] at hlife
  obtain ⟨hserving, hquiet⟩ := hlife
  refine hserving.over ((hquiet rfl).resolve_left ?_)
  rintro ⟨r, hmem, hstop⟩
  exact hrun r hmem hstop

section Refused

/-- A segment as it is on the wire. -/
def packet (source destination : SocketAddress) (seg : TCPSegment) : Bytes :=
  let adapter : TCPOverIPv4Adapter := { cfg := { source, destination } }
  match (adapter.wrapTcpInIp seg).result.bind IPv4Datagram.serialize with
  | .ok bytes => bytes.concatenate
  | .error _ => []

/-- A datagram that refuses a connection. -/
def refusal : Bytes := packet ⟨⟨2⟩, 90⟩ ⟨⟨1⟩, 80⟩ { header := { rst := true } }

def idle : FileDescriptor where
  readAnswers := .const (.error 11)
  writeAnswers := .const (.ok 0)
  controlAnswers := .const (.ok ())

def device : FileDescriptor :=
  { idle with
    readAnswers := .const (.ok ⟨refusal, by decide +kernel⟩)
    writeAnswers := .const (.ok 40) }

/-- The kernel sets these flags at this time. -/
def round (flags : List Revents) (now : UInt64) : Round := { poll := fun _ => .ok flags, now }

theorem round_runs (flags : List Revents) (now : UInt64) : ¬ (round flags now).Stopped := by
  rintro (habort | ⟨fds, hpoll⟩)
  · cases habort
  · cases hpoll

/-- The SYN is answered by RST. The application is told, and then there is nothing left to do. -/
theorem life_ends_done_refused :
    let opened := [round [{ pollin := true }, {}, {}, { pollout := true }] 10]
    let main := [round [{}, {}, { pollout := true }, {}] 20, round [] 30]
    let o := life idle ({ tun := device } : TCPOverIPv4OverTunFdAdapter) {} ⟨7⟩
      { source := ⟨⟨1⟩, 80⟩, destination := ⟨⟨2⟩, 90⟩ } .active (0, opened) (15, main)
    o.state.2.inboundShutdown = true ∧ o.state.1.length = 4 ∧ Over o.state.1 o.state.2 := by
  refine ⟨by decide +kernel, by decide +kernel, ?_⟩
  refine life_ends_done _ _ _ _ _ _ _ _ (by decide +kernel) fun r hr => ?_
  simp only [List.mem_cons, List.not_mem_nil, or_false] at hr
  rcases hr with rfl | rfl
  · exact round_runs _ _
  · exact round_runs _ _

end Refused

end TCPSpongeSocket

end Sponge
