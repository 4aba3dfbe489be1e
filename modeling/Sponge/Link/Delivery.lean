import Sponge.Link.Custody
import Sponge.Wire.RoundTrip

namespace Sponge

/-- A datagram as it is parsed from what was written: all but the checksum and the pieces of
the payload are as they were. -/
def IPv4Datagram.CopyOf (d g : IPv4Datagram) : Prop :=
  { d.header with cksum := g.header.cksum } = g.header ∧
    d.payload.concatenate = g.payload.concatenate

theorem IPv4Datagram.Regular.parse_copy {g : IPv4Datagram} (h : g.Regular) {out : BufferList}
    (hout : g.serialize = .ok out) (t : IPv4Datagram) :
    (t.parse out.concatenate).2.CopyOf g := by
  obtain ⟨k, hwritten, hformed, -⟩ := h.written
  rw [hwritten] at hout
  cases hout
  have hcat : (⟨{ g.header with cksum := k }.padded :: g.payload.buffers⟩ : BufferList).concatenate =
      { g.header with cksum := k }.padded ++ g.payload.concatenate := rfl
  rw [hcat, parse_padded (h := { g.header with cksum := k }) h.ver h.hlen_ge h.hlen_le h.offset
    hformed]
  exact ⟨rfl, List.append_nil _⟩

/-- A frame on a link is a string of bytes, and what comes out is parsed from it. -/
def EthernetFrame.relayed (frame : EthernetFrame) : Option EthernetFrame :=
  let parsed := ({} : EthernetFrame).parse frame.serialize.concatenate
  if parsed.1 = .noError then some parsed.2 else none

theorem EthernetFrame.relayed_eq (frame : EthernetFrame) : frame.relayed =
    some { header := frame.header, payload := ⟨[frame.payload.concatenate]⟩ } := by
  rw [relayed, parse_serialize]
  rfl

namespace NetworkInterface

section Held

/-- All that the interface has sent or still keeps is of a kind. -/
structure Held (P : InternetDatagram → Prop) (x : NetworkInterface) : Prop where
  waiting : ∀ e ∈ x.waitingList.entries, P e.2
  emitted : ∀ e ∈ x.emitted, P e.2

variable {P : InternetDatagram → Prop} {x : NetworkInterface}

theorem Held.mono {P' : InternetDatagram → Prop} (h : Held P x) (hp : ∀ d, P d → P' d) :
    Held P' x :=
  ⟨fun e he => hp _ (h.waiting e he), fun e he => hp _ (h.emitted e he)⟩

theorem Held.send_ip (h : Held P x) {dgram : InternetDatagram} (hd : P dgram) (hop : UInt32)
    (dst : EthernetAddress) : Held P (x.sendIp dgram hop dst).state := by
  unfold sendIp
  split
  · exact h
  · refine ⟨h.waiting, ?_⟩
    intro e he
    rcases List.mem_append.mp he with he | he
    · exact h.emitted e he
    · cases List.mem_singleton.mp he
      exact hd

theorem Held.send_datagram (h : Held P x) {dgram : InternetDatagram} (hd : P dgram)
    (nextHop : Address) : Held P (x.sendDatagram dgram nextHop).state := by
  rcases x.send_datagram_cases dgram nextHop with ⟨w, -, -, heq⟩ | ⟨frame, -, -, -, -, heq⟩ |
      ⟨mac, -, heq⟩
  · rw [heq, Outcome.state_done, sendAgain]
    split
    · exact ⟨h.waiting, h.emitted⟩
    · exact h
  · rw [heq]
    refine ⟨?_, h.emitted⟩
    intro e he
    rcases OrdMap.mem_insert.mp he with rfl | ⟨he, -⟩
    · exact hd
    · exact h.waiting e he
  · rw [heq]
    exact h.send_ip hd _ _

theorem Held.recv_arp (h : Held P x) (arp : ARPMessage) (src : EthernetAddress) :
    Held P (x.recvArp arp src).state := by
  rcases x.recv_arp_cases arp src with ⟨frames, -, -, heq⟩ | ⟨w, -, hw, heq⟩
  · rw [heq]
    exact ⟨h.waiting, h.emitted⟩
  · rw [heq]
    have hfree : Held P (x.release arp.senderIpAddress) :=
      ⟨fun e he => h.waiting e (OrdMap.mem_erase.mp he).1, h.emitted⟩
    exact Outcome.state_and_then (hfree.send_ip (h.waiting _ (OrdMap.mem_of_find? hw)) _ _)
      (fun _ _ hs => ⟨hs.waiting, hs.emitted⟩)

theorem Held.recv_frame (h : Held P x) (frame : EthernetFrame) :
    Held P (x.recvFrame frame).state :=
  recv_frame_state h frame h.recv_arp

end Held

/-- A frame with a datagram in it carries one that was emitted. -/
theorem Framed.carries {x : NetworkInterface} (h : x.Framed) {frame : EthernetFrame}
    (hmem : frame ∈ x.framesOut) (htype : frame.header.type = EthernetHeader.TYPE_IPv4) :
    ∃ e ∈ x.emitted, e.2.serialize = .ok frame.payload := by
  have hsent : frame ∈ x.framesOut.filter (·.header.type = EthernetHeader.TYPE_IPv4) :=
    List.mem_filter.mpr ⟨hmem, decide_eq_true htype⟩
  obtain ⟨i, hi, hget⟩ := List.getElem_of_mem hsent
  have hi' : i < x.emitted.length := h.carried.length_eq.symm ▸ hi
  have hser := h.carried.get hi' hi
  exact ⟨x.emitted[i], List.getElem_mem hi', by rw [← hget]; exact hser⟩

/-- What `recv_frame` returns is parsed from the frame. -/
theorem brought_of_returned {x : NetworkInterface} {frame : EthernetFrame} {d : InternetDatagram}
    (h : (x.recvFrame frame).result = .ok (some d)) : x.brought frame = some d := by
  rcases x.recv_frame_cases frame with ⟨-, -, heq⟩ | ⟨-, -, heq⟩ | ⟨arp, -, -, -, heq⟩
  · rw [heq] at h
    cases h
  · rw [heq] at h
    exact Except.ok.inj h
  · rw [heq] at h
    cases hr : (x.recvArp arp frame.header.src).result with
    | ok a =>
      rw [Outcome.and_then_ok hr] at h
      cases h
    | error e =>
      rw [Outcome.and_then_error hr] at h
      cases h

/-- The datagram in a frame that comes over a link is parsed from the bytes of the payload. -/
theorem brought_relayed {x : NetworkInterface} {frame : EthernetFrame} {d : InternetDatagram}
    (h : x.brought { header := frame.header, payload := ⟨[frame.payload.concatenate]⟩ } = some d) :
    frame.header.type = EthernetHeader.TYPE_IPv4 ∧
      d = (({} : IPv4Datagram).parse frame.payload.concatenate).2 := by
  unfold brought at h
  split at h
  · rename_i hto
    simp only [List.head?_cons, Option.bind_some] at h
    split at h
    · exact ⟨hto.2, (Option.some.inj h).symm⟩
    · cases h
  · cases h

/-- The link brings one of the frames that `sender` has ever sent to `receiver`. -/
def deliver (sender receiver : NetworkInterface) (i : Nat) :
    Outcome Fault NetworkInterface (Option InternetDatagram) :=
  match sender.framesOut[i]?.bind EthernetFrame.relayed with
  | none => .done receiver none
  | some frame => receiver.recvFrame frame

/-- A delivery is that of no frame, or `recv_frame` with a frame as it was sent. -/
theorem deliver_cases (sender receiver : NetworkInterface) (i : Nat) :
    sender.deliver receiver i = .done receiver none ∨
      ∃ frame ∈ sender.framesOut, sender.deliver receiver i = receiver.recvFrame
        { header := frame.header, payload := ⟨[frame.payload.concatenate]⟩ } := by
  unfold deliver
  cases hf : sender.framesOut[i]? with
  | none => exact .inl rfl
  | some frame =>
    refine .inr ⟨frame, List.mem_of_getElem? hf, ?_⟩
    rw [Option.bind_some, frame.relayed_eq]

/-- What a delivery returns is a copy of a datagram that was emitted. -/
theorem Framed.deliver_copy {sender receiver : NetworkInterface} (h : sender.Framed)
    (hregular : Held IPv4Datagram.Regular sender) {i : Nat} {d : InternetDatagram}
    (hd : (sender.deliver receiver i).result = .ok (some d)) :
    ∃ e ∈ sender.emitted, d.CopyOf e.2 := by
  rcases sender.deliver_cases receiver i with heq | ⟨frame, hmem, heq⟩
  · rw [heq] at hd
    cases hd
  · rw [heq] at hd
    obtain ⟨htype, rfl⟩ := brought_relayed (brought_of_returned hd)
    obtain ⟨e, he, hser⟩ := h.carries hmem htype
    exact ⟨e, he, (hregular.emitted e he).parse_copy hser {}⟩

end NetworkInterface

/-- What is done on a link between two interfaces. A delivery names a frame by its place
among all that were sent: one that is never named is lost, and one may be named again
and in any order. -/
inductive LinkUse where
  | sendDatagram (dgram : InternetDatagram)
  | deliverToB (i : Nat)
  | deliverToA (i : Nat)
  | tickA (ms : UInt64)
  | tickB (ms : UInt64)

/-- Two interfaces on a link, and the datagrams that the first was given for the second. -/
structure LinkSession where
  a : NetworkInterface
  b : NetworkInterface
  given : List InternetDatagram := []

namespace LinkSession

open NetworkInterface

def new (macA : EthernetAddress) (ipA : Address) (macB : EthernetAddress) (ipB : Address) :
    LinkSession :=
  { a := .new macA ipA, b := .new macB ipB }

def step (x : LinkSession) : LinkUse → LinkSession
  | .sendDatagram dgram =>
    { x with a := (x.a.sendDatagram dgram x.b.ipAddress).state, given := x.given ++ [dgram] }
  | .deliverToB i => { x with b := (x.a.deliver x.b i).state }
  | .deliverToA i => { x with a := (x.b.deliver x.a i).state }
  | .tickA ms => { x with a := x.a.tick ms }
  | .tickB ms => { x with b := x.b.tick ms }

/-- The datagram that the second interface returns in a call. -/
def returned (x : LinkSession) : LinkUse → Option InternetDatagram
  | .deliverToB i => (x.a.deliver x.b i).result.toOption.join
  | .sendDatagram _ | .deliverToA _ | .tickA _ | .tickB _ => none

/-- What is returned was given before. -/
def Faithful (x : LinkSession) (u : LinkUse) : Prop :=
  ∀ d ∈ x.returned u, ∃ g ∈ x.given, d.CopyOf g

/-- The first interface has nothing but what it was given. -/
structure Kept (x : LinkSession) : Prop where
  framed : x.a.Framed
  held : Held (· ∈ x.given) x.a
  regular : ∀ g ∈ x.given, g.Regular

section Steps

variable {x : LinkSession}

theorem Kept.send_datagram (h : x.Kept) {dgram : InternetDatagram} (hd : dgram.Regular) :
    (x.step (.sendDatagram dgram)).Kept := by
  refine ⟨h.framed.send_datagram dgram x.b.ipAddress, ?_, ?_⟩
  · have hheld : Held (· ∈ x.given ++ [dgram]) x.a :=
      h.held.mono (fun _ hg => List.mem_append_left _ hg)
    exact hheld.send_datagram (List.mem_append_right _ (List.mem_singleton_self dgram)) _
  · intro g hg
    rcases List.mem_append.mp hg with hg | hg
    · exact h.regular g hg
    · cases List.mem_singleton.mp hg
      exact hd

theorem Kept.deliver_to_a (h : x.Kept) (i : Nat) : (x.step (.deliverToA i)).Kept := by
  simp only [step]
  rcases x.b.deliver_cases x.a i with heq | ⟨frame, -, heq⟩
  · rw [heq]
    exact h
  · rw [heq]
    exact ⟨h.framed.recv_frame _, h.held.recv_frame _, h.regular⟩

theorem Kept.step (h : x.Kept) {u : LinkUse} (hu : ∀ d, u = .sendDatagram d → d.Regular) :
    (x.step u).Kept := by
  cases u with
  | sendDatagram dgram => exact h.send_datagram (hu dgram rfl)
  | deliverToB i => exact ⟨h.framed, h.held, h.regular⟩
  | deliverToA i => exact h.deliver_to_a i
  | tickA ms =>
    exact ⟨h.framed.keep rfl rfl (fun _ he => he), ⟨h.held.waiting, h.held.emitted⟩, h.regular⟩
  | tickB ms => exact ⟨h.framed, h.held, h.regular⟩

theorem Kept.faithful (h : x.Kept) (u : LinkUse) : x.Faithful u := by
  intro d hd
  cases u with
  | deliverToB i =>
    have hres : (x.a.deliver x.b i).result = .ok (some d) := by
      simp only [returned] at hd
      cases hr : (x.a.deliver x.b i).result with
      | ok r =>
        rw [hr] at hd
        exact congrArg Except.ok (Option.mem_def.mp hd)
      | error e =>
        rw [hr] at hd
        cases hd
    obtain ⟨e, he, hcopy⟩ := h.framed.deliver_copy (h.held.mono h.regular) hres
    exact ⟨e.2, h.held.emitted e he, hcopy⟩
  | sendDatagram dgram => cases hd
  | deliverToA i => cases hd
  | tickA ms => cases hd
  | tickB ms => cases hd

end Steps

/-- Every datagram that comes out of the link was given before, whatever the link loses,
repeats or reorders, whatever answers pass and whenever addresses expire. -/
theorem link_faithful (macA : EthernetAddress) (ipA : Address) (macB : EthernetAddress)
    (ipB : Address) {us : List LinkUse} (h : ∀ d, .sendDatagram d ∈ us → d.Regular) :
    Run.Along step Faithful (new macA ipA macB ipB) us := by
  have hnew : (new macA ipA macB ipB).Kept :=
    ⟨(InterfaceSession.new_accounted macA ipA).framed, ⟨nofun, nofun⟩, nofun⟩
  have hus : Run.Along step (fun _ u => ∀ d, u = .sendDatagram d → d.Regular)
      (new macA ipA macB ipB) us :=
    Run.along_of_mem (fun u hu d heq => h d (heq ▸ hu))
  exact Run.along_of_invariant hnew hus (fun _ _ hx hu => hx.step hu) (fun _ u hx _ => hx.faithful u)

/-- The second interface is asked for its address and answers, and the datagram that waited
comes out, in one piece, and once more when its frame is repeated. -/
theorem link_faithful_repeated :
    let dgram : InternetDatagram := { header := { len := 23, id := 7 }, payload := ⟨[[1, 2], [3]]⟩ }
    let us := [.sendDatagram dgram, .deliverToB 0, .deliverToA 0, .deliverToB 1, .tickB 30000]
    let x := Run.final step (new (.replicate 6 1) ⟨1⟩ (.replicate 6 2) ⟨2⟩) us
    (x.returned (.deliverToB 1)).map (fun d => (d.header.id, d.payload)) =
        some (7, ⟨[[1, 2, 3]]⟩) ∧
      Run.Along step Faithful (new (.replicate 6 1) ⟨1⟩ (.replicate 6 2) ⟨2⟩)
        (us ++ [.deliverToB 1]) := by
  intro dgram us x
  have hregular : dgram.Regular := ⟨rfl, by decide, by decide, by decide, by decide⟩
  refine ⟨by decide +kernel, link_faithful _ _ _ _ (fun d hd => ?_)⟩
  have heq : d = dgram := by simpa [us] using hd
  exact heq ▸ hregular

end LinkSession

end Sponge
