import Sponge.Internet.Model

namespace Sponge

namespace Internet

open Endpoint

/-- All is in order: at the two ends, and with what is on its way. -/
structure Sound (n : Internet) : Prop where
  a : n.a.Sound n.b
  b : n.b.Sound n.a
  routers : ∀ r ∈ n.routers, r.Carrier (n.a.Genuine n.b)

theorem new_host_sound (c c' : HostConfig) : (Host.new c).Sound (Host.new c') where
  link := new_link ..
  shaped := TCPConnection.new_shaped ..
  apart := c.apart
  carrier := NetworkInterface.new_carrier ..

theorem new_router_carrier (c : RouterConfig) (P : InternetDatagram → Prop) :
    (Router.new c).Carrier P := by
  have hfresh : ∀ a ∈ (Router.new c).interfaces, ∃ i : EthernetAddress × Address,
      AsyncNetworkInterface.new i.1 i.2 = a := by
    intro a ha
    obtain ⟨i, -, hi⟩ := List.mem_map.mp ha
    exact ⟨i, hi⟩
  refine ⟨fun e he => ?_, fun a ha => ?_, fun a ha => ?_⟩
  · simpa [Router.new] using c.within e he
  · obtain ⟨i, rfl⟩ := hfresh a ha
    exact NetworkInterface.new_carrier ..
  · obtain ⟨i, rfl⟩ := hfresh a ha
    exact fun _ hd => nomatch hd

theorem new_sound (a b : HostConfig) (routers : List RouterConfig) :
    (new a b routers).Sound := by
  refine ⟨new_host_sound a b, new_host_sound b a, fun r hr => ?_⟩
  obtain ⟨c, -, rfl⟩ := List.mem_map.mp hr
  exact new_router_carrier c _

section Steps

variable {n : Internet} (h : n.Sound)
include h

/-- Every frame was sent by an interface that has only datagrams of the two hosts. -/
theorem Sound.frame {frame : EthernetFrame} (hframe : frame ∈ n.frames) :
    ∃ sender, NetworkInterface.Carrier (n.a.Genuine n.b) sender ∧ frame ∈ sender.framesOut := by
  rcases List.mem_append.mp hframe with hhosts | hrouters
  · rcases List.mem_append.mp hhosts with ha | hb
    · exact ⟨_, h.a.carrier, ha⟩
    · exact ⟨_, h.b.carrier.mono fun _ hd => hd.symm, hb⟩
  · obtain ⟨r, hr, hframe⟩ := List.mem_flatMap.mp hrouters
    obtain ⟨a, ha, hframe⟩ := List.mem_flatMap.mp hframe
    exact ⟨_, (h.routers r hr).interfaces a ha, hframe⟩

theorem Sound.on_host {side : Side} {f : Host → Outcome Fault Host Unit}
    (hf : ∀ x p : Host, x.Sound p → p.Sound x → (x = n.a ∧ p = n.b ∨ x = n.b ∧ p = n.a) →
      (f x).Returns fun _ x' => Host.Goes p x x') :
    (n.onHost side f).Returns fun _ n' => n'.Sound := by
  cases side with
  | a =>
    obtain ⟨u, hu, hgoes⟩ := hf n.a n.b h.a h.b (.inl ⟨rfl, rfl⟩)
    refine ⟨u, hu, hgoes.near, hgoes.far, fun r hr => ?_⟩
    exact (h.routers r hr).mono fun _ hd => hgoes.follows.genuine hd
  | b =>
    obtain ⟨u, hu, hgoes⟩ := hf n.b n.a h.b h.a (.inr ⟨rfl, rfl⟩)
    refine ⟨u, hu, hgoes.far, hgoes.near, fun r hr => ?_⟩
    exact (h.routers r hr).mono fun _ hd => (hgoes.follows.genuine hd.symm).symm

theorem Sound.on_router {k : Nat} {f : Router → Outcome Fault Router Unit}
    (hf : ∀ r, r.Carrier (n.a.Genuine n.b) →
      (f r).Returns fun _ r' => r'.Carrier (n.a.Genuine n.b)) :
    (n.onRouter k f).Returns fun _ n' => n'.Sound := by
  unfold onRouter
  cases hget : n.routers[k]? with
  | none => exact Outcome.returns_done h
  | some r =>
    obtain ⟨u, hu, hcarrier⟩ := hf r (h.routers r (List.mem_of_getElem? hget))
    refine ⟨u, hu, h.a, h.b, fun r' hr' => ?_⟩
    rcases List.mem_or_eq_of_mem_set hr' with hr' | rfl
    · exact h.routers r' hr'
    · exact hcarrier

/-- No call throws, and all is in order after it. -/
theorem Sound.call (hs : n.Both Short) (u : InternetUse) :
    (n.call u).Returns fun _ n' => n'.Sound := by
  have htransit := Host.genuine_transit n.a n.b
  cases u with
  | host side u =>
    refine h.on_host fun x p hx hp hwhich => ?_
    rcases hwhich with ⟨rfl, rfl⟩ | ⟨rfl, rfl⟩
    · exact hx.call hp hs.1 hs.2 u
    · exact hx.call hp hs.2 hs.1 u
  | deliver j port =>
    rw [Internet.call]
    cases hget : n.frames[j]? with
    | none => exact Outcome.returns_done h
    | some frame =>
      obtain ⟨sender, hsender, hframe⟩ := h.frame (List.mem_of_getElem? hget)
      cases port with
      | host side =>
        refine h.on_host fun x p hx hp hwhich => ?_
        rcases hwhich with ⟨rfl, rfl⟩ | ⟨rfl, rfl⟩
        · exact hx.receive hp hs.1 hs.2 hsender hframe
        · exact hx.receive hp hs.2 hs.1 (hsender.mono fun _ hd => hd.symm) hframe
      | router k i =>
        refine h.on_router fun r hr => ?_
        unfold onInterface
        split
        · exact hr.deliver htransit hsender hframe ‹_›
        · exact Outcome.returns_done hr
  | route k => exact h.on_router fun r hr => hr.route_from htransit _
  | tick k i ms =>
    refine h.on_router fun r hr => ?_
    unfold onInterface
    split
    · exact hr.tick ‹_› ms
    · exact Outcome.returns_done hr

end Steps

/-- Two hosts talk over any routers and links. The source of a host is not its destination, and
the two have different ports if it listens; the routes of a router are over interfaces it has.
Then no call throws, what is read at either end is the beginning of what was written at the
other, and an end that is done without an error has had its whole stream delivered. -/
theorem hosts_talk (a b : HostConfig) (routers : List RouterConfig) (us : List InternetUse)
    (h : Run.Always step (Both Short) (new a b routers) us) :
    Run.Along step (fun n u => (n.call u).result = .ok ()) (new a b routers) us ∧
      Run.Always step (fun n => n.Both Delivered ∧ n.Both CleanClose) (new a b routers) us := by
  have hstart : (new a b routers).Sound ∧ (new a b routers).Both Short :=
    ⟨new_sound a b routers, h.head⟩
  have hshort : Run.Along step (fun n u => (n.step u).Both Short) (new a b routers) us :=
    h.along fun _ _ => id
  have hstep : ∀ (n : Internet) (u : InternetUse), n.Sound ∧ n.Both Short → (n.step u).Both Short →
      (n.step u).Sound ∧ (n.step u).Both Short := by
    rintro n u ⟨hsound, hs⟩ hs'
    obtain ⟨-, -, hnext⟩ := hsound.call hs u
    exact ⟨hnext, hs'⟩
  constructor
  · refine Run.along_of_invariant hstart hshort hstep ?_
    rintro n u ⟨hsound, hs⟩ -
    obtain ⟨v, hv, -⟩ := hsound.call hs u
    exact hv
  · refine Run.always_of_invariant hstart hshort hstep ?_
    rintro n ⟨hsound, -⟩
    exact ⟨⟨hsound.a.link.delivered, hsound.b.link.delivered⟩, hsound.a.link.clean_close,
      hsound.b.link.clean_close⟩

/-- A host that connects, one that listens, and a router with a network on each side. -/
def near : HostConfig where
  random := ⟨7⟩
  adapter := { cfg := { source := ⟨⟨1⟩, 80⟩, destination := ⟨⟨2⟩, 90⟩ } }
  ethernetAddress := .replicate 6 1
  ipAddress := ⟨1⟩
  nextHop := ⟨11⟩
  apart := by decide

def far : HostConfig where
  random := ⟨100⟩
  adapter := { cfg := { source := ⟨⟨2⟩, 90⟩ }, listen := true }
  ethernetAddress := .replicate 6 2
  ipAddress := ⟨2⟩
  nextHop := ⟨12⟩
  apart := by decide

def between : RouterConfig where
  interfaces := [(.replicate 6 3, ⟨11⟩), (.replicate 6 4, ⟨12⟩)]
  routes := [{ routePrefix := 1, prefixLength := 32, interfaceNum := 0 },
    { routePrefix := 2, prefixLength := 32, interfaceNum := 1 }]
  within := by decide

/-- From the first ARP request to the first bytes that are read. -/
def firstBytes : List InternetUse :=
  [.host .a .connect, .host .a .send, .deliver 0 (.router 0 0), .deliver 1 (.host .a),
    .deliver 1 (.router 0 0), .route 0, .deliver 3 (.host .b), .deliver 2 (.router 0 1),
    .deliver 5 (.host .b), .host .b .send, .deliver 3 (.router 0 1), .route 0, .deliver 5 (.host .a),
    .host .a (.write [1, 2]), .host .a .send, .deliver 3 (.router 0 0), .route 0,
    .deliver 10 (.host .b), .host .b (.read 2)]

theorem hosts_talk_over_router :
    (Run.final step (new near far [between]) firstBytes).b.endpoint.taken = [1, 2] ∧
      Run.Along step (fun n u => (n.call u).result = .ok ()) (new near far [between]) firstBytes ∧
      Run.Always step (fun n => n.Both Delivered ∧ n.Both CleanClose) (new near far [between])
        firstBytes :=
  ⟨by decide +kernel, hosts_talk near far [between] firstBytes (by decide +kernel)⟩

end Internet

end Sponge
