import Sponge.Internet.Host

namespace Sponge

/-- What a host starts from; its adapter's source is not its destination, and the two have
different ports if it listens. -/
structure HostConfig where
  tcp : TCPConfig := {}
  random : WrappingInt32
  adapter : TCPOverIPv4Adapter
  ethernetAddress : EthernetAddress
  ipAddress : Address
  nextHop : Address
  apart : adapter.Apart

def Host.new (c : HostConfig) : Host where
  endpoint := .new c.tcp c.random
  adapter :=
    { toTCPOverIPv4Adapter := c.adapter
      interface := .new c.ethernetAddress c.ipAddress
      nextHop := c.nextHop }

/-- What a router starts from; its routes are over interfaces it has. -/
structure RouterConfig where
  interfaces : List (EthernetAddress × Address)
  routes : List RoutingTableEntry
  within : ∀ e ∈ routes, e.interfaceNum < interfaces.length

def Router.new (c : RouterConfig) : Router where
  interfaces := c.interfaces.map fun i => .new i.1 i.2
  routingTable := c.routes

/-- Two hosts and any number of routers. What lies between them is left open: a frame that was
ever sent may arrive at any interface, at any time, any number of times or never. -/
structure Internet where
  a : Host
  b : Host
  routers : List Router

/-- Where a frame arrives. -/
inductive Port where
  | host (side : Side)
  | router (k i : Nat)
  deriving DecidableEq, Repr

inductive InternetUse where
  | host (side : Side) (u : HostUse)
  | deliver (j : Nat) (port : Port)
  | route (k : Nat)
  | tick (k i : Nat) (ms : UInt64)
  deriving DecidableEq, Repr

namespace Internet

def new (a b : HostConfig) (routers : List RouterConfig) : Internet where
  a := .new a
  b := .new b
  routers := routers.map .new

/-- All frames that were ever sent. -/
def frames (n : Internet) : List EthernetFrame :=
  n.a.adapter.interface.framesOut ++ n.b.adapter.interface.framesOut ++
    n.routers.flatMap fun r => r.interfaces.flatMap fun a => a.framesOut

def onHost (n : Internet) (side : Side) (f : Host → Outcome Fault Host Unit) :
    Outcome Fault Internet Unit :=
  match side with
  | .a => (f n.a).into fun a => { n with a }
  | .b => (f n.b).into fun b => { n with b }

/-- A router that does not exist does nothing. -/
def onRouter (n : Internet) (k : Nat) (f : Router → Outcome Fault Router Unit) :
    Outcome Fault Internet Unit :=
  match n.routers[k]? with
  | none => .done n ()
  | some r => (f r).into fun r => { n with routers := n.routers.set k r }

/-- A use of an interface, if the router has it. -/
def onInterface (r : Router) (i : Nat) (u : RouterUse) : Outcome Fault Router Unit :=
  if i < r.interfaces.length then r.call u else .done r ()

def call (n : Internet) : InternetUse → Outcome Fault Internet Unit
  | .host side u => n.onHost side fun h => h.call u
  | .deliver j port =>
    match n.frames[j]? with
    | none => .done n ()
    | some frame =>
      match port with
      | .host side => n.onHost side fun h => h.receive frame.serialize.concatenate
      | .router k i =>
        n.onRouter k fun r => onInterface r i (.deliver i frame.serialize.concatenate)
  | .route k => n.onRouter k fun r => r.route
  | .tick k i ms => n.onRouter k fun r => onInterface r i (.tick i ms)

def step (n : Internet) (u : InternetUse) : Internet := (n.call u).state

/-- A relation between the two ends, both ways. -/
def Both (R : Endpoint → Endpoint → Prop) (n : Internet) : Prop :=
  R n.a.endpoint n.b.endpoint ∧ R n.b.endpoint n.a.endpoint

instance {R : Endpoint → Endpoint → Prop} [∀ e p, Decidable (R e p)] (n : Internet) :
    Decidable (n.Both R) :=
  inferInstanceAs (Decidable (_ ∧ _))

end Internet

end Sponge
