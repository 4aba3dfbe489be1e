import Sponge.Link.Interface

namespace Sponge

/-- An interface that keeps the datagrams it receives for its owner. -/
structure AsyncNetworkInterface extends NetworkInterface where
  datagramsOut : List InternetDatagram := []

namespace AsyncNetworkInterface

def new (ethernetAddress : EthernetAddress) (ipAddress : Address) : AsyncNetworkInterface :=
  { toNetworkInterface := .new ethernetAddress ipAddress }

def recvFrame (a : AsyncNetworkInterface) (frame : EthernetFrame) :
    Outcome Fault AsyncNetworkInterface Unit :=
  let o := a.toNetworkInterface.recvFrame frame
  match o.result with
  | .error e => .fail { a with toNetworkInterface := o.state } e
  | .ok dgram =>
    .done { toNetworkInterface := o.state, datagramsOut := a.datagramsOut ++ dgram.toList } ()

end AsyncNetworkInterface

structure RoutingTableEntry where
  routePrefix : UInt32 := 0
  prefixLength : UInt8 := 0
  nextHop : Option Address := none
  interfaceNum : Nat := 0
  deriving DecidableEq, Repr

structure Router where
  interfaces : List AsyncNetworkInterface := []
  routingTable : List RoutingTableEntry := []

namespace Router

def addInterface (r : Router) (interface : AsyncNetworkInterface) : Router :=
  { r with interfaces := r.interfaces ++ [interface] }

def addRoute (r : Router) (routePrefix : UInt32) (prefixLength : UInt8) (nextHop : Option Address)
    (interfaceNum : Nat) : Router :=
  { r with
    routingTable := r.routingTable ++ [{ routePrefix, prefixLength, nextHop, interfaceNum }] }

/-- Compare bit by bit, from the one in `mask` down. After 32 bits the mask is empty. -/
def matchLoop (dst entryDst mask : UInt32) : Nat → Bool
  | 0 => true
  | n + 1 =>
    if dst &&& mask ≠ entryDst &&& mask then false else matchLoop dst entryDst (mask >>> 1) n

/-- The source calls this one `match`. -/
def isMatch (dst entryDst : UInt32) (preLen : UInt8) : Bool :=
  matchLoop dst entryDst ((1 : UInt32) <<< 31) preLen.toNat

/-- The entry found so far, and whether the next one takes its place. -/
def better (destIp : UInt32) (found : Option RoutingTableEntry) (next : RoutingTableEntry) :
    Option RoutingTableEntry :=
  if isMatch destIp next.routePrefix next.prefixLength then
    match found with
    | none => some next
    | some entry => if entry.prefixLength < next.prefixLength then some next else some entry
  else found

/-- The loop over the routing table. -/
def longestMatch (table : List RoutingTableEntry) (destIp : UInt32) : Option RoutingTableEntry :=
  table.foldl (better destIp) none

/-- `send_datagram` on one of the interfaces. -/
def sendOn (r : Router) (n : Nat) (dgram : InternetDatagram) (nextHop : Address) :
    Outcome Fault Router Unit :=
  match r.interfaces[n]? with
  | none => .fail r .outOfRange
  | some a =>
    let o := a.toNetworkInterface.sendDatagram dgram nextHop
    ⟨o.result, { r with interfaces := r.interfaces.set n { a with toNetworkInterface := o.state } }⟩

/-- The datagram is passed by reference: what becomes of it is part of the state. -/
def routeOneDatagram (r : Router) (dgram : InternetDatagram) :
    Outcome Fault (Router × InternetDatagram) Unit :=
  if dgram.header.ttl ≤ 1 then .done (r, dgram) ()
  else
    match longestMatch r.routingTable dgram.header.dst with
    | none => .done (r, dgram) ()
    | some entry =>
      let dgram := { dgram with header := { dgram.header with ttl := dgram.header.ttl - 1 } }
      let o := r.sendOn entry.interfaceNum dgram (entry.nextHop.getD ⟨dgram.header.dst⟩)
      ⟨o.result, (o.state, dgram)⟩

def setQueue (r : Router) (i : Nat) (queue : List InternetDatagram) : Router :=
  { r with interfaces := r.interfaces.modify i (fun a => { a with datagramsOut := queue }) }

/-- The queue of interface `i`, from the front: a datagram is popped after it was routed.
Routing one does not touch the queues. -/
def routeQueue (i : Nat) : List InternetDatagram → Router → Outcome Fault Router Unit
  | [], r => .done r ()
  | dgram :: queue, r =>
    let o := r.routeOneDatagram dgram
    match o.result with
    | .error e => .fail (o.state.1.setQueue i (o.state.2 :: queue)) e
    | .ok _ => routeQueue i queue (o.state.1.setQueue i queue)

/-- The queues of the interfaces in turn. -/
def routeFrom : List Nat → Router → Outcome Fault Router Unit
  | [], r => .done r ()
  | i :: is, r =>
    (routeQueue i ((r.interfaces[i]?.map (·.datagramsOut)).getD []) r).andThen
      fun _ r => routeFrom is r

def route (r : Router) : Outcome Fault Router Unit :=
  routeFrom (List.range r.interfaces.length) r

end Router

end Sponge
