import Sponge.Connection.Session

namespace Sponge

/-- A connection, the bytes its `write` has accepted, and the bytes that have been
read from its inbound stream. -/
structure Endpoint where
  conn : TCPConnection
  accepted : Bytes := []
  taken : Bytes := []

/-- What can happen at an endpoint: a call of its owner, or the delivery of the
segment that the peer put out as number `k`. -/
inductive Act where
  | connect
  | write (data : Bytes)
  | endInputStream
  | tick (ms : Nat)
  | read (len : Nat)
  | deliver (k : Nat)
  deriving DecidableEq, Repr

namespace Endpoint

def new (cfg : TCPConfig) (random : WrappingInt32) : Endpoint := { conn := .new cfg random }

/-- One action; `sent` is all that the peer has put in its `segments_out()`. A
segment may be delivered at any time after that, once, again or never. Where
`connect` is undefined, nothing happens. -/
def act (e : Endpoint) (sent : List TCPSegment) : Act → Endpoint
  | .connect => { e with conn := e.conn.connect.getD e.conn }
  | .write data =>
    { e with
      conn := e.conn.write data
      accepted := e.accepted ++ data.take (e.conn.sender.stream.accepts data) }
  | .endInputStream => { e with conn := e.conn.endInputStream }
  | .tick ms => { e with conn := e.conn.tick ms }
  | .read len =>
    { e with
      conn := e.conn.readInbound len
      taken := e.taken ++ e.conn.inboundStream.peekOutput len }
  | .deliver k =>
    match sent[k]? with
    | some seg => { e with conn := e.conn.segmentReceived seg }
    | none => e

end Endpoint

inductive Side where
  | a
  | b
  deriving DecidableEq, Repr

/-- Two endpoints and the network between them, which loses, duplicates, delays and
reorders what they send. -/
structure Network where
  a : Endpoint
  b : Endpoint

namespace Network

def new (cfgA cfgB : TCPConfig) (randomA randomB : WrappingInt32) : Network :=
  { a := .new cfgA randomA, b := .new cfgB randomB }

def step (n : Network) : Side × Act → Network
  | (.a, u) => { n with a := n.a.act n.b.conn.segmentsOut u }
  | (.b, u) => { n with b := n.b.act n.a.conn.segmentsOut u }

/-- A relation between the two endpoints, both ways. -/
def Both (R : Endpoint → Endpoint → Prop) (n : Network) : Prop := R n.a n.b ∧ R n.b n.a

instance {R : Endpoint → Endpoint → Prop} [∀ e p, Decidable (R e p)] (n : Network) :
    Decidable (n.Both R) :=
  inferInstanceAs (Decidable (_ ∧ _))

/-- A condition on an action, given the endpoint that acts and its peer. -/
def OnAct (C : Endpoint → Endpoint → Act → Prop) (n : Network) : Side × Act → Prop
  | (.a, u) => C n.a n.b u
  | (.b, u) => C n.b n.a u

instance {C : Endpoint → Endpoint → Act → Prop} [∀ e p u, Decidable (C e p u)] (n : Network) :
    (su : Side × Act) → Decidable (n.OnAct C su)
  | (.a, u) => inferInstanceAs (Decidable (C n.a n.b u))
  | (.b, u) => inferInstanceAs (Decidable (C n.b n.a u))

/-- What an endpoint's action preserves, whichever endpoint it is, a step
preserves. -/
theorem Both.step {R : Endpoint → Endpoint → Prop} {C : Endpoint → Endpoint → Act → Prop}
    {n : Network} {su : Side × Act} (h : n.Both R)
    (hact : ∀ e p u, R e p → R p e → C e p u →
      R (e.act p.conn.segmentsOut u) p ∧ R p (e.act p.conn.segmentsOut u))
    (hc : n.OnAct C su) : (n.step su).Both R := by
  obtain ⟨side, u⟩ := su
  cases side with
  | a => exact hact n.a n.b u h.1 h.2 hc
  | b => exact (hact n.b n.a u h.2 h.1 hc).symm

end Network

end Sponge
