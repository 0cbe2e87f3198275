/-
Synod.Link -- connections to other nodes

A client keeps one connection per address and uses it again.  A kept connection that
the other side has reset fails once; the client then dials anew, and a message is
lost only if that fails too.

What arrives on a connection is forwarded message by message, up to the first frame
that cannot be read.
-/
import Synod.Assignment
import Synod.Wire.Frame

namespace Synod

set_option autoImplicit false

/-- Who can be reached. -/
structure Network where
  /-- Addresses that somebody listens on. -/
  listeners : List String := []
  /-- Why nobody can be reached at all, if so. -/
  outage : Option String := none
deriving DecidableEq, Repr

/-- Dials an address; a failure comes with its reason. -/
def Network.dial (n : Network) (address : String) : Except String Unit :=
  match n.outage with
  | some reason => .error reason
  | none =>
    if address ∈ n.listeners then .ok () else .error "Connection refused (os error 111)"

inductive Connection
  | open
  /-- The other side has reset it, which shows when it is used. -/
  | reset
deriving DecidableEq, Repr

structure Client where
  connections : List (String × Connection) := []
deriving DecidableEq, Repr

namespace Client

def count (c : Client) : Nat := c.connections.length

/-- Forgets the connection to an address. -/
def drop (c : Client) (address : String) : Client :=
  { connections := c.connections.filter fun kept => kept.1 ≠ address }

/-- Makes sure of a connection to send on. -/
def connect (c : Client) (n : Network) (address : String) : Client × Except Error Unit :=
  match c.connections.lookup address with
  | some .open => (c, .ok ())
  | _ =>
    match n.dial address with
    | .ok () => ({ connections := assign c.connections address .open }, .ok ())
    | .error reason => (c.drop address, .error (.connectionFailed address reason))

/-- The other side resets the connection to an address. -/
def reset (c : Client) (address : String) : Client :=
  { connections := c.connections.map fun kept =>
      if kept.1 = address then (address, .reset) else kept }

def closeAll (_ : Client) : Client := {}

end Client

/-- What is forwarded of the bytes that arrive on a connection. -/
def forwarded (bytes : List UInt8) : List Message := (Wire.readFrames bytes).messages

end Synod
