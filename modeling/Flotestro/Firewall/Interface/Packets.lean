import Flotestro.Firewall.Model.Rule

/-!
# Packets and what an expression matches

A packet as the hooks of the host see it, and the meaning of an expression for it: every piece of the
expression has to hold.  How `nft` reads the text of a prefix and of a port is a parameter; it reads a
prefix and a port as the source does where their numbers have no leading zero, which makes them octal.
-/

set_option autoImplicit false

namespace Flotestro.Firewall

open Library

/-- The numbers of a port are written without a leading zero. -/
def plainPort (port : Str) : Bool :=
  port.head? ≠ some 48 && ((port.dropWhile isDigit).drop 1).head? ≠ some 48

/-- The length of a prefix is written without a leading zero. -/
def plainPrefix (source : Str) : Bool :=
  match (source.dropWhile (· ≠ 47)).drop 1 with
  | 48 :: _ :: _ => false
  | _ => true

/-- `nft` as the reader of an expression. -/
structure Nft (net : Net) where
  readPrefix : Str → Option Cidr
  readPorts : Str → Option (Nat × Nat)
  readPrefix_eq : ∀ text cidr, plainPrefix text = true → net.parseCIDR text = some cidr →
    readPrefix text = some cidr
  readPorts_eq : ∀ text start stop, plainPort text = true → portRange text = some (start, stop) →
    readPorts text = some (start, stop.getD start)

/-- A packet at a hook of the host. -/
structure Packet where
  iifname : Str
  oifname : Str
  source : IP
  destination : IP
  protocol : Str
  sourcePort : Nat
  destinationPort : Nat

section

variable {net : Net} (nft : Nft net)

/-- The address is in a prefix of the family; an element of the other one matches nothing. -/
def Nft.covers (keyword source : Str) (address : IP) : Bool :=
  match nft.readPrefix source, address with
  | some (.v4 base bits), .v4 a => keyword = ip && (Cidr.v4 base bits).covers (.v4 a)
  | some (.v6 base bits), .v6 a => keyword = ip6 && (Cidr.v6 base bits).covers (.v6 a)
  | _, _ => false

/-- The port is in a range of ports. -/
def Nft.opens (ports : Str) (port : Nat) : Bool :=
  match nft.readPorts ports with
  | none => false
  | some (start, stop) => start ≤ port && port ≤ stop

def Nft.holds (p : Packet) : Statement → Bool
  | .interface key name => (if key = oifname then p.oifname else p.iifname) = name
  | .saddr keyword sources => sources.any fun source => nft.covers keyword source p.source
  | .l4proto protocol => p.protocol = protocol
  | .dport protocol ports =>
    p.protocol = protocol && ports.any fun port => nft.opens port p.destinationPort
  | .verdict _ _ => true

def Nft.matched (r : RuleSpec) (p : Packet) : Bool := r.expression.all (nft.holds p)

end

/-- The ports the host takes for its connections. -/
structure Ephemeral where
  low : Nat
  high : Nat
  ordered : low ≤ high

def Ephemeral.has (e : Ephemeral) (port : Nat) : Prop := e.low ≤ port ∧ port ≤ e.high

end Flotestro.Firewall
