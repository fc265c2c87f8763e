import Flotestro.Library.Runs
import Mathlib.Tactic.Ring

/-!
# Addresses and prefixes

An address of either family and a prefix as it was written.  An address of the longer family that
holds one of the shorter is that one: `IP.to4`.  A prefix of an address family covers the addresses
that begin as it does; `Cidr.contains` also reads a prefix that holds a shorter address as such.
-/

set_option autoImplicit false

namespace Flotestro.Library

/-- An address of four or sixteen bytes. -/
inductive IP where
  | v4 (address : BitVec 32)
  | v6 (address : BitVec 128)

/-- An address and the number of bits of it that count. -/
inductive Cidr where
  | v4 (base : BitVec 32) (bits : Nat)
  | v6 (base : BitVec 128) (bits : Nat)

/-- Sixteen bytes that hold four. -/
def mapped (address : Nat) : Bool := address / 2 ^ 32 = 65535

def IP.to4 : IP → IP
  | .v4 a => .v4 a
  | .v6 a => if mapped a.toNat then .v4 (BitVec.ofNat 32 a.toNat) else .v6 a

/-- The first `bits` of so many bits are the same. -/
def sameBits (width bits a b : Nat) : Bool := a / 2 ^ (width - bits) = b / 2 ^ (width - bits)

/-- The addresses of the family that begin as the prefix does. -/
def Cidr.covers : Cidr → IP → Bool
  | .v4 base bits, .v4 a => sameBits 32 bits base.toNat a.toNat
  | .v6 base bits, .v6 a => sameBits 128 bits base.toNat a.toNat
  | _, _ => false

/-- The address of the network: the bits that do not count are zero. -/
def network (width bits base : Nat) : Nat := base / 2 ^ (width - bits) * 2 ^ (width - bits)

/-- Whether a network has an address, where either may hold a shorter one. -/
def Cidr.contains : Cidr → IP → Bool
  | .v4 base bits, ip =>
    match ip.to4 with
    | .v4 a => sameBits 32 bits base.toNat a.toNat
    | .v6 _ => false
  | .v6 base bits, ip =>
    match ip.to4 with
    | .v4 a => mapped (network 128 bits base.toNat) &&
        sameBits 32 (bits - 96) (network 128 bits base.toNat % 2 ^ 32) a.toNat
    | .v6 a => !mapped (network 128 bits base.toNat) && sameBits 128 bits base.toNat a.toNat

end Flotestro.Library
