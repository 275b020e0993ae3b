/-!
# Addresses a request may not reach

The ranges an outbound request on a tenant's behalf is refused: loopback, private, shared,
link-local and reserved ones, in every spelling of an IPv4 address as an IPv6 one.
-/

set_option autoImplicit false

namespace Agentsfleet.Core

structure Ipv4Addr where
  a : UInt8
  b : UInt8
  c : UInt8
  d : UInt8
deriving DecidableEq, Repr

structure Ipv6Addr where
  s0 : UInt16
  s1 : UInt16
  s2 : UInt16
  s3 : UInt16
  s4 : UInt16
  s5 : UInt16
  s6 : UInt16
  s7 : UInt16
deriving DecidableEq, Repr

namespace Ipv4Addr

def isLoopback (address : Ipv4Addr) : Bool := address.a == 127

def isPrivate (address : Ipv4Addr) : Bool :=
  address.a == 10 || (address.a == 172 && 16 ≤ address.b && address.b ≤ 31)
    || (address.a == 192 && address.b == 168)

def isLinkLocal (address : Ipv4Addr) : Bool := address.a == 169 && address.b == 254

/-- `is_blocked_v4`. -/
def isBlocked (address : Ipv4Addr) : Bool :=
  address.isLoopback || address.isPrivate || address.isLinkLocal
    || (address.a == 100 && address.b &&& 0xc0 == 64)
    || (address.a == 192 && address.b == 0 && address.c == 0)
    || address.a == 0
    || 224 ≤ address.a

def join (high low : UInt16) : Ipv4Addr :=
  ⟨(high >>> 8).toUInt8, high.toUInt8, (low >>> 8).toUInt8, low.toUInt8⟩

end Ipv4Addr

namespace Ipv6Addr

/-- `embedded_v4`: the IPv4 address an IPv6 spelling routes to. -/
def embeddedV4 (address : Ipv6Addr) : Option Ipv4Addr :=
  if address.s0 = 0 ∧ address.s1 = 0 ∧ address.s2 = 0 ∧ address.s3 = 0 ∧ address.s4 = 0 ∧
      (address.s5 = 0 ∨ address.s5 = 0xffff) then
    some (.join address.s6 address.s7)
  else if address.s0 = 0x0064 ∧ address.s1 = 0xff9b ∧ address.s2 = 0 ∧ address.s3 = 0 ∧
      address.s4 = 0 ∧ address.s5 = 0 then
    some (.join address.s6 address.s7)
  else if address.s0 = 0x2002 then
    some (.join address.s1 address.s2)
  else none

def isLoopback (address : Ipv6Addr) : Bool := address == ⟨0, 0, 0, 0, 0, 0, 0, 1⟩

def isUnspecified (address : Ipv6Addr) : Bool := address == ⟨0, 0, 0, 0, 0, 0, 0, 0⟩

def isMulticast (address : Ipv6Addr) : Bool := address.s0 &&& 0xff00 == 0xff00

/-- `is_blocked_v6`. -/
def isBlocked (address : Ipv6Addr) : Bool :=
  match address.embeddedV4 with
  | some embedded => embedded.isBlocked
  | none =>
      address.isLoopback || address.isUnspecified || address.isMulticast
        || address.s0 &&& 0xfe00 == 0xfc00
        || address.s0 &&& 0xffc0 == 0xfe80
        || (address.s0 == 0x0064 && address.s1 == 0xff9b && address.s2 == 0x0001)

end Ipv6Addr

end Agentsfleet.Core
