import GrokBuild.Lib.Str
import Mathlib.Data.List.DropRight

/-!
# Web fetch: addresses

The address rules of `ssrf.rs`: which addresses are not public, and which hosts
may reach loopback. Addresses are the bits of an address; the text forms are
those of `std::net`.
-/

namespace GrokBuild.WebFetch

open TextLines Str

abbrev Ipv4Addr := BitVec 32

abbrev Ipv6Addr := BitVec 128

inductive IpAddr where
  | v4 (ip : Ipv4Addr)
  | v6 (ip : Ipv6Addr)
  deriving DecidableEq

/-! ## `std::net` -/

def Ipv4Addr.octet (ip : Ipv4Addr) (i : Nat) : Nat := (ip.toNat / 256 ^ (3 - i)) % 256

/-- `Ipv4Addr::new`. -/
def Ipv4Addr.new (a b c d : Nat) : Ipv4Addr := BitVec.ofNat 32 (((a * 256 + b) * 256 + c) * 256 + d)

namespace Ipv4Addr

def isUnspecified (ip : Ipv4Addr) : Bool := ip = 0

def isLoopback (ip : Ipv4Addr) : Bool := octet ip 0 = 127

def isPrivate (ip : Ipv4Addr) : Bool :=
  octet ip 0 = 10 ∨ (octet ip 0 = 172 ∧ 16 ≤ octet ip 1 ∧ octet ip 1 ≤ 31) ∨
    (octet ip 0 = 192 ∧ octet ip 1 = 168)

def isLinkLocal (ip : Ipv4Addr) : Bool := octet ip 0 = 169 ∧ octet ip 1 = 254

def isMulticast (ip : Ipv4Addr) : Bool := 224 ≤ octet ip 0 ∧ octet ip 0 ≤ 239

def isBroadcast (ip : Ipv4Addr) : Bool := ip = BitVec.allOnes 32

end Ipv4Addr

/-- The first of the eight segments. -/
def Ipv6Addr.firstSegment (ip : Ipv6Addr) : BitVec 16 := ip.extractLsb' 112 16

/-- An address of eight segments. -/
def Ipv6Addr.ofSegments (segments : List Nat) : Ipv6Addr :=
  BitVec.ofNat 128 (segments.foldl (fun n s => n * 65536 + s) 0)

namespace Ipv6Addr

def isUnspecified (ip : Ipv6Addr) : Bool := ip = 0

def isLoopback (ip : Ipv6Addr) : Bool := ip = 1

def isMulticast (ip : Ipv6Addr) : Bool := firstSegment ip &&& 0xff00 = 0xff00

def isUniqueLocal (ip : Ipv6Addr) : Bool := firstSegment ip &&& 0xfe00 = 0xfc00

def isUnicastLinkLocal (ip : Ipv6Addr) : Bool := firstSegment ip &&& 0xffc0 = 0xfe80

def toIpv4Mapped (ip : Ipv6Addr) : Option Ipv4Addr :=
  if ip.extractLsb' 32 96 = 0xffff then some (ip.extractLsb' 0 32) else none

end Ipv6Addr

def IpAddr.isLoopback : IpAddr → Bool
  | .v4 ip => ip.isLoopback
  | .v6 ip => ip.isLoopback

/-! ### The text form of an address -/

/-- `char::to_digit`, for a radix up to 16. -/
def toDigit (radix : Nat) (c : Char) : Option Nat :=
  let digit :=
    if '0' ≤ c ∧ c ≤ '9' then c.toNat - '0'.toNat
    else if 'a' ≤ c ∧ c ≤ 'f' then c.toNat - 'a'.toNat + 10
    else if 'A' ≤ c ∧ c ≤ 'F' then c.toNat - 'A'.toNat + 10
    else radix
  if digit < radix then some digit else none

def readNumber (radix maxDigits : Nat) (allowZeroPrefix : Bool) (s : Text) : Option (Nat × Text) :=
  let digits := s.takeWhile fun c => (toDigit radix c).isSome
  if digits = [] ∨ digits.length > maxDigits then none
  else if !allowZeroPrefix ∧ digits.head? = some '0' ∧ digits.length > 1 then none
  else some (digits.foldl (fun n c => n * radix + (toDigit radix c).getD 0) 0, s.drop digits.length)

def readSeparator {α : Type} (sep : Char) (index : Nat) (inner : Text → Option (α × Text))
    (s : Text) : Option (α × Text) :=
  if index = 0 then inner s
  else match s with
    | [] => none
    | c :: s => if c = sep then inner s else none

def readOctet (s : Text) : Option (Nat × Text) := (readNumber 10 3 false s).filter (·.1 ≤ 255)

/-- `Parser::read_ipv4_addr`. -/
def readIpv4Addr (s : Text) : Option (Ipv4Addr × Text) := do
  let (a, s) ← readSeparator '.' 0 readOctet s
  let (b, s) ← readSeparator '.' 1 readOctet s
  let (c, s) ← readSeparator '.' 2 readOctet s
  let (d, s) ← readSeparator '.' 3 readOctet s
  return (.new a b c d, s)

/-- `read_groups`: the groups from the slot `i` on, whether the last of them are
an address of the fourth version, and the rest. -/
def readGroups (limit : Nat) : (left i : Nat) → Text → List Nat × Bool × Text
  | 0, _, s => ([], false, s)
  | left + 1, i, s =>
    match if i + 1 < limit then readSeparator ':' i readIpv4Addr s else none with
    | some (ip, s) => ([ip.toNat / 65536, ip.toNat % 65536], true, s)
    | none =>
      match readSeparator ':' i (readNumber 16 4 true) s with
      | some (group, s) =>
        let (groups, ipv4, s) := readGroups limit left (i + 1) s
        (group :: groups, ipv4, s)
      | none => ([], false, s)

/-- `Parser::read_ipv6_addr`. -/
def readIpv6Addr (s : Text) : Option (Ipv6Addr × Text) :=
  let (head, headIpv4, s) := readGroups 8 8 0 s
  if head.length = 8 then some (.ofSegments head, s)
  else if headIpv4 then none
  else match s with
    | ':' :: ':' :: s =>
      let limit := 8 - (head.length + 1)
      let (tail, _, s) := readGroups limit limit 0 s
      some (.ofSegments (head ++ List.replicate (8 - head.length - tail.length) 0 ++ tail), s)
    | _ => none

/-- `str::parse::<IpAddr>`. -/
def parseIpAddr (s : Text) : Option IpAddr :=
  match (readIpv4Addr s).map (fun r => (IpAddr.v4 r.1, r.2)) |>.or
      ((readIpv6Addr s).map fun r => (IpAddr.v6 r.1, r.2)) with
  | some (ip, []) => some ip
  | _ => none

example : parseIpAddr "::ffff:127.0.0.1".toList = some (.v6 0xffff7f000001) := by decide

/-! ## `ssrf.rs` -/

def isExplicitLocalHost (host : Text) : Bool :=
  let host := ((trim host).rdropWhile (· = '.')).map Char.toLower
  let host :=
    if host.head? = some '[' ∧ host.getLast? = some ']' ∧ host.length ≥ 2 then host.tail.dropLast
    else host
  let host := host.takeWhile (· ≠ '%')
  if host = "localhost".toList then true
  else match parseIpAddr host with
    | some ip => ip.isLoopback
    | none => false

/-- `ipv4_in_cidr`. -/
def ipv4InCidr (ip base : Ipv4Addr) (len : Nat) : Bool :=
  let mask : BitVec 32 := if len = 0 then 0 else BitVec.allOnes 32 <<< (32 - len)
  ip &&& mask = base &&& mask

/-- `is_non_public_ipv4`. -/
def isNonPublicIpv4 (ip : Ipv4Addr) : Bool :=
  ip.isLoopback || ip.isPrivate || ip.isLinkLocal || ip.isUnspecified || ip.isMulticast ||
    ip.isBroadcast || ipv4InCidr ip (.new 0 0 0 0) 8 || ipv4InCidr ip (.new 100 64 0 0) 10 ||
    ipv4InCidr ip (.new 192 0 0 0) 24 || ipv4InCidr ip (.new 192 0 2 0) 24 ||
    ipv4InCidr ip (.new 198 18 0 0) 15 || ipv4InCidr ip (.new 198 51 100 0) 24 ||
    ipv4InCidr ip (.new 203 0 113 0) 24 || ipv4InCidr ip (.new 240 0 0 0) 4

/-- `is_non_public_ipv6`. -/
def isNonPublicIpv6 (ip : Ipv6Addr) : Bool :=
  match ip.toIpv4Mapped with
  | some v4 => isNonPublicIpv4 v4
  | none =>
    ip.isLoopback || ip.isUnspecified || ip.isMulticast || ip.isUniqueLocal ||
      ip.isUnicastLinkLocal

def isNonPublicIp : IpAddr → Bool
  | .v4 ip => isNonPublicIpv4 ip
  | .v6 ip => isNonPublicIpv6 ip

def isLoopbackAddr (ip : IpAddr) : Bool :=
  ip.isLoopback || match ip with
    | .v6 v6 => v6.toIpv4Mapped.any (·.isLoopback)
    | .v4 _ => false

def isBlockedForHost (ip : IpAddr) (host : Text) (allowLocal : Bool) : Bool :=
  if !isNonPublicIp ip then false
  else if allowLocal && isLoopbackAddr ip && isExplicitLocalHost host then false
  else true

theorem isBlockedForHost_off (ip : IpAddr) (host : Text) :
    isBlockedForHost ip host false = isNonPublicIp ip := by
  unfold isBlockedForHost
  cases isNonPublicIp ip <;> rfl

end GrokBuild.WebFetch
