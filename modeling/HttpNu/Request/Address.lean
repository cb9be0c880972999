import HttpNu.Text

/-! `IpAddr` of the Rust standard library: its parser and its text. -/

namespace HttpNu.Request

open Text

inductive IpAddr where
  | v4 (addr : BitVec 32)
  | v6 (addr : BitVec 128)
  deriving DecidableEq, Repr

namespace IpAddr

abbrev Reader (α : Type) := Str → Option (α × Str)

def readChar (c : Char) : Reader Unit
  | d :: s => if d = c then some ((), s) else none
  | [] => none

def digit (radix : Nat) (c : Char) : Option Nat :=
  let d :=
    if '0' ≤ c ∧ c ≤ '9' then some (c.toNat - '0'.toNat)
    else if 'a' ≤ c ∧ c ≤ 'f' then some (c.toNat - 'a'.toNat + 10)
    else if 'A' ≤ c ∧ c ≤ 'F' then some (c.toNat - 'A'.toNat + 10)
    else none
  d.filter (· < radix)

def readNumber (radix maxDigits bound : Nat) (allowZeroPrefix : Bool) : Reader Nat := fun s =>
  let digits := s.takeWhile (fun c => (digit radix c).isSome)
  let value := digits.foldl (fun n c => n * radix + (digit radix c).getD 0) 0
  if digits = [] ∨ maxDigits < digits.length ∨ bound ≤ value ∨
      (allowZeroPrefix = false ∧ digits.head? = some '0' ∧ 1 < digits.length) then none
  else some (value, s.drop digits.length)

/-- The separator stands before every group but the first. -/
def readSeparator {α : Type} (sep : Char) (index : Nat) (inner : Reader α) : Reader α := fun s =>
  if index = 0 then inner s else (readChar sep s).bind (fun r => inner r.2)

def readOctets : Nat → Nat → Reader (List Nat)
  | 0, _ => fun s => some ([], s)
  | n + 1, index => fun s => do
    let (octet, s) ← readSeparator '.' index (readNumber 10 3 256 false) s
    let (octets, s) ← readOctets n (index + 1) s
    return (octet :: octets, s)

def readIpv4 : Reader (List Nat) := readOctets 4 0

/-- Up to `n` groups of an IPv6 address; the flag says that it ended with an embedded IPv4 address. -/
def readGroups (limit : Nat) : Nat → Nat → Str → List Nat × Bool × Str
  | 0, _, s => ([], false, s)
  | n + 1, index, s =>
    let embedded := if index + 1 < limit then readSeparator ':' index readIpv4 s else none
    match embedded with
    | some ([a, b, c, d], s) => ([a * 256 + b, c * 256 + d], true, s)
    | _ =>
      match readSeparator ':' index (readNumber 16 4 (2 ^ 16) true) s with
      | none => ([], false, s)
      | some (group, s) =>
        let (groups, ipv4, s) := readGroups limit n (index + 1) s
        (group :: groups, ipv4, s)

def readIpv6 : Reader (List Nat) := fun s =>
  match readGroups 8 8 0 s with
  | (front, ipv4, s) =>
    if front.length = 8 then some (front, s)
    else if ipv4 then none
    else do
      let ((), s) ← readChar ':' s
      let ((), s) ← readChar ':' s
      let limit := 8 - (front.length + 1)
      let (back, _, s) := readGroups limit limit 0 s
      return (front ++ List.replicate (8 - front.length - back.length) 0 ++ back, s)

def ofGroups (w : Nat) (groups : List Nat) : Nat := groups.foldl (fun n g => n * 2 ^ w + g) 0

/-- `IpAddr::from_str`: an IPv4 address, else an IPv6 address, with nothing after it. -/
def parse (s : Str) : Option IpAddr :=
  match readIpv4 s with
  | some (octets, rest) => if rest = [] then some (.v4 (BitVec.ofNat 32 (ofGroups 8 octets))) else none
  | none =>
    match readIpv6 s with
    | some (groups, []) => some (.v6 (BitVec.ofNat 128 (ofGroups 16 groups)))
    | _ => none

example : ["10.0.0.1", "10.0.0.01", "::1", "1.2.3", "::ffff:10.0.0.1", "1:2:3:4:5:6:7:8"].map
    (fun s => parse s.toList) =
    [some (.v4 0x0a000001), none, some (.v6 1), none, some (.v6 0xffff0a000001),
      some (.v6 0x00010002000300040005000600070008)] := by
  decide +kernel

def groups (w : Nat) : Nat → Nat → List Nat
  | 0, _ => []
  | n + 1, addr => groups w n (addr / 2 ^ w) ++ [addr % 2 ^ w]

def v4Text (addr : Nat) : Str := ['.'].intercalate ((groups 8 4 addr).map (fun octet => (toString octet).toList))

/-- Where the zeros begin that the list begins with a run of, for each place in it, and how many they are. -/
def zeroRuns : List Nat → List Nat
  | [] => []
  | g :: gs => (if g = 0 then (g :: gs).takeWhile (· = 0) else []).length :: zeroRuns gs

def groupsText (gs : List Nat) : Str := [':'].intercalate (gs.map (Nat.toDigits 16))

/-- `Ipv6Addr::fmt`: the first of the longest runs of zeros is left out, if it is longer than one. -/
def v6Text (addr : Nat) : Str :=
  if addr / 2 ^ 32 = 0xffff then "::ffff:".toList ++ v4Text (addr % 2 ^ 32)
  else
    let gs := groups 16 8 addr
    let longest := (zeroRuns gs).foldl max 0
    if longest ≤ 1 then groupsText gs
    else
      let start := (zeroRuns gs).idxOf longest
      groupsText (gs.take start) ++ "::".toList ++ groupsText (gs.drop (start + longest))

def text : IpAddr → Str
  | v4 addr => v4Text addr.toNat
  | v6 addr => v6Text addr.toNat

example : [IpAddr.v4 0x0a000001, .v6 1, .v6 0xffff0a000001, .v6 0x00010000000000040000000000000008].map text =
    ["10.0.0.1", "::1", "::ffff:10.0.0.1", "1:0:0:4::8"].map String.toList := by
  decide +kernel

end IpAddr

end HttpNu.Request
