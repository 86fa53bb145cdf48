import RustDns.Text.Str

/-! Socket addresses and their text form, as the standard library reads it. -/
namespace RustDns

structure Ipv4Addr where
  octets : Vector UInt8 4
  deriving DecidableEq, Repr

structure Ipv6Addr where
  segments : Vector UInt16 8
  deriving DecidableEq, Repr

inductive SocketAddr where
  | v4 (ip : Ipv4Addr) (port : UInt16)
  | v6 (ip : Ipv6Addr) (port : UInt16) (scopeId : UInt32)
  deriving DecidableEq, Repr

def Ipv4Addr.unspecified : Ipv4Addr := ⟨#v[0, 0, 0, 0]⟩

def Ipv6Addr.unspecified : Ipv6Addr := ⟨#v[0, 0, 0, 0, 0, 0, 0, 0]⟩

/-- Readers take a value off the front of the text or fail. A reader that
fails leaves the text to the next one. -/
abbrev Reader := StateT Str Option

namespace Reader

def givenChar (c : Char) : Reader Unit
  | d :: rest => if d = c then some ((), rest) else none
  | [] => none

def toDigit (radix : Nat) (c : Char) : Option Nat :=
  let value :=
    if '0' ≤ c ∧ c ≤ '9' then some (c.toNat - 48)
    else if 'a' ≤ c ∧ c ≤ 'z' then some (c.toNat - 87)
    else if 'A' ≤ c ∧ c ≤ 'Z' then some (c.toNat - 55)
    else none
  value.filter (· < radix)

/-- The longest run of digits at the front. -/
def digits (radix : Nat) : Str → List Nat × Str
  | [] => ([], [])
  | c :: rest =>
      match toDigit radix c with
      | none => ([], c :: rest)
      | some d => let (ds, after) := digits radix rest; (d :: ds, after)

/-- `read_number`: the value is below `bound`, the digits are at most
`maxDigits`, and a leading zero stands alone unless it is allowed. -/
def number (radix bound : Nat) (maxDigits : Option Nat) (allowZeroPrefix : Bool) : Reader Nat :=
  fun s =>
    let (ds, rest) := digits radix s
    let value := ds.foldl (fun acc d => acc * radix + d) 0
    if ds = [] ∨ maxDigits.any (· < ds.length) ∨
        (!allowZeroPrefix ∧ ds.head? = some 0 ∧ 1 < ds.length) ∨ bound ≤ value then none
    else some (value, rest)

/-- A separator stands in front of every item but the first. -/
def separator {α : Type} (sep : Char) (index : Nat) (inner : Reader α) : Reader α := do
  if 0 < index then givenChar sep
  inner

def octet (index : Nat) : Reader UInt8 :=
  UInt8.ofNat <$> separator '.' index (number 10 256 (some 3) false)

def ipv4Addr : Reader Ipv4Addr := do
  let a ← octet 0
  let b ← octet 1
  let c ← octet 2
  let d ← octet 3
  pure ⟨#v[a, b, c, d]⟩

def pair (high low : UInt8) : UInt16 := UInt16.ofNat (high.toNat * 256 + low.toNat)

/-- `read_groups`: up to `limit` groups, the last two of which may be written
as an IPv4 address, in which case the flag is set. -/
def groups (limit : Nat) (index : Nat) : Nat → Str → List UInt16 × Bool × Str
  | 0, s => ([], false, s)
  | left + 1, s =>
      let embedded := if index + 1 < limit then (separator ':' index ipv4Addr).run s else none
      match embedded with
      | some (ip, rest) =>
          ([pair ip.octets[0] ip.octets[1], pair ip.octets[2] ip.octets[3]], true, rest)
      | none =>
          match (separator ':' index (number 16 65536 (some 4) true)).run s with
          | none => ([], false, s)
          | some (g, rest) =>
              let (gs, flag, after) := groups limit (index + 1) left rest
              (UInt16.ofNat g :: gs, flag, after)

/-- Eight segments: the head, zeros, the tail. -/
def segments (head tail : List UInt16) : Vector UInt16 8 :=
  let all := head ++ List.replicate (8 - head.length - tail.length) 0 ++ tail
  Vector.ofFn fun i => all.getD i 0

def ipv6Addr : Reader Ipv6Addr := fun s =>
  let (head, headIpv4, rest) := groups 8 0 8 s
  if head.length = 8 then some (⟨segments head []⟩, rest)
  else if headIpv4 then none
  else do
    let ((), rest) ← givenChar ':' rest
    let ((), rest) ← givenChar ':' rest
    let limit := 8 - (head.length + 1)
    let (tail, _, rest) := groups limit 0 limit rest
    some (⟨segments head tail⟩, rest)

def port : Reader UInt16 := do
  givenChar ':'
  UInt16.ofNat <$> number 10 65536 none true

def scopeId : Reader UInt32 := do
  givenChar '%'
  UInt32.ofNat <$> number 10 UInt32.size none true

def socketAddrV4 : Reader SocketAddr := do
  let ip ← ipv4Addr
  return .v4 ip (← port)

def socketAddrV6 : Reader SocketAddr := do
  givenChar '['
  let ip ← ipv6Addr
  let scope ← fun s => some (((scopeId s).getD (0, s)))
  givenChar ']'
  return .v6 ip (← port) scope

/-- The whole text must be read. -/
def parseWith {α : Type} (inner : Reader α) (s : Str) : Option α :=
  match inner s with
  | some (value, []) => some value
  | _ => none

end Reader

def Ipv4Addr.parse (s : Str) : Option Ipv4Addr := Reader.parseWith Reader.ipv4Addr s

def Ipv6Addr.parse (s : Str) : Option Ipv6Addr := Reader.parseWith Reader.ipv6Addr s

def SocketAddr.parse (s : Str) : Option SocketAddr :=
  Reader.parseWith (fun s => Reader.socketAddrV4 s <|> Reader.socketAddrV6 s) s

end RustDns
