/-!
# Socket addresses and their text

The end of a TCP connection: an IP address and the number of a service on it. An address of version 4 consists of four
bytes, one of version 6 of eight words of 16 bits and, where an address alone does not name a network, the number of its
scope.

An address of version 6 is written in lower-case hexadecimal without leading zeros. Two colons stand for the longest
run of at least two zeros, the first one of several. The addresses that stand for those of version 4, five zeros and
`ffff` in front of them, end like the latter.
-/

namespace MetricGateway

/-- An IP address of version 4. -/
abbrev Ipv4Address := Vector UInt8 4

/-- An IP address of version 6. -/
abbrev Ipv6Address := Vector UInt16 8

/-- An IP address of either version. -/
inductive IpAddress
  | v4 (address : Ipv4Address)
  /-- The scope is zero unless one is given. -/
  | v6 (address : Ipv6Address) (scope : UInt32)
  deriving DecidableEq

/-- An IP address with the number of a service. -/
structure SocketAddress where
  address : IpAddress
  service : UInt16
  deriving DecidableEq

/-- A service on every network of version 4. -/
def SocketAddress.anyAddress (service : UInt16) : SocketAddress := ⟨.v4 (.replicate 4 0), service⟩

/-! ## Text -/

/-- The bytes of an address with dots between them. -/
def Ipv4Address.text (a : Ipv4Address) : String := ".".intercalate (a.toList.map fun b => toString b.toNat)

namespace Ipv6Address

/-- A word in hexadecimal. -/
def wordText (w : UInt16) : String := String.ofList (Nat.toDigits 16 w.toNat)

/-- Words with colons between them. -/
def wordsText (ws : List UInt16) : String := ":".intercalate (ws.map wordText)

/-- The number of zeros at the start of a list. -/
def zerosAhead (ws : List UInt16) : Nat := (ws.takeWhile (· == 0)).length

/-- The position and the length of the longest run of zeros, the first one of several. -/
def longestZeroRun (ws : List UInt16) : Nat × Nat :=
  (List.range ws.length).foldl
    (fun best i => if best.2 < zerosAhead (ws.drop i) then (i, zerosAhead (ws.drop i)) else best) (0, 0)

/-- The address of version 4 that an address stands for. -/
def mappedV4? (a : Ipv6Address) : Option Ipv4Address :=
  match a.toList with
  | [0, 0, 0, 0, 0, 0xffff, v, w] => some #v[(v / 256).toUInt8, v.toUInt8, (w / 256).toUInt8, w.toUInt8]
  | _ => none

/-- The text of an address. -/
def text (a : Ipv6Address) : String :=
  match a.mappedV4? with
  | some b => "::ffff:" ++ b.text
  | none =>
    let (start, length) := longestZeroRun a.toList
    if 1 < length then wordsText (a.toList.take start) ++ "::" ++ wordsText (a.toList.drop (start + length))
    else wordsText a.toList

end Ipv6Address

/-- The text of an address, as it stands in a socket address. -/
def IpAddress.text : IpAddress → String
  | v4 a => a.text
  | v6 a scope => "[" ++ a.text ++ (if scope = 0 then "" else "%" ++ toString scope.toNat) ++ "]"

/-- The text of a socket address. -/
def SocketAddress.text (a : SocketAddress) : String := a.address.text ++ ":" ++ toString a.service.toNat

end MetricGateway
