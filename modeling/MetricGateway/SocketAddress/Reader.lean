import MetricGateway.SocketAddress.Printer
import MetricGateway.Text.Numeral

/-!
# Reading socket addresses

`a.b.c.d:n` is an address of version 4: its bytes have at most three digits and no leading zero. `[…]:n` is one of
version 6: words of at most four hexadecimal digits between colons, of which one run of at least one zero may be left
out between two colons; the last two words may be written as an address of version 4; a scope may follow behind a
percent sign. The number of the service and the scope may have leading zeros. Each reader returns what follows.
-/

namespace MetricGateway

/-- Reads a run of digits as a number below a bound. -/
def readBelow? (bound : Nat) (cs : List Char) : Option (Nat × List Char) :=
  let (digits, r) := cs.span Char.isDigit
  ((Text.natural? digits).filter (· < bound)).map (·, r)

namespace Ipv4Address

/-- Reads a byte. -/
def readByte? (cs : List Char) : Option (UInt8 × List Char) :=
  let (digits, r) := cs.span Char.isDigit
  if digits.length ≤ 3 ∧ (digits.head? ≠ some '0' ∨ digits.length = 1) then
    ((Text.natural? digits).filter (· < 256)).map (UInt8.ofNat ·, r)
  else none

/-- Reads a byte behind a dot. -/
def readNextByte? (cs : List Char) : Option (UInt8 × List Char) := (['.'].isPrefixOf? cs).bind readByte?

/-- Reads an address. -/
def read? (cs : List Char) : Option (Ipv4Address × List Char) := do
  let (a, r) ← readByte? cs
  let (b, r) ← readNextByte? r
  let (c, r) ← readNextByte? r
  let (d, r) ← readNextByte? r
  return (#v[a, b, c, d], r)

/-- The word of two bytes. -/
def word (high low : UInt8) : UInt16 := 256 * high.toUInt16 + low.toUInt16

/-- The address as two words. -/
def words (a : Ipv4Address) : List UInt16 := [word a[0] a[1], word a[2] a[3]]

end Ipv4Address

namespace Ipv6Address

/-- Reads a word. -/
def readWord? (cs : List Char) : Option (UInt16 × List Char) :=
  let (digits, r) := cs.span Text.isHexDigit
  if 1 ≤ digits.length ∧ digits.length ≤ 4 then some (UInt16.ofNat (Text.hexDigitsValue digits), r) else none

/-- Words in a row. -/
structure WordRun where
  words : List UInt16
  /-- Whether the last two words are written as an address of version 4. -/
  endsInV4 : Bool := false
  /-- What follows. -/
  rest : List Char

/-- Reads words separated by colons, at most as many as given. Behind the first word, each has a colon in front. -/
def readWords (separator : List Char) : Nat → List Char → WordRun
  | 0, cs => { words := [], rest := cs }
  | more + 1, cs =>
    match separator.isPrefixOf? cs with
    | none => { words := [], rest := cs }
    | some body =>
      match if more = 0 then none else Ipv4Address.read? body with
      | some (a, rest) => { words := a.words, endsInV4 := true, rest }
      | none =>
        match readWord? body with
        | none => { words := [], rest := cs }
        | some (w, r) =>
          let run := readWords [':'] more r
          { run with words := w :: run.words }

/-- The address of eight words. -/
def ofWords (ws : List UInt16) : Ipv6Address := .ofFn fun i => ws.getD i 0

/-- Reads an address. -/
def read? (cs : List Char) : Option (Ipv6Address × List Char) :=
  let front := readWords [] 8 cs
  if front.words.length = 8 then some (ofWords front.words, front.rest)
  else if front.endsInV4 then none
  else ([':', ':'].isPrefixOf? front.rest).map fun r =>
    let back := readWords [] (7 - front.words.length) r
    (ofWords (front.words ++ List.replicate (8 - front.words.length - back.words.length) 0 ++ back.words), back.rest)

/-- Reads the scope of an address; without one it is zero. -/
def readScope (cs : List Char) : UInt32 × List Char :=
  match (['%'].isPrefixOf? cs).bind (readBelow? UInt32.size) with
  | some (n, r) => (UInt32.ofNat n, r)
  | none => (0, cs)

end Ipv6Address

namespace IpAddress

/-- Reads an address of version 6 in brackets. -/
def readBracketed? (cs : List Char) : Option (IpAddress × List Char) := do
  let (address, r) ← Ipv6Address.read? (← ['['].isPrefixOf? cs)
  let (scope, r) := Ipv6Address.readScope r
  return (v6 address scope, ← [']'].isPrefixOf? r)

/-- Reads an address. -/
def read? (cs : List Char) : Option (IpAddress × List Char) :=
  match Ipv4Address.read? cs with
  | some (address, r) => some (v4 address, r)
  | none => readBracketed? cs

end IpAddress

/-- Reads a socket address that takes up the whole text. -/
def SocketAddress.read? (cs : List Char) : Option SocketAddress := do
  let (address, r) ← IpAddress.read? cs
  let n ← (Text.natural? (← [':'].isPrefixOf? r)).filter (· < UInt16.size)
  return ⟨address, UInt16.ofNat n⟩

end MetricGateway
