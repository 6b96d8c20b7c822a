/-!
# UTF-8

`Utf8.encode` writes a text as bytes. `Utf8.decode` reads bytes back and accepts only well-formed input: the first
byte of a character fixes its length and the range of the second byte, so that no character has two encodings and no
surrogate has one, and every further byte lies in `80` to `BF`. A failure says where the faulty character starts and
how many of its bytes could have begun a character, or that the input ends inside it.
-/

namespace MetricGateway.Utf8

/-- Why bytes are not UTF-8. -/
inductive Fault
  /-- The bytes at the index begin no character, and the first `length` of them would have to be skipped. -/
  | invalid (length index : Nat)
  /-- The input ends inside the character that starts at the index. -/
  | incomplete (index : Nat)
  deriving DecidableEq

/-- The wording of a fault. -/
def Fault.message : Fault → String
  | .invalid length index => s!"invalid utf-8 sequence of {length} bytes from index {index}"
  | .incomplete index => s!"incomplete utf-8 byte sequence from index {index}"

/-- The bytes of a character. -/
def encodeChar (c : Char) : List UInt8 :=
  let n := c.toNat
  let tail (unit : Nat) : UInt8 := UInt8.ofNat (0x80 + n / unit % 0x40)
  if n < 0x80 then [UInt8.ofNat n]
  else if n < 0x800 then [UInt8.ofNat (0xc0 + n / 0x40), tail 1]
  else if n < 0x10000 then [UInt8.ofNat (0xe0 + n / 0x1000), tail 0x40, tail 1]
  else [UInt8.ofNat (0xf0 + n / 0x40000), tail 0x1000, tail 0x40, tail 1]

/-- The bytes of a text. -/
def encode (cs : List Char) : List UInt8 := cs.flatMap encodeChar

/-- The bytes of a string. -/
def bytesOf (s : String) : List UInt8 := encode s.toList

/-- Whether a byte can continue a character. -/
def isTail (b : UInt8) : Bool := 0x80 ≤ b && b < 0xc0

/-- Whether `b` can follow the first byte `a`, where bytes behind `low` start at `least` and bytes behind `high` stay
below `bound`. -/
def isSecond (low least high bound a b : UInt8) : Bool :=
  isTail b && (a != low || least ≤ b) && (a != high || b < bound)

/-- Whether `b` can follow the first byte `a` of a character of three bytes: shorter characters and surrogates are
left out. -/
def isSecondOfThree (a b : UInt8) : Bool := isSecond 0xe0 0xa0 0xed 0xa0 a b

/-- Whether `b` can follow the first byte `a` of a character of four bytes: shorter characters and code points that are
too large are left out. -/
def isSecondOfFour (a b : UInt8) : Bool := isSecond 0xf0 0x90 0xf4 0x90 a b

/-- The payload of a byte after the first. -/
def tailBits (b : UInt8) : Nat := b.toNat % 64

/-- Reads the characters from the byte at index `i` on. -/
def decodeFrom (i : Nat) : List UInt8 → Except Fault (List Char)
  | [] => .ok []
  | a :: r =>
    if a < 0x80 then (Char.ofNat a.toNat :: ·) <$> decodeFrom (i + 1) r
    else if a < 0xc2 then .error (.invalid 1 i)
    else if a < 0xe0 then
      match r with
      | [] => .error (.incomplete i)
      | b :: r =>
        if isTail b then (Char.ofNat (a.toNat % 32 * 64 + tailBits b) :: ·) <$> decodeFrom (i + 2) r
        else .error (.invalid 1 i)
    else if a < 0xf0 then
      match r with
      | [] => .error (.incomplete i)
      | b :: r =>
        if isSecondOfThree a b then
          match r with
          | [] => .error (.incomplete i)
          | c :: r =>
            if isTail c then
              (Char.ofNat ((a.toNat % 16 * 64 + tailBits b) * 64 + tailBits c) :: ·) <$> decodeFrom (i + 3) r
            else .error (.invalid 2 i)
        else .error (.invalid 1 i)
    else if a < 0xf5 then
      match r with
      | [] => .error (.incomplete i)
      | b :: r =>
        if isSecondOfFour a b then
          match r with
          | [] => .error (.incomplete i)
          | c :: r =>
            if isTail c then
              match r with
              | [] => .error (.incomplete i)
              | d :: r =>
                if isTail d then
                  (Char.ofNat (((a.toNat % 8 * 64 + tailBits b) * 64 + tailBits c) * 64 + tailBits d) :: ·) <$>
                    decodeFrom (i + 4) r
                else .error (.invalid 3 i)
            else .error (.invalid 2 i)
        else .error (.invalid 1 i)
    else .error (.invalid 1 i)

/-- Reads the text that the bytes encode. -/
def decode (bytes : List UInt8) : Except Fault (List Char) := decodeFrom 0 bytes

/-- The text that the bytes encode, if they are UTF-8. -/
def decode? (bytes : List UInt8) : Option (List Char) := (decode bytes).toOption

end MetricGateway.Utf8
