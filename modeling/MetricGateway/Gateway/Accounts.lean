import MetricGateway.Table
import MetricGateway.Text.Blank
import MetricGateway.Text.Utf8

/-!
# Accounts and credentials

An account is given as `user=password`; entries that do not consist of exactly two parts are skipped, and the last
entry of a user counts. A request carries its credentials in base64, the user up to the first colon and the password
behind it. Base64 is read strictly: whole groups of four digits, the last one padded with equals signs, and no bits
left over.
-/

namespace MetricGateway

/-- Passwords by user. -/
abbrev Accounts := Table String

namespace Accounts

/-- The user and the password of an entry, if it has exactly these two parts. -/
def entry? (entry : String) : Option (String × String) :=
  match entry.toList.splitOn '=' with
  | [user, password] => some (String.ofList user, String.ofList password)
  | _ => none

/-- The accounts of a list of entries. -/
def ofEntries (entries : List String) : Accounts := Table.ofList (entries.filterMap entry?)

end Accounts

/-- A user with a password. -/
structure Credentials where
  user : String
  password : String
  deriving DecidableEq

namespace Base64

/-- The value of a base64 digit. -/
def digit? (c : Char) : Option Nat :=
  if 'A' ≤ c ∧ c ≤ 'Z' then some (c.toNat - 'A'.toNat)
  else if 'a' ≤ c ∧ c ≤ 'z' then some (c.toNat - 'a'.toNat + 26)
  else if '0' ≤ c ∧ c ≤ '9' then some (c.toNat - '0'.toNat + 52)
  else if c = '+' then some 62
  else if c = '/' then some 63
  else none

/-- The bytes of a last group, of which two or three digits are given. -/
def lastGroup? (a b : Char) (c : Option Char) : Option (List UInt8) := do
  let x ← digit? a
  let y ← digit? b
  match c with
  | none => if y % 16 = 0 then some [UInt8.ofNat (x * 4 + y / 16)] else none
  | some c =>
    let z ← digit? c
    if z % 4 = 0 then some [UInt8.ofNat (x * 4 + y / 16), UInt8.ofNat (y % 16 * 16 + z / 4)] else none

/-- Reads base64. -/
def decode? : List Char → Option (List UInt8)
  | [] => some []
  | [a, b, '=', '='] => lastGroup? a b none
  | [a, b, c, '='] => lastGroup? a b (some c)
  | a :: b :: c :: d :: r => do
    let x ← digit? a
    let y ← digit? b
    let z ← digit? c
    let w ← digit? d
    let rest ← decode? r
    return UInt8.ofNat (x * 4 + y / 16) :: UInt8.ofNat (y % 16 * 16 + z / 4) :: UInt8.ofNat (z % 4 * 64 + w) :: rest
  | _ => none

end Base64

namespace Credentials

/-- Reads credentials in base64. -/
def ofBase64? (cs : List Char) : Option Credentials := do
  let text ← Utf8.decode? (← Base64.decode? cs)
  let (user, password) ← Text.cutAt (· == ':') text
  return ⟨String.ofList user, String.ofList password⟩

/-- Reads an authorization header: the scheme `Basic`, spaces, and credentials. -/
def ofHeader? (header : String) : Option Credentials :=
  match header.toList with
  | 'B' :: 'a' :: 's' :: 'i' :: 'c' :: ' ' :: r =>
    let encoded := r.dropWhile (· == ' ')
    if encoded = [] then none else ofBase64? encoded
  | _ => none

/-- Whether the credentials are those of an account. -/
def matchAccount (c : Credentials) (accounts : Accounts) : Bool := accounts.get? c.user = some c.password

end Credentials
end MetricGateway
