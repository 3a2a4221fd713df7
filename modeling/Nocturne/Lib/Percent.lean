import Nocturne.Lib.JsonString

/-!
# Percent encoding

Bytes other than letters, digits and `-._~` are written as a percent sign and two digits. A strict
reader gets back what was written, and tells when the end of it is missing.
-/

namespace Lib.Percent

open JsonString (hexValue)

/-- Letters, digits and `-._~` stand for themselves. -/
def isUnreserved (c : UInt8) : Bool :=
  (48 ≤ c && c ≤ 57) || (65 ≤ c && c ≤ 90) || (97 ≤ c && c ≤ 122) || c == 45 || c == 46 ||
    c == 95 || c == 126

/-- An upper-case hexadecimal digit. -/
def digit (n : UInt8) : UInt8 :=
  if n < 10 then JsonString.digit n else JsonString.digit n - 32

def escapeByte (c : UInt8) : List UInt8 :=
  if isUnreserved c then [c] else [37, digit (c / 16), digit (c % 16)]

def escape (s : List UInt8) : List UInt8 := s.flatMap escapeByte

/-- The bytes that are written, where each percent sign has its two digits. -/
def decode : List UInt8 → Option (List UInt8)
  | [] => some []
  | c :: rest =>
    if c = 37 then
      match rest with
      | a :: b :: rest => do
        let high ← hexValue a
        let low ← hexValue b
        let s ← decode rest
        some (UInt8.ofNat (16 * high + low) :: s)
      | _ => none
    else (decode rest).map (c :: ·)

variable {s rest : List UInt8} {c : UInt8}

end Lib.Percent
