import Conform.Bytes

/-! Octets as text of 64 letters: three octets make four letters, and the last
group is filled up with equals signs. Reading skips line ends. -/
namespace Conform.Base64

/-- The letter of a number below 64. -/
def letter (n : Nat) : UInt8 :=
  if n < 26 then (65 + n).toUInt8
  else if n < 52 then (71 + n).toUInt8
  else if n < 62 then (n - 4).toUInt8
  else if n = 62 then octet '+'
  else octet '/'

def letterValue? (b : UInt8) : Option Nat :=
  if isUpper b then some (b.toNat - 65)
  else if isLower b then some (b.toNat - 71)
  else if isDigit b then some (b.toNat + 4)
  else if b = octet '+' then some 62
  else if b = octet '/' then some 63
  else none

def encode : Bytes → Bytes
  | [] => []
  | [a] =>
    let n := a.toNat * 16
    [letter (n / 64), letter (n % 64), octet '=', octet '=']
  | [a, b] =>
    let n := (a.toNat * 256 + b.toNat) * 4
    [letter (n / 4096), letter (n / 64 % 64), letter (n % 64), octet '=']
  | a :: b :: c :: rest =>
    let n := (a.toNat * 256 + b.toNat) * 256 + c.toNat
    letter (n / 262144) :: letter (n / 4096 % 64) :: letter (n / 64 % 64) :: letter (n % 64) ::
      encode rest

/-- Reads groups of four letters, of which only the last may be filled up. -/
def decodeGroups : Bytes → Option Bytes
  | [] => some []
  | [a, b, c, d] =>
    match letterValue? a, letterValue? b with
    | some p, some q =>
      if c = octet '=' then
        if d = octet '=' then some [(p * 4 + q / 16).toUInt8] else none
      else
        match letterValue? c with
        | none => none
        | some r =>
          if d = octet '=' then some [(p * 4 + q / 16).toUInt8, (q % 16 * 16 + r / 4).toUInt8]
          else
            match letterValue? d with
            | none => none
            | some s =>
              some [(p * 4 + q / 16).toUInt8, (q % 16 * 16 + r / 4).toUInt8, (r % 4 * 64 + s).toUInt8]
    | _, _ => none
  | a :: b :: c :: d :: rest =>
    match letterValue? a, letterValue? b, letterValue? c, letterValue? d, decodeGroups rest with
    | some p, some q, some r, some s, some tail =>
      some ((p * 4 + q / 16).toUInt8 :: (q % 16 * 16 + r / 4).toUInt8 :: (r % 4 * 64 + s).toUInt8 :: tail)
    | _, _, _, _, _ => none
  | _ => none

def decode? (text : Bytes) : Option Bytes :=
  decodeGroups (text.filter fun b => b != 0x0A && b != 0x0D)

end Conform.Base64
