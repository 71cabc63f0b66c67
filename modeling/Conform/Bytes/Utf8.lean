import Conform.Bytes

/-! Splitting a byte string into characters. Every octet belongs to exactly one
piece: a well-formed character of one to four octets, or a stray octet that
starts no character. -/
namespace Conform.Utf8

inductive Piece where
  | char (code : Nat) (octets : Bytes)
  | stray (octet : UInt8)
  deriving DecidableEq, Repr

def Piece.octets : Piece → Bytes
  | .char _ octets => octets
  | .stray octet => [octet]

/-- The code point a reader sees; a stray octet reads as the replacement character. -/
def Piece.code : Piece → Nat
  | .char code _ => code
  | .stray _ => 0xFFFD

def Piece.isChar : Piece → Bool
  | .char .. => true
  | .stray _ => false

def continuation (b : UInt8) : Bool := 0x80 ≤ b && b ≤ 0xBF

def tailBits (b : UInt8) : Nat := b.toNat % 64

/-- The second octet of a longer character, which rules out overlong forms,
surrogates and numbers above the last code point. -/
def second (b0 b1 : UInt8) : Bool :=
  if b0 = 0xE0 then 0xA0 ≤ b1 && b1 ≤ 0xBF
  else if b0 = 0xED then 0x80 ≤ b1 && b1 ≤ 0x9F
  else if b0 = 0xF0 then 0x90 ≤ b1 && b1 ≤ 0xBF
  else if b0 = 0xF4 then 0x80 ≤ b1 && b1 ≤ 0x8F
  else continuation b1

/-- The pieces of a text, first to last. -/
def pieces : Bytes → List Piece
  | [] => []
  | b0 :: rest =>
    if b0 < 0x80 then .char b0.toNat [b0] :: pieces rest
    else if b0 < 0xC2 || 0xF4 < b0 then .stray b0 :: pieces rest
    else
      match rest with
      | [] => [.stray b0]
      | b1 :: rest1 =>
        if !second b0 b1 then .stray b0 :: pieces (b1 :: rest1)
        else if b0 < 0xE0 then
          .char ((b0.toNat - 0xC0) * 64 + tailBits b1) [b0, b1] :: pieces rest1
        else
          match rest1 with
          | [] => .stray b0 :: pieces [b1]
          | b2 :: rest2 =>
            if !continuation b2 then .stray b0 :: pieces (b1 :: b2 :: rest2)
            else if b0 < 0xF0 then
              .char ((b0.toNat - 0xE0) * 4096 + tailBits b1 * 64 + tailBits b2) [b0, b1, b2] :: pieces rest2
            else
              match rest2 with
              | [] => .stray b0 :: pieces [b1, b2]
              | b3 :: rest3 =>
                if !continuation b3 then .stray b0 :: pieces (b1 :: b2 :: b3 :: rest3)
                else
                  .char ((b0.toNat - 0xF0) * 262144 + tailBits b1 * 4096 + tailBits b2 * 64 + tailBits b3)
                    [b0, b1, b2, b3] :: pieces rest3

/-- The octets of the pieces are the text. -/
theorem pieces_octets (text : Bytes) : (pieces text).flatMap Piece.octets = text := by
  fun_induction pieces text <;> simp_all [Piece.octets]

/-- Well-formed UTF-8 has no stray octet. -/
def valid (text : Bytes) : Bool := (pieces text).all Piece.isChar

/-- The text with each stray octet replaced by the replacement character. -/
def repaired (text : Bytes) : Bytes :=
  (pieces text).flatMap fun
    | .char _ octets => octets
    | .stray _ => encodeRune 0xFFFD

/-- The number of characters, a stray octet counting as one. -/
def count (text : Bytes) : Nat := (pieces text).length

end Conform.Utf8
