import Conform.Bytes

/-! A 64-bit fingerprint of a text: four lanes take in stripes of 32 octets, the
lanes are merged, the octets that are left are mixed in by eight, four and one,
and a last mixing spreads every bit. -/
namespace Conform.Fingerprint

def prime1 : UInt64 := 0x9E3779B185EBCA87
def prime2 : UInt64 := 0xC2B2AE3D27D4EB4F
def prime3 : UInt64 := 0x165667B19E3779F9
def prime4 : UInt64 := 0x85EBCA77C2B2AE63
def prime5 : UInt64 := 0x27D4EB2F165667C5

def rotateLeft (x : UInt64) (n : UInt64) : UInt64 := (x <<< n) ||| (x >>> (64 - n))

/-- The number of octets, the first one lowest. -/
def littleEndian : Bytes → UInt64
  | [] => 0
  | b :: rest => b.toUInt64 ||| (littleEndian rest <<< 8)

/-- A lane takes in eight octets. -/
def round (lane input : UInt64) : UInt64 := rotateLeft (lane + input * prime2) 31 * prime1

/-- A lane is merged into the sum of all. -/
def merge (sum lane : UInt64) : UInt64 := (sum ^^^ round 0 lane) * prime1 + prime4

structure Lanes where
  a : UInt64
  b : UInt64
  c : UInt64
  d : UInt64

def Lanes.initial : Lanes := ⟨prime1 + prime2, prime2, 0, 0 - prime1⟩

/-- The lanes take in a stripe of 32 octets. -/
def Lanes.stripe (lanes : Lanes) (octets : Bytes) : Lanes where
  a := round lanes.a (littleEndian (octets.take 8))
  b := round lanes.b (littleEndian ((octets.drop 8).take 8))
  c := round lanes.c (littleEndian ((octets.drop 16).take 8))
  d := round lanes.d (littleEndian ((octets.drop 24).take 8))

def Lanes.merged (lanes : Lanes) : UInt64 :=
  let sum := rotateLeft lanes.a 1 + rotateLeft lanes.b 7 + rotateLeft lanes.c 12 + rotateLeft lanes.d 18
  merge (merge (merge (merge sum lanes.a) lanes.b) lanes.c) lanes.d

/-- The lanes take in a number of stripes. -/
def stripes : Nat → Lanes → Bytes → Lanes
  | 0, lanes, _ => lanes
  | count + 1, lanes, octets => stripes count (lanes.stripe (octets.take 32)) (octets.drop 32)

/-- Mixes in the octets that fill no stripe, by eight, then four, then one. -/
def remainder : Nat → UInt64 → Bytes → UInt64
  | 0, sum, _ => sum
  | fuel + 1, sum, octets =>
    if octets.isEmpty then sum
    else if 8 ≤ octets.length then
      let mixed := rotateLeft (sum ^^^ round 0 (littleEndian (octets.take 8))) 27 * prime1 + prime4
      remainder fuel mixed (octets.drop 8)
    else if 4 ≤ octets.length then
      let mixed := rotateLeft (sum ^^^ (littleEndian (octets.take 4) * prime1)) 23 * prime2 + prime3
      remainder fuel mixed (octets.drop 4)
    else
      let mixed := rotateLeft (sum ^^^ (littleEndian (octets.take 1) * prime5)) 11 * prime1
      remainder fuel mixed (octets.drop 1)

/-- Spreads every bit over the whole number. -/
def avalanche (x : UInt64) : UInt64 :=
  let x := (x ^^^ (x >>> 33)) * prime2
  let x := (x ^^^ (x >>> 29)) * prime3
  x ^^^ (x >>> 32)

def fingerprint (text : Bytes) : UInt64 :=
  let size := text.length
  let start :=
    if 32 ≤ size then (stripes (size / 32) .initial text).merged else prime5
  let rest := text.drop (size / 32 * 32)
  avalanche (remainder rest.length (start + size.toUInt64) rest)

/-- The fingerprint as sixteen hexadecimal digits. -/
def key (text : Bytes) : Bytes := hexFixed 16 (fingerprint text).toNat

end Conform.Fingerprint
