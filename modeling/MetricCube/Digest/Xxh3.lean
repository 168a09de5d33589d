/-
  MetricCube.Digest.Xxh3
  ──────────────────────
  **The 64-bit XXH3 digest** of a byte string, with seed zero and the default
  secret.  Short inputs (up to 16 bytes), middle inputs (up to 128 and up to 240
  bytes) and long inputs each have their own rule.  Words are little-endian.
-/

namespace MetricCube.Digest.Xxh3

/-- The default secret. -/
def secret : Array UInt8 :=
  #[0xb8, 0xfe, 0x6c, 0x39, 0x23, 0xa4, 0x4b, 0xbe, 0x7c, 0x01, 0x81, 0x2c, 0xf7, 0x21, 0xad, 0x1c,
    0xde, 0xd4, 0x6d, 0xe9, 0x83, 0x90, 0x97, 0xdb, 0x72, 0x40, 0xa4, 0xa4, 0xb7, 0xb3, 0x67, 0x1f,
    0xcb, 0x79, 0xe6, 0x4e, 0xcc, 0xc0, 0xe5, 0x78, 0x82, 0x5a, 0xd0, 0x7d, 0xcc, 0xff, 0x72, 0x21,
    0xb8, 0x08, 0x46, 0x74, 0xf7, 0x43, 0x24, 0x8e, 0xe0, 0x35, 0x90, 0xe6, 0x81, 0x3a, 0x26, 0x4c,
    0x3c, 0x28, 0x52, 0xbb, 0x91, 0xc3, 0x00, 0xcb, 0x88, 0xd0, 0x65, 0x8b, 0x1b, 0x53, 0x2e, 0xa3,
    0x71, 0x64, 0x48, 0x97, 0xa2, 0x0d, 0xf9, 0x4e, 0x38, 0x19, 0xef, 0x46, 0xa9, 0xde, 0xac, 0xd8,
    0xa8, 0xfa, 0x76, 0x3f, 0xe3, 0x9c, 0x34, 0x3f, 0xf9, 0xdc, 0xbb, 0xc7, 0xc7, 0x0b, 0x4f, 0x1d,
    0x8a, 0x51, 0xe0, 0x4b, 0xcd, 0xb4, 0x59, 0x31, 0xc8, 0x9f, 0x7e, 0xc9, 0xd9, 0x78, 0x73, 0x64,
    0xea, 0xc5, 0xac, 0x83, 0x34, 0xd3, 0xeb, 0xc3, 0xc5, 0x81, 0xa0, 0xff, 0xfa, 0x13, 0x63, 0xeb,
    0x17, 0x0d, 0xdd, 0x51, 0xb7, 0xf0, 0xda, 0x49, 0xd3, 0x16, 0x55, 0x26, 0x29, 0xd4, 0x68, 0x9e,
    0x2b, 0x16, 0xbe, 0x58, 0x7d, 0x47, 0xa1, 0xfc, 0x8f, 0xf8, 0xb8, 0xd1, 0x7a, 0xd0, 0x31, 0xce,
    0x45, 0xcb, 0x3a, 0x8f, 0x95, 0x16, 0x04, 0x28, 0xaf, 0xd7, 0xfb, 0xca, 0xbb, 0x4b, 0x40, 0x7e]

def prime32₁ : UInt64 := 0x9E3779B1
def prime32₂ : UInt64 := 0x85EBCA77
def prime32₃ : UInt64 := 0xC2B2AE3D
def prime64₁ : UInt64 := 0x9E3779B185EBCA87
def prime64₂ : UInt64 := 0xC2B2AE3D27D4EB4F
def prime64₃ : UInt64 := 0x165667B19E3779F9
def prime64₄ : UInt64 := 0x85EBCA77C2B2AE63
def prime64₅ : UInt64 := 0x27D4EB2F165667C5
def primeMix₁ : UInt64 := 0x165667919E3779F9
def primeMix₂ : UInt64 := 0x9FB21C651E98DF25

/-! ## §1. Words and mixing. -/

/-- The byte at a position, widened. -/
def byteAt (bs : Array UInt8) (i : Nat) : UInt64 :=
  (bs.getD i 0).toUInt64

/-- The four bytes at a position as a word. -/
def word32At (bs : Array UInt8) (i : Nat) : UInt64 :=
  byteAt bs i ||| (byteAt bs (i + 1) <<< 8) ||| (byteAt bs (i + 2) <<< 16)
    ||| (byteAt bs (i + 3) <<< 24)

/-- The eight bytes at a position as a word. -/
def word64At (bs : Array UInt8) (i : Nat) : UInt64 :=
  word32At bs i ||| (word32At bs (i + 4) <<< 32)

/-- Rotation to the left. -/
def rotl (x : UInt64) (n : UInt64) : UInt64 :=
  (x <<< n) ||| (x >>> (64 - n))

/-- The bytes of a word in reverse order. -/
def swapBytes (x : UInt64) : UInt64 :=
  (List.range 8).foldl (fun acc i => (acc <<< 8) ||| ((x >>> (8 * i).toUInt64) &&& 0xFF)) 0

/-- The two halves of the 128-bit product, combined. -/
def mulFold (a b : UInt64) : UInt64 :=
  let product := a.toNat * b.toNat
  product.toUInt64 ^^^ (product / 18446744073709551616).toUInt64

/-- The last mixing of a sum. -/
def avalanche (h : UInt64) : UInt64 :=
  let h := h ^^^ (h >>> 37)
  let h := h * primeMix₁
  h ^^^ (h >>> 32)

/-- The last mixing of the shortest inputs. -/
def avalancheShort (h : UInt64) : UInt64 :=
  let h := h ^^^ (h >>> 33)
  let h := h * prime64₂
  let h := h ^^^ (h >>> 29)
  let h := h * prime64₃
  h ^^^ (h >>> 32)

/-- Mixes the sixteen bytes at `i` with the secret at `j`. -/
def mix16 (bs : Array UInt8) (i j : Nat) : UInt64 :=
  mulFold (word64At bs i ^^^ word64At secret j) (word64At bs (i + 8) ^^^ word64At secret (j + 8))

/-! ## §2. Short and middle inputs. -/

/-- Up to 16 bytes. -/
def short (bs : Array UInt8) : UInt64 :=
  let len := bs.size
  if len = 0 then
    avalancheShort (word64At secret 56 ^^^ word64At secret 64)
  else if len ≤ 3 then
    let combined := (byteAt bs 0 <<< 16) ||| (byteAt bs (len / 2) <<< 24) ||| byteAt bs (len - 1)
      ||| (len.toUInt64 <<< 8)
    avalancheShort (combined ^^^ (word32At secret 0 ^^^ word32At secret 4))
  else if len ≤ 8 then
    let joined := word32At bs (len - 4) + (word32At bs 0 <<< 32)
    let h := joined ^^^ (word64At secret 8 ^^^ word64At secret 16)
    let h := h ^^^ rotl h 49 ^^^ rotl h 24
    let h := h * primeMix₂
    let h := h ^^^ ((h >>> 35) + len.toUInt64)
    let h := h * primeMix₂
    h ^^^ (h >>> 28)
  else
    let lo := word64At bs 0 ^^^ (word64At secret 24 ^^^ word64At secret 32)
    let hi := word64At bs (len - 8) ^^^ (word64At secret 40 ^^^ word64At secret 48)
    avalanche (len.toUInt64 + swapBytes lo + hi + mulFold lo hi)

/-- 17 to 128 bytes: pairs of sixteen bytes from the two ends inwards. -/
def middle (bs : Array UInt8) : UInt64 :=
  let len := bs.size
  let pairs := (len - 1) / 32 + 1
  let start := len.toUInt64 * prime64₁
  avalanche <| (List.range pairs).foldl
    (fun acc i => acc + mix16 bs (16 * i) (32 * i) + mix16 bs (len - 16 * (i + 1)) (32 * i + 16))
    start

/-- 129 to 240 bytes. -/
def upperMiddle (bs : Array UInt8) : UInt64 :=
  let len := bs.size
  let start := len.toUInt64 * prime64₁
  let acc := (List.range 8).foldl (fun acc i => acc + mix16 bs (16 * i) (16 * i)) start
  let acc := (List.range (len / 16 - 8)).foldl
    (fun acc i => acc + mix16 bs (16 * (i + 8)) (16 * i + 3)) (avalanche acc)
  avalanche (acc + mix16 bs (len - 16) 119)

/-! ## §3. Long inputs. -/

/-- The eight lanes before the first stripe. -/
def initialLanes : Array UInt64 :=
  #[prime32₃, prime64₁, prime64₂, prime64₃, prime64₄, prime32₂, prime64₅, prime32₁]

/-- The other member of a pair of lanes. -/
def swapPair (l : Nat) : Nat :=
  if l % 2 = 0 then l + 1 else l - 1

/-- Adds the 64 bytes at `i` to the lanes, under the secret at `j`. -/
def addStripe (bs : Array UInt8) (i j : Nat) (lanes : Array UInt64) : Array UInt64 :=
  (List.range 8).foldl (fun lanes l =>
    let value := word64At bs (i + 8 * l)
    let keyed := value ^^^ word64At secret (j + 8 * l)
    let lanes := lanes.setIfInBounds (swapPair l) (lanes.getD (swapPair l) 0 + value)
    lanes.setIfInBounds l (lanes.getD l 0 + (keyed &&& (0xFFFFFFFF : UInt64)) * (keyed >>> 32))) lanes

/-- Adds `count` stripes that begin at `i`. -/
def addStripes (bs : Array UInt8) (i count : Nat) (lanes : Array UInt64) : Array UInt64 :=
  (List.range count).foldl (fun lanes s => addStripe bs (i + 64 * s) (8 * s) lanes) lanes

/-- Scrambles the lanes at the end of a block. -/
def scramble (lanes : Array UInt64) : Array UInt64 :=
  lanes.mapIdx fun l (acc : UInt64) =>
    (acc ^^^ (acc >>> 47) ^^^ word64At secret (128 + 8 * l)) * prime32₁

/-- More than 240 bytes: blocks of sixteen stripes, the rest, and the last 64 bytes. -/
def long (bs : Array UInt8) : UInt64 :=
  let len := bs.size
  let blocks := (len - 1) / 1024
  let lanes := (List.range blocks).foldl
    (fun lanes b => scramble (addStripes bs (1024 * b) 16 lanes)) initialLanes
  let lanes := addStripes bs (1024 * blocks) ((len - 1 - 1024 * blocks) / 64) lanes
  let lanes := addStripe bs (len - 64) 121 lanes
  let start := len.toUInt64 * prime64₁
  avalanche <| (List.range 4).foldl
    (fun acc i => acc + mulFold (lanes.getD (2 * i) 0 ^^^ word64At secret (11 + 16 * i))
      (lanes.getD (2 * i + 1) 0 ^^^ word64At secret (11 + 16 * i + 8))) start

/-- The digest of a byte string. -/
def digest (message : List UInt8) : UInt64 :=
  let bs := message.toArray
  if bs.size ≤ 16 then short bs
  else if bs.size ≤ 128 then middle bs
  else if bs.size ≤ 240 then upperMiddle bs
  else long bs

end MetricCube.Digest.Xxh3
