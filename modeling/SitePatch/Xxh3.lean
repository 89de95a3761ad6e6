/-! # XXH3 — a 64-bit digest of bytes

The digest `Xxh3.digest` is XXH3 in its 64-bit form with seed 0 and the default secret. Inputs are
treated by length: up to 16 bytes, up to 128, up to 240, and beyond, where eight lanes take in the
input in stripes of 64 bytes and are scrambled after every block of 16 stripes. All arithmetic is
modulo 2^64. -/

namespace SitePatch.Xxh3

/-! ## Constants -/

/-- The default secret. -/
def secret : ByteArray := ⟨#[
  0xB8, 0xFE, 0x6C, 0x39, 0x23, 0xA4, 0x4B, 0xBE, 0x7C, 0x01, 0x81, 0x2C,
  0xF7, 0x21, 0xAD, 0x1C, 0xDE, 0xD4, 0x6D, 0xE9, 0x83, 0x90, 0x97, 0xDB,
  0x72, 0x40, 0xA4, 0xA4, 0xB7, 0xB3, 0x67, 0x1F, 0xCB, 0x79, 0xE6, 0x4E,
  0xCC, 0xC0, 0xE5, 0x78, 0x82, 0x5A, 0xD0, 0x7D, 0xCC, 0xFF, 0x72, 0x21,
  0xB8, 0x08, 0x46, 0x74, 0xF7, 0x43, 0x24, 0x8E, 0xE0, 0x35, 0x90, 0xE6,
  0x81, 0x3A, 0x26, 0x4C, 0x3C, 0x28, 0x52, 0xBB, 0x91, 0xC3, 0x00, 0xCB,
  0x88, 0xD0, 0x65, 0x8B, 0x1B, 0x53, 0x2E, 0xA3, 0x71, 0x64, 0x48, 0x97,
  0xA2, 0x0D, 0xF9, 0x4E, 0x38, 0x19, 0xEF, 0x46, 0xA9, 0xDE, 0xAC, 0xD8,
  0xA8, 0xFA, 0x76, 0x3F, 0xE3, 0x9C, 0x34, 0x3F, 0xF9, 0xDC, 0xBB, 0xC7,
  0xC7, 0x0B, 0x4F, 0x1D, 0x8A, 0x51, 0xE0, 0x4B, 0xCD, 0xB4, 0x59, 0x31,
  0xC8, 0x9F, 0x7E, 0xC9, 0xD9, 0x78, 0x73, 0x64, 0xEA, 0xC5, 0xAC, 0x83,
  0x34, 0xD3, 0xEB, 0xC3, 0xC5, 0x81, 0xA0, 0xFF, 0xFA, 0x13, 0x63, 0xEB,
  0x17, 0x0D, 0xDD, 0x51, 0xB7, 0xF0, 0xDA, 0x49, 0xD3, 0x16, 0x55, 0x26,
  0x29, 0xD4, 0x68, 0x9E, 0x2B, 0x16, 0xBE, 0x58, 0x7D, 0x47, 0xA1, 0xFC,
  0x8F, 0xF8, 0xB8, 0xD1, 0x7A, 0xD0, 0x31, 0xCE, 0x45, 0xCB, 0x3A, 0x8F,
  0x95, 0x16, 0x04, 0x28, 0xAF, 0xD7, 0xFB, 0xCA, 0xBB, 0x4B, 0x40, 0x7E]⟩

def prime32a : UInt64 := 0x9E3779B1
def prime32b : UInt64 := 0x85EBCA77
def prime32c : UInt64 := 0xC2B2AE3D
def prime64a : UInt64 := 0x9E3779B185EBCA87
def prime64b : UInt64 := 0xC2B2AE3D27D4EB4F
def prime64c : UInt64 := 0x165667B19E3779F9
def prime64d : UInt64 := 0x85EBCA77C2B2AE63
def prime64e : UInt64 := 0x27D4EB2F165667C5
def mixerA : UInt64 := 0x165667919E3779F9
def mixerB : UInt64 := 0x9FB21C651E98DF25

/-! ## Reading and mixing -/

/-- The byte at an index; there is no byte past the end, and 0 stands for it. -/
def byteAt (b : ByteArray) (i : Nat) : UInt64 := if h : i < b.size then b[i].toUInt64 else 0

/-- Four bytes, the least significant first. -/
def read32 (b : ByteArray) (i : Nat) : UInt64 :=
  byteAt b i ||| byteAt b (i + 1) <<< 8 ||| byteAt b (i + 2) <<< 16 ||| byteAt b (i + 3) <<< 24

/-- Eight bytes, the least significant first. -/
def read64 (b : ByteArray) (i : Nat) : UInt64 := read32 b i ||| read32 b (i + 4) <<< 32

/-- Eight bytes of the secret. -/
def secret64 (i : Nat) : UInt64 := read64 secret i

/-- The word with its bytes in reverse order. -/
def swapBytes (x : UInt64) : UInt64 :=
  (List.range 8).foldl (fun acc i => acc <<< 8 ||| (x >>> (UInt64.ofNat (8 * i)) &&& 0xFF)) 0

/-- The word turned left by `r` bits. -/
def rotateLeft (x r : UInt64) : UInt64 := x <<< r ||| x >>> (64 - r)

/-- The two halves of the 128-bit product, combined. -/
def fold (a b : UInt64) : UInt64 :=
  let product := a.toNat * b.toNat
  UInt64.ofNat (product % UInt64.size) ^^^ UInt64.ofNat (product / UInt64.size)

/-- The closing mixer of all longer inputs. -/
def avalanche (h : UInt64) : UInt64 :=
  let h := (h ^^^ h >>> 37) * mixerA
  h ^^^ h >>> 32

/-- The closing mixer of inputs of up to three bytes. -/
def avalancheTiny (h : UInt64) : UInt64 :=
  let h := (h ^^^ h >>> 33) * prime64b
  let h := (h ^^^ h >>> 29) * prime64c
  h ^^^ h >>> 32

/-- The closing mixer of inputs of four to eight bytes. -/
def avalancheShort (h length : UInt64) : UInt64 :=
  let h := (h ^^^ rotateLeft h 49 ^^^ rotateLeft h 24) * mixerB
  let h := (h ^^^ (h >>> 35 + length)) * mixerB
  h ^^^ h >>> 28

/-- Sixteen bytes of input combined with sixteen of the secret. -/
def mix16 (b : ByteArray) (i s : Nat) : UInt64 :=
  fold (read64 b i ^^^ secret64 s) (read64 b (i + 8) ^^^ secret64 (s + 8))

/-! ## The digest by length -/

/-- The digest of up to 16 bytes. -/
def digestTiny (b : ByteArray) : UInt64 :=
  let n := b.size
  let length := UInt64.ofNat n
  if n = 0 then avalancheTiny (secret64 56 ^^^ secret64 64)
  else if n ≤ 3 then
    let word := byteAt b 0 <<< 16 ||| byteAt b (n / 2) <<< 24 ||| byteAt b (n - 1) ||| length <<< 8
    avalancheTiny (word ^^^ (read32 secret 0 ^^^ read32 secret 4))
  else if n ≤ 8 then
    let word := read32 b (n - 4) + read32 b 0 <<< 32
    avalancheShort (word ^^^ (secret64 8 ^^^ secret64 16)) length
  else
    let low := read64 b 0 ^^^ (secret64 24 ^^^ secret64 32)
    let high := read64 b (n - 8) ^^^ (secret64 40 ^^^ secret64 48)
    avalanche (length + swapBytes low + high + fold low high)

/-- The digest of 17 to 128 bytes: pairs of sixteen bytes from both ends. -/
def digestShort (b : ByteArray) : UInt64 :=
  let n := b.size
  let acc := (List.range ((n - 1) / 32 + 1)).foldl
    (fun acc i => acc + mix16 b (16 * i) (32 * i) + mix16 b (n - 16 * (i + 1)) (32 * i + 16))
    (UInt64.ofNat n * prime64a)
  avalanche acc

/-- The digest of 129 to 240 bytes: eight rounds, a mixer, the other rounds and the last 16 bytes.
-/
def digestMedium (b : ByteArray) : UInt64 :=
  let n := b.size
  let first := (List.range 8).foldl (fun acc i => acc + mix16 b (16 * i) (16 * i))
    (UInt64.ofNat n * prime64a)
  let rest := (List.range (n / 16 - 8)).foldl
    (fun acc i => acc + mix16 b (16 * (i + 8)) (16 * i + 3)) (avalanche first)
  avalanche (rest + mix16 b (n - 16) 119)

/-- The eight lanes of a long input. -/
abbrev Lanes := Array UInt64

/-- The lanes before the first stripe. -/
def initialLanes : Lanes :=
  #[prime32c, prime64a, prime64b, prime64c, prime64d, prime32b, prime64e, prime32a]

/-- The lanes after a stripe of 64 bytes: each lane takes the product of the halves of its keyed
word, and its neighbour's word as it is. -/
def Lanes.absorb (lanes : Lanes) (b : ByteArray) (i s : Nat) : Lanes :=
  Array.ofFn (n := 8) fun lane =>
    let keyed := read64 b (i + 8 * lane) ^^^ secret64 (s + 8 * lane)
    let neighbour := read64 b (i + 8 * (lane.val ^^^ 1))
    let product := (keyed &&& (0xFFFFFFFF : UInt64)) * (keyed >>> (32 : UInt64))
    lanes.getD lane 0 + neighbour + product

/-- The lanes after a block. -/
def Lanes.scramble (lanes : Lanes) : Lanes :=
  Array.ofFn (n := 8) fun lane =>
    let x := lanes.getD lane 0
    (x ^^^ x >>> 47 ^^^ secret64 (128 + 8 * lane)) * prime32a

/-- The lanes after `stripes` stripes that start at byte `i`, with a fresh part of the secret. -/
def Lanes.absorbStripes (lanes : Lanes) (b : ByteArray) (i stripes : Nat) : Lanes :=
  (List.range stripes).foldl (fun lanes k => lanes.absorb b (i + 64 * k) (8 * k)) lanes

/-- The digest of more than 240 bytes. -/
def digestLong (b : ByteArray) : UInt64 :=
  let n := b.size
  let blocks := (n - 1) / 1024
  let lanes := (List.range blocks).foldl
    (fun lanes k => (lanes.absorbStripes b (1024 * k) 16).scramble) initialLanes
  let lanes := lanes.absorbStripes b (1024 * blocks) ((n - 1 - 1024 * blocks) / 64)
  let lanes := lanes.absorb b (n - 64) 121
  let merged := (List.range 4).foldl
    (fun acc k => acc + fold (lanes.getD (2 * k) 0 ^^^ secret64 (11 + 16 * k))
      (lanes.getD (2 * k + 1) 0 ^^^ secret64 (19 + 16 * k)))
    (UInt64.ofNat n * prime64a)
  avalanche merged

/-- **The digest** of the bytes. -/
def digest (b : ByteArray) : UInt64 :=
  if b.size ≤ 16 then digestTiny b
  else if b.size ≤ 128 then digestShort b
  else if b.size ≤ 240 then digestMedium b
  else digestLong b

end SitePatch.Xxh3
