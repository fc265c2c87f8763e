import Flotestro.Library.Bytes

/-!
# The checksum and the digest of the standard library

`crc32c` is the CRC-32 of the Castagnoli polynomial in its reflected form, and `sha256`
the SHA-256 of a byte string, both over words held as natural numbers below `2 ^ 32`.
They are written to be evaluated; the development reasons about them only through the
bound `crc32c_lt`, and `sha256` by the equation a reader checks.
-/

set_option autoImplicit false

namespace Flotestro.Library

/-- One bit of the reflected division by the Castagnoli polynomial. -/
def crcBit (c : Nat) : Nat := if c % 2 = 1 then (c / 2) ^^^ 0x82F63B78 else c / 2

def crcByte (c : Nat) (b : UInt8) : Nat := crcBit^[8] (c ^^^ b.toNat)

/-- The division of a byte string, byte by byte.  The split on the remainder makes an
evaluation settle it before the next byte, so that no chain of pending divisions builds up. -/
def crcBytes : Nat → Bytes → Nat
  | c, [] => c
  | c, b :: bs =>
    match crcByte c b with
    | 0 => crcBytes 0 bs
    | n + 1 => crcBytes (n + 1) bs

def crc32c (bs : Bytes) : Nat := (crcBytes 0xFFFFFFFF bs ^^^ 0xFFFFFFFF) % 2 ^ 32

/-- A checksum fits its four bytes. -/
theorem crc32c_lt (bs : Bytes) : crc32c bs < 256 ^ 4 := Nat.mod_lt _ (by norm_num)

example : crc32c (ascii ['1', '2', '3', '4', '5', '6', '7', '8', '9']) = 0xE3069283 := by
  decide

/-- A rotation of a 32-bit word to the right. -/
def rotr (x n : Nat) : Nat := (x >>> n ||| x <<< (32 - n)) % 2 ^ 32

/-- The round constants of SHA-256. -/
def shaK : List Nat :=
  [0x428a2f98, 0x71374491, 0xb5c0fbcf, 0xe9b5dba5, 0x3956c25b, 0x59f111f1, 0x923f82a4,
   0xab1c5ed5, 0xd807aa98, 0x12835b01, 0x243185be, 0x550c7dc3, 0x72be5d74, 0x80deb1fe,
   0x9bdc06a7, 0xc19bf174, 0xe49b69c1, 0xefbe4786, 0x0fc19dc6, 0x240ca1cc, 0x2de92c6f,
   0x4a7484aa, 0x5cb0a9dc, 0x76f988da, 0x983e5152, 0xa831c66d, 0xb00327c8, 0xbf597fc7,
   0xc6e00bf3, 0xd5a79147, 0x06ca6351, 0x14292967, 0x27b70a85, 0x2e1b2138, 0x4d2c6dfc,
   0x53380d13, 0x650a7354, 0x766a0abb, 0x81c2c92e, 0x92722c85, 0xa2bfe8a1, 0xa81a664b,
   0xc24b8b70, 0xc76c51a3, 0xd192e819, 0xd6990624, 0xf40e3585, 0x106aa070, 0x19a4c116,
   0x1e376c08, 0x2748774c, 0x34b0bcb5, 0x391c0cb3, 0x4ed8aa4a, 0x5b9cca4f, 0x682e6ff3,
   0x748f82ee, 0x78a5636f, 0x84c87814, 0x8cc70208, 0x90befffa, 0xa4506ceb, 0xbef9a3f7,
   0xc67178f2]

structure ShaState where
  (a b c d e f g h : Nat)

def shaInit : ShaState :=
  ⟨0x6a09e667, 0xbb67ae85, 0x3c6ef372, 0xa54ff53a, 0x510e527f, 0x9b05688c, 0x1f83d9ab,
   0x5be0cd19⟩

/-- One round of the compression, with its constant and its schedule word. -/
def shaRound (s : ShaState) (kw : Nat × Nat) : ShaState :=
  let s1 := rotr s.e 6 ^^^ rotr s.e 11 ^^^ rotr s.e 25
  let ch := (s.e &&& s.f) ^^^ ((0xFFFFFFFF ^^^ s.e) &&& s.g)
  let t1 := s.h + s1 + ch + kw.1 + kw.2
  let s0 := rotr s.a 2 ^^^ rotr s.a 13 ^^^ rotr s.a 22
  let maj := (s.a &&& s.b) ^^^ (s.a &&& s.c) ^^^ (s.b &&& s.c)
  ⟨(t1 + s0 + maj) % 2 ^ 32, s.a, s.b, s.c, (s.d + t1) % 2 ^ 32, s.e, s.f, s.g⟩

/-- One more word of the message schedule, kept newest first. -/
def shaExtend (ws : List Nat) : List Nat :=
  let w2 := ws.getD 1 0
  let w15 := ws.getD 14 0
  let s1 := rotr w2 17 ^^^ rotr w2 19 ^^^ w2 >>> 10
  let s0 := rotr w15 7 ^^^ rotr w15 18 ^^^ w15 >>> 3
  (s1 + ws.getD 6 0 + s0 + ws.getD 15 0) % 2 ^ 32 :: ws

/-- The big-endian words of a block. -/
def shaWords : Nat → Bytes → List Nat
  | 0, _ => []
  | n + 1, bs => getLE (bs.take 4).reverse :: shaWords n (bs.drop 4)

/-- The compression of one block into the chaining state. -/
def shaBlock (s : ShaState) (block : Bytes) : ShaState :=
  let ws := (shaExtend^[48] (shaWords 16 block).reverse).reverse
  let t := (shaK.zip ws).foldl shaRound s
  ⟨(s.a + t.a) % 2 ^ 32, (s.b + t.b) % 2 ^ 32, (s.c + t.c) % 2 ^ 32, (s.d + t.d) % 2 ^ 32,
   (s.e + t.e) % 2 ^ 32, (s.f + t.f) % 2 ^ 32, (s.g + t.g) % 2 ^ 32, (s.h + t.h) % 2 ^ 32⟩

/-- The compression of the first `n` blocks. -/
def shaBlocks : Nat → ShaState → Bytes → ShaState
  | 0, s, _ => s
  | n + 1, s, bs => shaBlocks n (shaBlock s (bs.take 64)) (bs.drop 64)

/-- A message with its padding and its length in bits. -/
def shaPad (bs : Bytes) : Bytes :=
  bs ++ 0x80 :: List.replicate ((119 - bs.length % 64) % 64) 0 ++
    (putLE 8 (8 * bs.length)).reverse

def sha256 (bs : Bytes) : List.Vector UInt8 32 :=
  let s := shaBlocks ((shaPad bs).length / 64) shaInit (shaPad bs)
  ⟨(putLE 4 s.a).reverse ++ (putLE 4 s.b).reverse ++ (putLE 4 s.c).reverse ++
    (putLE 4 s.d).reverse ++ (putLE 4 s.e).reverse ++ (putLE 4 s.f).reverse ++
    (putLE 4 s.g).reverse ++ (putLE 4 s.h).reverse, by simp⟩

example : (sha256 []).toList.take 4 = [0xe3, 0xb0, 0xc4, 0x42] := by decide

end Flotestro.Library
