import Mathlib.Logic.Function.Iterate
import Mathlib.Tactic

/-!
# The hash function SHA-256

The function of the standard, on bytes, with words as numbers below `2 ^ 32`. A digest has
32 bytes (`length_sha256`).
-/

namespace Detta

namespace Sha256

/-- The working variables. -/
structure Registers where
  (a b c d e f g h : ℕ)

def initial : Registers :=
  ⟨0x6a09e667, 0xbb67ae85, 0x3c6ef372, 0xa54ff53a, 0x510e527f,
    0x9b05688c, 0x1f83d9ab, 0x5be0cd19⟩

def constants : List ℕ :=
  [0x428a2f98, 0x71374491, 0xb5c0fbcf, 0xe9b5dba5, 0x3956c25b, 0x59f111f1, 0x923f82a4, 0xab1c5ed5,
    0xd807aa98, 0x12835b01, 0x243185be, 0x550c7dc3, 0x72be5d74, 0x80deb1fe, 0x9bdc06a7, 0xc19bf174,
    0xe49b69c1, 0xefbe4786, 0x0fc19dc6, 0x240ca1cc, 0x2de92c6f, 0x4a7484aa, 0x5cb0a9dc, 0x76f988da,
    0x983e5152, 0xa831c66d, 0xb00327c8, 0xbf597fc7, 0xc6e00bf3, 0xd5a79147, 0x06ca6351, 0x14292967,
    0x27b70a85, 0x2e1b2138, 0x4d2c6dfc, 0x53380d13, 0x650a7354, 0x766a0abb, 0x81c2c92e, 0x92722c85,
    0xa2bfe8a1, 0xa81a664b, 0xc24b8b70, 0xc76c51a3, 0xd192e819, 0xd6990624, 0xf40e3585, 0x106aa070,
    0x19a4c116, 0x1e376c08, 0x2748774c, 0x34b0bcb5, 0x391c0cb3, 0x4ed8aa4a, 0x5b9cca4f, 0x682e6ff3,
    0x748f82ee, 0x78a5636f, 0x84c87814, 0x8cc70208, 0x90befffa, 0xa4506ceb, 0xbef9a3f7, 0xc67178f2]

def add (x y : ℕ) : ℕ := (x + y) % 2 ^ 32

def rotate (n x : ℕ) : ℕ := (x >>> n) ||| (x <<< (32 - n) % 2 ^ 32)

/-- Words of four bytes, the most significant byte first. -/
def words : List UInt8 → List ℕ
  | a :: b :: c :: d :: rest =>
    (((a.toNat * 256 + b.toNat) * 256 + c.toNat) * 256 + d.toNat) :: words rest
  | _ => []

def wordBytes (x : ℕ) : List UInt8 := [24, 16, 8, 0].map fun shift => UInt8.ofNat (x >>> shift)

/-- The message, a bit, and the length of the message in bits at the end of a block. -/
def pad (bytes : List UInt8) : List UInt8 :=
  bytes ++ 0x80 :: List.replicate ((119 - bytes.length % 64) % 64) 0 ++
    [56, 48, 40, 32, 24, 16, 8, 0].map fun shift => UInt8.ofNat (8 * bytes.length / 2 ^ shift)

/-- One more word of the schedule, which is kept with the last word first. -/
def extend (ws : List ℕ) : List ℕ :=
  let x := ws.getD 14 0
  let y := ws.getD 1 0
  let s₀ := rotate 7 x ^^^ rotate 18 x ^^^ (x >>> 3)
  let s₁ := rotate 17 y ^^^ rotate 19 y ^^^ (y >>> 10)
  add (add (ws.getD 15 0) s₀) (add (ws.getD 6 0) s₁) :: ws

def schedule (block : List ℕ) : List ℕ := (extend^[48] block.reverse).reverse

def round (r : Registers) (w : ℕ × ℕ) : Registers :=
  let s₁ := rotate 6 r.e ^^^ rotate 11 r.e ^^^ rotate 25 r.e
  let choice := (r.e &&& r.f) ^^^ ((2 ^ 32 - 1 - r.e) &&& r.g)
  let t₁ := add (add (add r.h s₁) (add choice w.1)) w.2
  let s₀ := rotate 2 r.a ^^^ rotate 13 r.a ^^^ rotate 22 r.a
  let majority := (r.a &&& r.b) ^^^ (r.a &&& r.c) ^^^ (r.b &&& r.c)
  ⟨add t₁ (add s₀ majority), r.a, r.b, r.c, add r.d t₁, r.e, r.f, r.g⟩

def compress (r : Registers) (block : List ℕ) : Registers :=
  let q := (constants.zip (schedule block)).foldl round r
  ⟨add r.a q.a, add r.b q.b, add r.c q.c, add r.d q.d, add r.e q.e, add r.f q.f, add r.g q.g,
    add r.h q.h⟩

end Sha256

open Sha256 in
/-- The digest of a message. -/
def sha256 (bytes : List UInt8) : List UInt8 :=
  let ws := words (pad bytes)
  let r := (List.range (ws.length / 16)).foldl
    (fun r i => compress r ((ws.drop (16 * i)).take 16)) initial
  [r.a, r.b, r.c, r.d, r.e, r.f, r.g, r.h].flatMap wordBytes

theorem length_sha256 (bytes : List UInt8) : (sha256 bytes).length = 32 := rfl

/-- The message "abc" of the standard. -/
example : (sha256 [0x61, 0x62, 0x63]).take 4 = [0xba, 0x78, 0x16, 0xbf] := by decide +kernel

end Detta
