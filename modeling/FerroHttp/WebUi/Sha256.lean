import FerroHttp.Lib.Text

/-!
# WebUi.Sha256 — the password digest

SHA-256 over 32-bit words, as a fold over the padded blocks; the digest is kept as a
lowercase hex text and compared without an early exit.
-/

namespace FerroHttp

open Text

namespace Sha256

/-- The initial hash values. -/
def h0 : List UInt32 :=
  [0x6a09e667, 0xbb67ae85, 0x3c6ef372, 0xa54ff53a, 0x510e527f, 0x9b05688c, 0x1f83d9ab, 0x5be0cd19]

/-- The round constants. -/
def k : List UInt32 :=
  [0x428a2f98, 0x71374491, 0xb5c0fbcf, 0xe9b5dba5, 0x3956c25b, 0x59f111f1, 0x923f82a4, 0xab1c5ed5,
    0xd807aa98, 0x12835b01, 0x243185be, 0x550c7dc3, 0x72be5d74, 0x80deb1fe, 0x9bdc06a7, 0xc19bf174,
    0xe49b69c1, 0xefbe4786, 0x0fc19dc6, 0x240ca1cc, 0x2de92c6f, 0x4a7484aa, 0x5cb0a9dc, 0x76f988da,
    0x983e5152, 0xa831c66d, 0xb00327c8, 0xbf597fc7, 0xc6e00bf3, 0xd5a79147, 0x06ca6351, 0x14292967,
    0x27b70a85, 0x2e1b2138, 0x4d2c6dfc, 0x53380d13, 0x650a7354, 0x766a0abb, 0x81c2c92e, 0x92722c85,
    0xa2bfe8a1, 0xa81a664b, 0xc24b8b70, 0xc76c51a3, 0xd192e819, 0xd6990624, 0xf40e3585, 0x106aa070,
    0x19a4c116, 0x1e376c08, 0x2748774c, 0x34b0bcb5, 0x391c0cb3, 0x4ed8aa4a, 0x5b9cca4f, 0x682e6ff3,
    0x748f82ee, 0x78a5636f, 0x84c87814, 0x8cc70208, 0x90befffa, 0xa4506ceb, 0xbef9a3f7, 0xc67178f2]

def rotateRight (x : UInt32) (n : UInt32) : UInt32 := (x >>> n) ||| (x <<< (32 - n))

/-! ## Padding -/

/-- Push zeros until the length is 56 modulo 64; at most 63 are needed. -/
def pushZeros : Nat → Bytes → Bytes
  | 0, msg => msg
  | fuel + 1, msg => if msg.length % 64 ≠ 56 then pushZeros fuel (msg ++ [0]) else msg

/-- A 64-bit number, big-endian. -/
def toBeBytes (n : UInt64) : Bytes :=
  ([56, 48, 40, 32, 24, 16, 8, 0] : List UInt64).map fun shift => (n >>> shift).toUInt8

def pad (input : Bytes) : Bytes :=
  pushZeros 64 (input ++ [0x80]) ++ toBeBytes (UInt64.ofNat input.length * 8)

/-! ## Compression -/

/-- The 32-bit big-endian words of a block. -/
def beWords : Bytes → List UInt32
  | a :: b :: c :: d :: rest =>
    (a.toUInt32 <<< 24 ||| b.toUInt32 <<< 16 ||| c.toUInt32 <<< 8 ||| d.toUInt32) :: beWords rest
  | _ => []

/-- The message schedule: 16 words of the block and 48 more. -/
def schedule (block : Bytes) : List UInt32 :=
  (List.range' 16 48).foldl (fun w i =>
    let w15 := w.getD (i - 15) 0
    let w2 := w.getD (i - 2) 0
    let s0 := rotateRight w15 7 ^^^ rotateRight w15 18 ^^^ (w15 >>> 3)
    let s1 := rotateRight w2 17 ^^^ rotateRight w2 19 ^^^ (w2 >>> 10)
    w ++ [w.getD (i - 16) 0 + s0 + w.getD (i - 7) 0 + s1]) (beWords block)

/-- The working variables. -/
structure Vars where
  a : UInt32
  b : UInt32
  c : UInt32
  d : UInt32
  e : UInt32
  f : UInt32
  g : UInt32
  h : UInt32

def round (v : Vars) (ki wi : UInt32) : Vars :=
  let s1 := rotateRight v.e 6 ^^^ rotateRight v.e 11 ^^^ rotateRight v.e 25
  let ch := (v.e &&& v.f) ^^^ (~~~v.e &&& v.g)
  let t1 := v.h + s1 + ch + ki + wi
  let s0 := rotateRight v.a 2 ^^^ rotateRight v.a 13 ^^^ rotateRight v.a 22
  let maj := (v.a &&& v.b) ^^^ (v.a &&& v.c) ^^^ (v.b &&& v.c)
  let t2 := s0 + maj
  ⟨t1 + t2, v.a, v.b, v.c, v.d + t1, v.e, v.f, v.g⟩

/-- Add one block to the hash. -/
def compress (h : List UInt32) (block : Bytes) : List UInt32 :=
  let w := schedule block
  let v := (List.range 64).foldl (fun v i => round v (k.getD i 0) (w.getD i 0))
    ⟨h.getD 0 0, h.getD 1 0, h.getD 2 0, h.getD 3 0, h.getD 4 0, h.getD 5 0, h.getD 6 0, h.getD 7 0⟩
  List.zipWith (· + ·) h [v.a, v.b, v.c, v.d, v.e, v.f, v.g, v.h]

/-- The whole blocks of a message. -/
def blocks : Nat → Bytes → List Bytes
  | 0, _ => []
  | n + 1, msg => msg.take 64 :: blocks n (msg.drop 64)

/-- A word in eight hex digits. -/
def hexWord (word : UInt32) : String :=
  String.ofList ((Nat.toDigits 16 word.toNat).leftpad 8 '0')

end Sha256

open Sha256

/-- The SHA-256 digest in lowercase hex. -/
def sha256Hex (input : Bytes) : String :=
  let msg := pad input
  let h := (blocks (msg.length / 64) msg).foldl compress h0
  String.join (h.map hexWord)

example : sha256Hex (utf8 "abc") =
    "ba7816bf8f01cfea414140de5dae2223b00361a396177a9cb410ff61f20015ad" := by decide +kernel

/-! ## Comparing -/

/-- Compare byte by byte, to the end. -/
def constantTimeEq (a b : Bytes) : Bool :=
  if a.length ≠ b.length then false
  else (List.zip a b).foldl (fun diff pair => diff ||| (pair.1 ^^^ pair.2)) (0 : UInt8) == 0

/-- A password against a stored digest. -/
def passwordMatches (password passwordSha256 : String) : Bool :=
  constantTimeEq (utf8 (sha256Hex (utf8 password))) (utf8 passwordSha256)

theorem foldl_diff_eq_zero_iff (pairs : List (UInt8 × UInt8)) : ∀ diff : UInt8,
    pairs.foldl (fun diff pair => diff ||| (pair.1 ^^^ pair.2)) diff = 0 ↔
      diff = 0 ∧ ∀ pair ∈ pairs, pair.1 = pair.2 := by
  induction pairs with
  | nil => simp
  | cons pair pairs ih =>
    intro diff
    rw [List.foldl_cons, ih, UInt8.or_eq_zero_iff, UInt8.xor_eq_zero_iff, List.forall_mem_cons,
      and_assoc]

/-- The comparison is equality. -/
theorem constantTimeEq_iff {a b : Bytes} : constantTimeEq a b = true ↔ a = b := by
  unfold constantTimeEq
  split
  · rename_i hlen
    constructor
    · intro h
      cases h
    · intro h
      exact (hlen (congrArg List.length h)).elim
  · rename_i hlen
    rw [not_not] at hlen
    rw [beq_iff_eq, foldl_diff_eq_zero_iff]
    constructor
    · rintro ⟨-, hpairs⟩
      refine List.ext_getElem hlen ?_
      intro i hi hi'
      have hmem : (a[i], b[i]) ∈ List.zip a b := by
        rw [← List.getElem_zip (h := by simp [hi, hi'])]
        exact List.getElem_mem _
      exact hpairs _ hmem
    · rintro rfl
      refine ⟨rfl, ?_⟩
      intro pair hpair
      rcases List.getElem_of_mem hpair with ⟨i, hi, rfl⟩
      rw [List.getElem_zip]

theorem passwordMatches_iff {password passwordSha256 : String} :
    passwordMatches password passwordSha256 = true ↔ sha256Hex (utf8 password) = passwordSha256 := by
  rw [passwordMatches, constantTimeEq_iff]
  exact ⟨utf8_injective, congrArg utf8⟩

end FerroHttp
