import FerroHttp.Lib.Sha2
import FerroHttp.WebUi.Sha256
import Mathlib.Algebra.Order.Floor.Div

/-!
# WebUi.Digest — the digest is SHA-256

Layer by layer: the constants, the padded message, the words of a block, the schedule, the
rounds, the blocks, and the hex text at the end (`sha256Hex_eq`).
-/

namespace FerroHttp

open Text
open Sha2 (Word Work)

namespace Sha256

/-- A word of the standard as a machine word. -/
def toWord (x : Word) : UInt32 := UInt32.ofBitVec x

/-! ## Constants -/

section Constants

/-- The prime numbers up to the sixty-fourth. -/
def primes : List Nat :=
  [2, 3, 5, 7, 11, 13, 17, 19, 23, 29, 31, 37, 41, 43, 47, 53, 59, 61, 67, 71, 73, 79, 83, 89, 97,
    101, 103, 107, 109, 113, 127, 131, 137, 139, 149, 151, 157, 163, 167, 173, 179, 181, 191, 193,
    197, 199, 211, 223, 227, 229, 233, 239, 241, 251, 257, 263, 269, 271, 277, 281, 283, 293, 307,
    311]

theorem nth_prime {t : Nat} (ht : t < 64) : Nat.nth Nat.Prime t = primes.getD t 0 := by
  have htable : (List.range 312).filter Sha2.isPrime = primes := by decide +kernel
  have ht' : t < primes.length := ht
  rw [Sha2.nth_prime_eq htable ht', List.getD_eq_getElem _ _ ht']

/-- A word is the fractional part of a root whose whole part is small. -/
theorem primeRoot_of_table {n t : Nat} {c : UInt32} (hn : n ≠ 0) (ht : t < 64)
    (h : ∃ whole < 8, (whole * 2 ^ 32 + c.toNat) ^ n ≤ primes.getD t 0 * (2 ^ 32) ^ n ∧
      primes.getD t 0 * (2 ^ 32) ^ n < (whole * 2 ^ 32 + c.toNat + 1) ^ n) :
    toWord (Sha2.primeRoot n t) = c := by
  rcases h with ⟨whole, -, hlow, hhigh⟩
  rw [Sha2.primeRoot_eq hn (nth_prime ht) hlow hhigh]
  apply UInt32.toNat_inj.mp
  have hlt : c.toNat < 2 ^ 32 := c.toNat_lt
  show (BitVec.ofNat 32 (whole * 2 ^ 32 + c.toNat)).toNat = c.toNat
  rw [BitVec.toNat_ofNat]
  omega

theorem k_eq {t : Nat} (ht : t < 64) : k.getD t 0 = toWord (Sha2.roundConstant t) := by
  have hall : ∀ t < 64, ∃ whole < 8,
      (whole * 2 ^ 32 + (k.getD t 0).toNat) ^ 3 ≤ primes.getD t 0 * (2 ^ 32) ^ 3 ∧
        primes.getD t 0 * (2 ^ 32) ^ 3 < (whole * 2 ^ 32 + (k.getD t 0).toNat + 1) ^ 3 := by
    decide +kernel
  exact (primeRoot_of_table (by decide) ht (hall t ht)).symm

theorem h0_eq : h0 = Sha2.initialHash.toList.map toWord := by
  have hall : ∀ t < 8, ∃ whole < 8,
      (whole * 2 ^ 32 + (h0.getD t 0).toNat) ^ 2 ≤ primes.getD t 0 * (2 ^ 32) ^ 2 ∧
        primes.getD t 0 * (2 ^ 32) ^ 2 < (whole * 2 ^ 32 + (h0.getD t 0).toNat + 1) ^ 2 := by
    decide +kernel
  have hroot : ∀ t < 8, toWord (Sha2.primeRoot 2 t) = h0.getD t 0 :=
    fun t ht => primeRoot_of_table (by decide) (by omega) (hall t ht)
  simp only [Sha2.initialHash, Work.toList, List.map_cons, List.map_nil, hroot _ (by decide : 0 < 8),
    hroot _ (by decide : 1 < 8), hroot _ (by decide : 2 < 8), hroot _ (by decide : 3 < 8),
    hroot _ (by decide : 4 < 8), hroot _ (by decide : 5 < 8), hroot _ (by decide : 6 < 8),
    hroot _ (by decide : 7 < 8)]
  rfl

end Constants

/-! ## Padding -/

section Padding

variable {input msg : Bytes} {fuel z : Nat}

theorem pushZeros_eq (h : (msg.length + z) % 64 = 56)
    (hleast : ∀ j < z, (msg.length + j) % 64 ≠ 56) (hfuel : z ≤ fuel) :
    pushZeros fuel msg = msg ++ List.replicate z 0 := by
  induction z generalizing fuel msg with
  | zero =>
    rw [List.replicate_zero, List.append_nil]
    cases fuel with
    | zero => rfl
    | succ fuel =>
      have hdone : ¬ msg.length % 64 ≠ 56 := not_not.mpr h
      rw [pushZeros, if_neg hdone]
  | succ z ih =>
    rcases Nat.exists_eq_add_of_le' hfuel with ⟨fuel, rfl⟩
    have hnow : msg.length % 64 ≠ 56 := hleast 0 (Nat.succ_pos z)
    have hlength : (msg ++ [0]).length = msg.length + 1 := List.length_append
    have hnext : ((msg ++ [0]).length + z) % 64 = 56 := by
      rw [hlength, Nat.add_assoc, Nat.add_comm 1 z]
      exact h
    have hleast' : ∀ j < z, ((msg ++ [0]).length + j) % 64 ≠ 56 := by
      intro j hj
      rw [hlength, Nat.add_assoc, Nat.add_comm 1 j]
      exact hleast (j + 1) (Nat.succ_lt_succ hj)
    rw [← Nat.add_assoc, pushZeros, if_pos hnow, ih hnext hleast' (Nat.le_add_left z fuel),
      List.append_assoc, List.replicate_succ]
    rfl

/-- The zero bytes behind the marker. -/
def fill (len : Nat) : Nat := (119 - len % 64) % 64

theorem pad_eq (input : Bytes) : pad input =
    input ++ 0x80 :: List.replicate (fill input.length) 0 ++
      toBeBytes (UInt64.ofNat input.length * 8) := by
  have hlength : (input ++ [0x80]).length = input.length + 1 := List.length_append
  have hpush : pushZeros 64 (input ++ [0x80]) =
      input ++ [0x80] ++ List.replicate (fill input.length) 0 := by
    apply pushZeros_eq
    · rw [hlength, fill]
      omega
    · intro j hj
      rw [hlength]
      rw [fill] at hj
      omega
    · rw [fill]
      omega
  rw [pad, hpush, List.append_assoc input]
  rfl

theorem length_pad (input : Bytes) : (pad input).length = 64 * ((input.length + 9 + 63) / 64) := by
  have hlen : (toBeBytes (UInt64.ofNat input.length * 8)).length = 8 := rfl
  rw [pad_eq, List.length_append, List.length_append, List.length_cons, List.length_replicate, hlen,
    fill]
  omega

/-- The length field. -/
theorem ofBytes_toBeBytes (n : UInt64) : Bits.ofBytes (toBeBytes n) = Bits.ofNat 64 n.toNat := by
  have hbyte : ∀ s : UInt64, s.toNat < 64 →
      Bits.ofNat 8 (n >>> s).toUInt8.toNat = Bits.ofNat 8 (n.toNat / 2 ^ s.toNat) := by
    intro s hs
    rw [UInt64.toNat_toUInt8, UInt64.toNat_shiftRight, Nat.mod_eq_of_lt hs,
      Nat.shiftRight_eq_div_pow, Bits.ofNat_mod (Nat.le_refl 8)]
  have h64 : Bits.ofNat 64 n.toNat = _ := Bits.ofNat_add 8 56 n.toNat
  have h56 : Bits.ofNat 56 n.toNat = _ := Bits.ofNat_add 8 48 n.toNat
  have h48 : Bits.ofNat 48 n.toNat = _ := Bits.ofNat_add 8 40 n.toNat
  have h40 : Bits.ofNat 40 n.toNat = _ := Bits.ofNat_add 8 32 n.toNat
  have h32 : Bits.ofNat 32 n.toNat = _ := Bits.ofNat_add 8 24 n.toNat
  have h24 : Bits.ofNat 24 n.toNat = _ := Bits.ofNat_add 8 16 n.toNat
  have h16 : Bits.ofNat 16 n.toNat = _ := Bits.ofNat_add 8 8 n.toNat
  have h8 : Bits.ofNat 8 (n >>> 0).toUInt8.toNat = Bits.ofNat 8 n.toNat := by
    rw [hbyte 0 (by decide), UInt64.toNat_zero, Nat.pow_zero, Nat.div_one]
  rw [h64, h56, h48, h40, h32, h24, h16]
  simp only [toBeBytes, List.map_cons, List.map_nil, Bits.ofBytes_cons, Bits.ofBytes_nil, h8,
    List.append_nil, hbyte 56 (by decide), hbyte 48 (by decide), hbyte 40 (by decide),
    hbyte 32 (by decide), hbyte 24 (by decide), hbyte 16 (by decide), hbyte 8 (by decide)]
  rfl

/-- The padded bytes are the padded bits. -/
theorem ofBytes_pad (h : input.length < 2 ^ 61) :
    Bits.ofBytes (pad input) = Sha2.pad (Bits.ofBytes input) := by
  have hzeros : Sha2.zeros (8 * input.length) = 7 + 8 * fill input.length := by
    apply Sha2.zeros_eq
    · rw [fill]
      omega
    · intro j hj
      rw [fill]
      omega
  have hlength : (UInt64.ofNat input.length * 8).toNat = 8 * input.length := by
    rw [UInt64.toNat_mul, UInt64.toNat_ofNat']
    simp only [UInt64.reduceToNat]
    omega
  have hmarker : Bits.ofNat 8 (0x80 : UInt8).toNat = true :: List.replicate 7 false := by decide
  have hzero : ∀ n, Bits.ofBytes (List.replicate n 0) = List.replicate (8 * n) false := by
    intro n
    induction n with
    | zero => rfl
    | succ n ih =>
      have hbyte : Bits.ofNat 8 (0 : UInt8).toNat = List.replicate 8 false := Bits.ofNat_zero 8
      rw [List.replicate_succ, Bits.ofBytes_cons, ih, hbyte, List.replicate_append_replicate,
        Nat.mul_succ, Nat.add_comm]
  rw [pad_eq, Sha2.pad, Bits.ofBytes_append, Bits.ofBytes_append, Bits.ofBytes_cons, hmarker, hzero,
    ofBytes_toBeBytes, hlength, Bits.length_ofBytes, hzeros, ← List.replicate_append_replicate]
  rfl

end Padding

/-! ## Words -/

section Words

variable {msg block : Bytes} {a b c d : UInt8} {x : Word} {M : Nat → Word}

/-- The word of four bytes. -/
theorem word_eq : a.toUInt32 <<< 24 ||| b.toUInt32 <<< 16 ||| c.toUInt32 <<< 8 ||| d.toUInt32 =
    toWord (BitVec.ofNat 32 (Bits.value (Bits.ofBytes [a, b, c, d]))) := by
  have ha := a.toNat_lt
  have hb := b.toNat_lt
  have hc := c.toNat_lt
  have hd := d.toNat_lt
  have hvalue : Bits.value (Bits.ofBytes [a, b, c, d]) =
      a.toNat * 2 ^ 24 + (b.toNat * 2 ^ 16 + (c.toNat * 2 ^ 8 + d.toNat)) := by
    have hnil : Bits.value (Bits.ofBytes []) = 0 := rfl
    simp only [Bits.value_ofBytes_cons, List.length_cons, List.length_nil, hnil]
    norm_num
  have hor : ∀ (i x y : Nat), y < 2 ^ i → x * 2 ^ i ||| y = x * 2 ^ i + y := by
    intro i x y hy
    rw [Nat.mul_comm, Nat.two_pow_add_eq_or_of_lt hy]
  have hshift : ∀ (v s : UInt32), s.toNat < 32 → v.toNat * 2 ^ s.toNat < 2 ^ 32 →
      (v <<< s).toNat = v.toNat * 2 ^ s.toNat := by
    intro v s hs hv
    rw [UInt32.toNat_shiftLeft, Nat.mod_eq_of_lt hs, Nat.shiftLeft_eq, Nat.mod_eq_of_lt hv]
  have h24 : (a.toUInt32 <<< 24).toNat = a.toNat * 2 ^ 24 :=
    hshift _ 24 (by decide) (by simp only [UInt8.toNat_toUInt32, UInt32.reduceToNat]; omega)
  have h16 : (b.toUInt32 <<< 16).toNat = b.toNat * 2 ^ 16 :=
    hshift _ 16 (by decide) (by simp only [UInt8.toNat_toUInt32, UInt32.reduceToNat]; omega)
  have h8 : (c.toUInt32 <<< 8).toNat = c.toNat * 2 ^ 8 :=
    hshift _ 8 (by decide) (by simp only [UInt8.toNat_toUInt32, UInt32.reduceToNat]; omega)
  apply UInt32.toNat_inj.mp
  show _ = (BitVec.ofNat 32 (Bits.value (Bits.ofBytes [a, b, c, d]))).toNat
  -- each byte lands below the ones in front of it
  rw [hvalue, BitVec.toNat_ofNat, UInt32.toNat_or, UInt32.toNat_or, UInt32.toNat_or, h24, h16, h8,
    UInt8.toNat_toUInt32, Nat.or_assoc, Nat.or_assoc, hor 8 _ _ hd, hor 16 _ _ (by omega),
    hor 24 _ _ (by omega)]
  omega

theorem length_beWords : (beWords block).length = block.length / 4 := by
  fun_induction beWords block with
  | case1 a b c d rest ih =>
    rw [List.length_cons, ih]
    simp only [List.length_cons]
    omega
  | case2 block hshort =>
    rcases block with _ | ⟨a, _ | ⟨b, _ | ⟨c, _ | ⟨d, rest⟩⟩⟩⟩
    · rfl
    · simp
    · simp
    · simp
    · exact (hshort a b c d rest rfl).elim

theorem getElem_beWords {t : Nat} (ht : t < (beWords block).length) : (beWords block)[t] =
    toWord (BitVec.ofNat 32 (Bits.value (Bits.ofBytes ((block.drop (4 * t)).take 4)))) := by
  induction t generalizing block with
  | zero =>
    rcases block with _ | ⟨a, _ | ⟨b, _ | ⟨c, _ | ⟨d, rest⟩⟩⟩⟩
    · cases ht
    · cases ht
    · cases ht
    · cases ht
    · exact word_eq
  | succ t ih =>
    rcases block with _ | ⟨a, _ | ⟨b, _ | ⟨c, _ | ⟨d, rest⟩⟩⟩⟩
    · cases ht
    · cases ht
    · cases ht
    · cases ht
    · exact ih (Nat.lt_of_succ_lt_succ ht)

/-- The words of a block of the message. -/
theorem beWords_block {i : Nat} (h : 64 * (i + 1) ≤ msg.length) :
    beWords ((msg.drop (64 * i)).take 64) =
      (List.range 16).map fun t => toWord (Sha2.messageWord (Bits.ofBytes msg) i t) := by
  have hlen : ((msg.drop (64 * i)).take 64).length = 64 := by
    rw [List.length_take, List.length_drop]
    omega
  apply List.ext_getElem
  · rw [length_beWords, hlen, List.length_map, List.length_range]
  · intro t ht ht'
    have ht16 : t < 16 := by
      rw [length_beWords, hlen] at ht
      exact ht
    have hbytes : ((((msg.drop (64 * i)).take 64).drop (4 * t)).take 4) =
        (msg.drop (64 * i + 4 * t)).take 4 := by
      have hmin : min 4 (64 - 4 * t) = 4 := by omega
      rw [List.drop_take, List.drop_drop, List.take_take, hmin]
    have hbits : Bits.ofBytes ((msg.drop (64 * i + 4 * t)).take 4) =
        ((Bits.ofBytes msg).drop (512 * i + 32 * t)).take 32 := by
      have hstart : 8 * (64 * i + 4 * t) = 512 * i + 32 * t := by omega
      rw [Bits.ofBytes_take, Bits.ofBytes_drop, hstart]
    rw [getElem_beWords, hbytes, hbits, List.getElem_map, List.getElem_range]
    rfl

end Words

/-! ## Schedule and rounds -/

section Rounds

variable {block : Bytes} {x y z : Word} {M : Nat → Word}

theorem rotateRight_eq {n : UInt32} (hn : 0 < n.toNat) (hn' : n.toNat < 32) :
    rotateRight (toWord x) n = toWord (x.rotateRight n.toNat) := by
  have hsub : (32 - n).toNat = 32 - n.toNat := by
    have hle : n ≤ 32 := UInt32.le_iff_toNat_le.mpr (Nat.le_of_lt hn')
    rw [UInt32.toNat_sub_of_le _ _ hle]
    rfl
  apply UInt32.toBitVec_inj.mp
  rw [rotateRight, UInt32.toBitVec_or, UInt32.toBitVec_shiftRight, UInt32.toBitVec_shiftLeft]
  show x >>> (n.toBitVec % 32#32) ||| x <<< ((32 - n).toBitVec % 32#32) = x.rotateRight n.toNat
  rw [BitVec.rotateRight_def, BitVec.ushiftRight_eq', BitVec.shiftLeft_eq', BitVec.toNat_umod,
    BitVec.toNat_umod, Nat.mod_eq_of_lt hn']
  have hleft : n.toBitVec.toNat % 32 = n.toNat := Nat.mod_eq_of_lt hn'
  have hright : (32 - n).toBitVec.toNat % 32 = 32 - n.toNat := by
    show (32 - n).toNat % 32 = 32 - n.toNat
    rw [hsub]
    omega
  show x >>> (n.toBitVec.toNat % 32) ||| x <<< ((32 - n).toBitVec.toNat % 32) = _
  rw [hleft, hright]

theorem smallSigma0_eq : rotateRight (toWord x) 7 ^^^ rotateRight (toWord x) 18 ^^^ (toWord x >>> 3) =
    toWord (Sha2.smallSigma0 x) := by
  rw [rotateRight_eq (by decide) (by decide), rotateRight_eq (by decide) (by decide)]
  rfl

theorem smallSigma1_eq :
    rotateRight (toWord x) 17 ^^^ rotateRight (toWord x) 19 ^^^ (toWord x >>> 10) =
      toWord (Sha2.smallSigma1 x) := by
  rw [rotateRight_eq (by decide) (by decide), rotateRight_eq (by decide) (by decide)]
  rfl

theorem bigSigma0_eq :
    rotateRight (toWord x) 2 ^^^ rotateRight (toWord x) 13 ^^^ rotateRight (toWord x) 22 =
      toWord (Sha2.bigSigma0 x) := by
  rw [rotateRight_eq (by decide) (by decide), rotateRight_eq (by decide) (by decide),
    rotateRight_eq (by decide) (by decide)]
  rfl

theorem bigSigma1_eq :
    rotateRight (toWord x) 6 ^^^ rotateRight (toWord x) 11 ^^^ rotateRight (toWord x) 25 =
      toWord (Sha2.bigSigma1 x) := by
  rw [rotateRight_eq (by decide) (by decide), rotateRight_eq (by decide) (by decide),
    rotateRight_eq (by decide) (by decide)]
  rfl

/-- The loop over 16..64 fills the schedule. -/
theorem schedule_eq (h : beWords block = (List.range 16).map fun t => toWord (M t)) :
    schedule block = (List.range 64).map fun t => toWord (Sha2.schedule M t) := by
  have hfirst : beWords block = (List.range 16).map fun t => toWord (Sha2.schedule M t) := by
    rw [h]
    apply List.map_congr_left
    intro t ht
    rw [Sha2.schedule, if_pos (List.mem_range.mp ht)]
  have hloop : ∀ n, (List.range' 16 n).foldl (fun w i =>
      let w15 := w.getD (i - 15) 0
      let w2 := w.getD (i - 2) 0
      let s0 := rotateRight w15 7 ^^^ rotateRight w15 18 ^^^ (w15 >>> 3)
      let s1 := rotateRight w2 17 ^^^ rotateRight w2 19 ^^^ (w2 >>> 10)
      w ++ [w.getD (i - 16) 0 + s0 + w.getD (i - 7) 0 + s1]) (beWords block) =
        (List.range (16 + n)).map fun t => toWord (Sha2.schedule M t) := by
    intro n
    induction n with
    | zero => exact hfirst
    | succ n ih =>
      have hget : ∀ t < 16 + n, ((List.range (16 + n)).map fun t =>
          toWord (Sha2.schedule M t)).getD t 0 = toWord (Sha2.schedule M t) := by
        intro t ht
        rw [List.getD_eq_getElem _ _ (by simpa using ht), List.getElem_map, List.getElem_range]
      have hlate : ¬ 16 + n < 16 := by omega
      have hnext : Sha2.schedule M (16 + n) = Sha2.schedule M (16 + n - 16) +
          Sha2.smallSigma0 (Sha2.schedule M (16 + n - 15)) + Sha2.schedule M (16 + n - 7) +
            Sha2.smallSigma1 (Sha2.schedule M (16 + n - 2)) := by
        rw [Sha2.schedule, if_neg hlate]
        ac_rfl
      rw [List.range'_1_concat, List.foldl_append, ih, List.foldl_cons, List.foldl_nil,
        hget _ (by omega), hget _ (by omega), hget _ (by omega), hget _ (by omega)]
      simp only [smallSigma0_eq, smallSigma1_eq]
      rw [← Nat.add_assoc, List.range_succ, List.map_append, List.map_singleton, hnext]
      rfl
  exact hloop 48

/-- The working variables of the standard. -/
def ofWork (v : Work) : Vars :=
  ⟨toWord v.a, toWord v.b, toWord v.c, toWord v.d, toWord v.e, toWord v.f, toWord v.g, toWord v.h⟩

theorem round_eq (v : Work) (k w : Word) :
    round (ofWork v) (toWord k) (toWord w) = ofWork (Sha2.step v k w) := by
  have hs1 := @bigSigma1_eq v.e
  have hs0 := @bigSigma0_eq v.a
  simp only [round, ofWork] at hs0 hs1 ⊢
  rw [hs0, hs1]
  rfl

/-- The loop over 0..64 makes all steps. -/
theorem rounds_eq {w : List UInt32} {W : Nat → Word} (v : Work)
    (hw : ∀ t < 64, w.getD t 0 = toWord (W t)) :
    (List.range 64).foldl (fun v i => round v (k.getD i 0) (w.getD i 0)) (ofWork v) =
      ofWork (Sha2.rounds W v 64) := by
  have hloop : ∀ n ≤ 64,
      (List.range n).foldl (fun v i => round v (k.getD i 0) (w.getD i 0)) (ofWork v) =
        ofWork (Sha2.rounds W v n) := by
    intro n hn
    induction n with
    | zero => rfl
    | succ n ih =>
      rw [List.range_succ, List.foldl_append, ih (Nat.le_of_succ_le hn), List.foldl_cons,
        List.foldl_nil, k_eq hn, hw n hn, round_eq]
      rfl
  exact hloop 64 (Nat.le_refl 64)

/-- One block. -/
theorem compress_eq (h : beWords block = (List.range 16).map fun t => toWord (M t)) (v : Work) :
    compress (v.toList.map toWord) block =
      (v.add (Sha2.rounds (Sha2.schedule M) v 64)).toList.map toWord := by
  have hw : ∀ t < 64, (schedule block).getD t 0 = toWord (Sha2.schedule M t) := by
    intro t ht
    rw [schedule_eq h, List.getD_eq_getElem _ _ (by simpa using ht), List.getElem_map,
      List.getElem_range]
  have hrounds := rounds_eq v hw
  have hstart : (⟨(v.toList.map toWord).getD 0 0, (v.toList.map toWord).getD 1 0,
      (v.toList.map toWord).getD 2 0, (v.toList.map toWord).getD 3 0, (v.toList.map toWord).getD 4 0,
      (v.toList.map toWord).getD 5 0, (v.toList.map toWord).getD 6 0,
      (v.toList.map toWord).getD 7 0⟩ : Vars) = ofWork v := rfl
  simp only [compress]
  rw [hstart, hrounds]
  rfl

end Rounds

/-! ## Blocks -/

section Blocks

variable {msg : Bytes}

theorem blocks_eq (n : Nat) (msg : Bytes) :
    blocks n msg = (List.range n).map fun i => (msg.drop (64 * i)).take 64 := by
  induction n generalizing msg with
  | zero => rfl
  | succ n ih =>
    have htail : ∀ i, ((msg.drop 64).drop (64 * i)).take 64 = (msg.drop (64 * (i + 1))).take 64 := by
      intro i
      rw [List.drop_drop, Nat.mul_succ, Nat.add_comm]
    rw [blocks, ih, List.range_succ_eq_map, List.map_cons, List.map_map]
    simp only [htail]
    rfl

/-- The chaining of the blocks. -/
theorem foldl_blocks {n : Nat} (h : 64 * n ≤ msg.length) :
    (blocks n msg).foldl compress h0 = (Sha2.hash (Bits.ofBytes msg) n).toList.map toWord := by
  rw [blocks_eq]
  induction n with
  | zero => exact h0_eq
  | succ n ih =>
    rw [List.range_succ, List.map_append, List.foldl_append, ih (by omega), List.map_singleton,
      List.foldl_cons, List.foldl_nil, compress_eq (beWords_block h)]
    rfl

/-- The blocks of a message of whole blocks are all of it. -/
theorem flatten_blocks {n : Nat} (h : msg.length = 64 * n) : (blocks n msg).flatten = msg := by
  induction n generalizing msg with
  | zero => exact (List.eq_nil_of_length_eq_zero h).symm
  | succ n ih =>
    have htail : (msg.drop 64).length = 64 * n := by
      rw [List.length_drop, h]
      omega
    rw [blocks, List.flatten_cons, ih htail, List.take_append_drop]

end Blocks

/-! ## Hexadecimal -/

section Hex

variable {xs ys : List Bool}

theorem hex_append (h : xs.length % 4 = 0) : Sha2.hex (xs ++ ys) = Sha2.hex xs ++ Sha2.hex ys := by
  fun_induction Sha2.hex xs with
  | case1 a b c d rest ih =>
    have hrest : rest.length % 4 = 0 := by
      simp only [List.length_cons] at h
      omega
    have htail := ih hrest
    simp only [List.cons_append, Sha2.hex, htail]
  | case2 xs hshort =>
    rcases xs with _ | ⟨a, _ | ⟨b, _ | ⟨c, _ | ⟨d, rest⟩⟩⟩⟩
    · rfl
    · cases h
    · cases h
    · cases h
    · exact (hshort a b c d rest rfl).elim

theorem hex_digit (n : Nat) : Sha2.hex (Bits.ofNat 4 n) = [Nat.digitChar (n % 16)] := by
  have hvalue : Bits.value (Bits.ofNat 4 n) = n % 16 := Bits.value_ofNat 4 n
  show [Nat.digitChar (Bits.value (Bits.ofNat 4 n))] = [Nat.digitChar (n % 16)]
  rw [hvalue]

/-- A number with leading zeros. -/
theorem leftpad_toDigits {w n : Nat} (h : n < 16 ^ (w + 1)) :
    (Nat.toDigits 16 n).leftpad (w + 1) '0' = Sha2.hex (Bits.ofNat (4 * (w + 1)) n) := by
  induction w generalizing n with
  | zero =>
    have hn : n < 16 := h
    rw [Nat.toDigits_of_lt_base hn]
    show [Nat.digitChar n] = Sha2.hex (Bits.ofNat 4 n)
    rw [hex_digit, Nat.mod_eq_of_lt hn]
  | succ w ih =>
    have hquot : n / 16 < 16 ^ (w + 1) := by
      rw [Nat.div_lt_iff_lt_mul (by decide)]
      exact h
    have hsplit : Bits.ofNat (4 * (w + 1 + 1)) n = Bits.ofNat (4 * (w + 1)) (n / 16) ++ Bits.ofNat 4 n :=
      Bits.ofNat_add (4 * (w + 1)) 4 n
    have hlength : (Bits.ofNat (4 * (w + 1)) (n / 16)).length % 4 = 0 := by
      rw [Bits.length_ofNat]
      omega
    rw [hsplit, hex_append hlength, hex_digit, ← ih hquot]
    rcases Nat.lt_or_ge n 16 with hsmall | hlarge
    · have hzero : n / 16 = 0 := Nat.div_eq_of_lt hsmall
      rw [Nat.toDigits_of_lt_base hsmall, hzero, Nat.toDigits_zero, Nat.mod_eq_of_lt hsmall]
      simp only [List.leftpad, List.length_singleton, Nat.add_sub_cancel]
      rw [List.replicate_succ']
    · rw [Nat.toDigits_of_base_le (by decide) hlarge]
      simp only [List.leftpad, List.length_append, List.length_singleton, Nat.add_sub_add_right,
        List.append_assoc]

theorem hexWord_eq (x : Word) : hexWord (toWord x) = String.ofList (Sha2.hex (Bits.ofNat 32 x.toNat)) := by
  have hlt : x.toNat < 16 ^ (7 + 1) := x.isLt
  rw [hexWord]
  exact congrArg String.ofList (leftpad_toDigits hlt)

/-- The words one by one, or all at once. -/
theorem join_hexWord (words : List Word) : String.join ((words.map toWord).map hexWord) =
    String.ofList (Sha2.hex (words.flatMap fun x => Bits.ofNat 32 x.toNat)) := by
  induction words with
  | nil => rfl
  | cons x words ih =>
    have hlength : (Bits.ofNat 32 x.toNat).length % 4 = 0 := by
      rw [Bits.length_ofNat]
    rw [List.map_cons, List.map_cons, String.join_cons, ih, hexWord_eq, List.flatMap_cons,
      hex_append hlength, String.ofList_append]

end Hex

end Sha256

open Sha256

/-- What is required of the digest of a byte string. -/
structure DigestExact (input : Bytes) : Prop where
  digest : sha256Hex input = String.ofList (Sha2.hex (Sha2.digest (Bits.ofBytes input)))
  multiple : (pad input).length % 64 = 0
  whole : (blocks ((pad input).length / 64) (pad input)).flatten = pad input
  count : (blocks ((pad input).length / 64) (pad input)).length = (input.length + 9) ⌈/⌉ 64

/-- The digest is the one of the standard. -/
theorem sha256Hex_exact {input : Bytes} (h : input.length < 2 ^ 61) : DigestExact input := by
  have hlength := length_pad input
  have hcount : (pad input).length / 64 = (input.length + 9 + 63) / 64 := by omega
  have hbits : (Bits.ofBytes (pad input)).length / 512 = (pad input).length / 64 := by
    rw [Bits.length_ofBytes]
    omega
  refine ⟨?_, by omega, flatten_blocks (by omega), ?_⟩
  · rw [sha256Hex, foldl_blocks (by omega), join_hexWord, Sha2.digest, ← ofBytes_pad h, hbits]
  · rw [blocks_eq, List.length_map, List.length_range, hcount, Nat.ceilDiv_eq_add_pred_div]
    rfl

/-- The digest of three letters. -/
theorem sha256Hex_abc_exact : (utf8 "abc").length < 2 ^ 61 ∧ DigestExact (utf8 "abc") := by
  have hlength : (utf8 "abc").length < 2 ^ 61 := by decide +kernel
  exact ⟨hlength, sha256Hex_exact hlength⟩

end FerroHttp
