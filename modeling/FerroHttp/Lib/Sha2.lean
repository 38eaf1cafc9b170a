import FerroHttp.Lib.Bits
import Mathlib.Analysis.SpecialFunctions.Pow.Real
import Mathlib.NumberTheory.PrimeCounting

/-!
# Sha2 — SHA-256 as FIPS 180-4 defines it

The functions, constants, padding and schedule of the standard, over bit strings of any
length. A program has its constants in tables; `primeRoot_eq` is how a table is compared
with the roots of the primes.
-/

namespace Sha2

abbrev Word := BitVec 32

/-! ## Functions -/

def ch (x y z : Word) : Word := (x &&& y) ^^^ (~~~x &&& z)

def maj (x y z : Word) : Word := (x &&& y) ^^^ (x &&& z) ^^^ (y &&& z)

/-- Σ₀ -/
def bigSigma0 (x : Word) : Word := x.rotateRight 2 ^^^ x.rotateRight 13 ^^^ x.rotateRight 22

/-- Σ₁ -/
def bigSigma1 (x : Word) : Word := x.rotateRight 6 ^^^ x.rotateRight 11 ^^^ x.rotateRight 25

/-- σ₀ -/
def smallSigma0 (x : Word) : Word := x.rotateRight 7 ^^^ x.rotateRight 18 ^^^ x >>> 3

/-- σ₁ -/
def smallSigma1 (x : Word) : Word := x.rotateRight 17 ^^^ x.rotateRight 19 ^^^ x >>> 10

/-! ## Constants -/

/-- The first thirty-two bits of the fractional part of the `n`-th root of the prime
number `t`, counted from zero. -/
noncomputable def primeRoot (n t : ℕ) : Word :=
  BitVec.ofNat 32 ⌊Int.fract ((Nat.nth Nat.Prime t : ℝ) ^ (n : ℝ)⁻¹) * 2 ^ 32⌋₊

/-- The round constants come from cube roots. -/
noncomputable def roundConstant (t : ℕ) : Word := primeRoot 3 t

/-! ## Padding -/

/-- How many zeros follow the one: as few as leave room for the length in the last block. -/
noncomputable def zeros (l : ℕ) : ℕ := sInf {k | (l + 1 + k) % 512 = 448}

/-- A message with its padding. -/
noncomputable def pad (m : List Bool) : List Bool :=
  m ++ true :: List.replicate (zeros m.length) false ++ Bits.ofNat 64 m.length

/-- The word `t` of the block `i`. -/
def messageWord (padded : List Bool) (i t : ℕ) : Word :=
  BitVec.ofNat 32 (Bits.value ((padded.drop (512 * i + 32 * t)).take 32))

/-! ## Computation -/

/-- The message schedule of a block. -/
def schedule (block : ℕ → Word) (t : ℕ) : Word :=
  if t < 16 then block t
  else smallSigma1 (schedule block (t - 2)) + schedule block (t - 7) +
    smallSigma0 (schedule block (t - 15)) + schedule block (t - 16)
termination_by t

/-- Eight words: the working variables, and the intermediate hash values. -/
structure Work where
  a : Word
  b : Word
  c : Word
  d : Word
  e : Word
  f : Word
  g : Word
  h : Word

def Work.toList (v : Work) : List Word := [v.a, v.b, v.c, v.d, v.e, v.f, v.g, v.h]

def Work.add (v v' : Work) : Work :=
  ⟨v.a + v'.a, v.b + v'.b, v.c + v'.c, v.d + v'.d, v.e + v'.e, v.f + v'.f, v.g + v'.g, v.h + v'.h⟩

/-- The initial hash value comes from square roots. -/
noncomputable def initialHash : Work :=
  ⟨primeRoot 2 0, primeRoot 2 1, primeRoot 2 2, primeRoot 2 3,
    primeRoot 2 4, primeRoot 2 5, primeRoot 2 6, primeRoot 2 7⟩

def step (v : Work) (k w : Word) : Work :=
  let t1 := v.h + bigSigma1 v.e + ch v.e v.f v.g + k + w
  let t2 := bigSigma0 v.a + maj v.a v.b v.c
  ⟨t1 + t2, v.a, v.b, v.c, v.d + t1, v.e, v.f, v.g⟩

/-- The working variables after so many steps. -/
noncomputable def rounds (w : ℕ → Word) (v : Work) : ℕ → Work
  | 0 => v
  | t + 1 => step (rounds w v t) (roundConstant t) (w t)

/-- The hash value after so many blocks. -/
noncomputable def hash (padded : List Bool) : ℕ → Work
  | 0 => initialHash
  | i + 1 => (hash padded i).add (rounds (schedule (messageWord padded i)) (hash padded i) 64)

/-- The digest of a message, a string of 256 bits. -/
noncomputable def digest (m : List Bool) : List Bool :=
  (hash (pad m) ((pad m).length / 512)).toList.flatMap fun word => Bits.ofNat 32 word.toNat

/-- A bit string in lowercase hexadecimal. -/
def hex : List Bool → List Char
  | a :: b :: c :: d :: rest => Nat.digitChar (Bits.value [a, b, c, d]) :: hex rest
  | _ => []

/-- The zeros are least. -/
theorem zeros_eq {l k : ℕ} (h : (l + 1 + k) % 512 = 448)
    (hleast : ∀ j, (l + 1 + j) % 512 = 448 → k ≤ j) : zeros l = k :=
  IsLeast.csInf_eq ⟨h, hleast⟩

/-! ## The constants of a table -/

section Constants

variable {n t p r : ℕ}

/-- A number between two neighbours in multiples of 2⁻³². -/
theorem floor_fract {x : ℝ} (hlow : (r : ℝ) ≤ x * 2 ^ 32) (hhigh : x * 2 ^ 32 < r + 1) :
    ⌊Int.fract x * 2 ^ 32⌋₊ = r % 2 ^ 32 := by
  have hnonneg : 0 ≤ Int.fract x := Int.fract_nonneg x
  have hlt : Int.fract x < 1 := Int.fract_lt_one x
  have hpos : 0 ≤ x := by
    have hr : (0 : ℝ) ≤ r := Nat.cast_nonneg r
    nlinarith
  have hsplit : Int.fract x = x - (⌊x⌋₊ : ℝ) := by
    rw [← Int.self_sub_floor, natCast_floor_eq_intCast_floor hpos]
  -- the whole part is a multiple of 2 ^ 32 below `r`
  have hwhole : ⌊x⌋₊ * 2 ^ 32 ≤ r := by
    have hfloor : (⌊x⌋₊ : ℝ) ≤ x := Nat.floor_le hpos
    have hreal : ((⌊x⌋₊ * 2 ^ 32 : ℕ) : ℝ) < ((r + 1 : ℕ) : ℝ) := by
      push_cast
      linarith
    exact Nat.lt_succ_iff.mp (Nat.cast_lt.mp hreal)
  have hfloor : ⌊Int.fract x * 2 ^ 32⌋₊ = r - ⌊x⌋₊ * 2 ^ 32 := by
    rw [Nat.floor_eq_iff (by positivity), Nat.cast_sub hwhole]
    push_cast
    constructor <;> rw [hsplit] <;> linarith
  have hsmall : ⌊Int.fract x * 2 ^ 32⌋₊ < 2 ^ 32 := by
    rw [Nat.floor_lt (by positivity)]
    push_cast
    linarith
  omega

/-- A constant by its value in whole numbers. -/
theorem primeRoot_eq (hn : n ≠ 0) (hp : Nat.nth Nat.Prime t = p)
    (hlow : r ^ n ≤ p * (2 ^ 32) ^ n) (hhigh : p * (2 ^ 32) ^ n < (r + 1) ^ n) :
    primeRoot n t = BitVec.ofNat 32 r := by
  have hroot : ((p : ℝ) ^ (n : ℝ)⁻¹ * 2 ^ 32) ^ n = ((p * (2 ^ 32) ^ n : ℕ) : ℝ) := by
    rw [mul_pow, Real.rpow_inv_natCast_pow (Nat.cast_nonneg p) hn, Nat.cast_mul, Nat.cast_pow,
      Nat.cast_pow, Nat.cast_ofNat]
  have hnonneg : 0 ≤ (p : ℝ) ^ (n : ℝ)⁻¹ * 2 ^ 32 := by positivity
  have hle : (r : ℝ) ≤ (p : ℝ) ^ (n : ℝ)⁻¹ * 2 ^ 32 := by
    rw [← pow_le_pow_iff_left₀ (Nat.cast_nonneg r) hnonneg hn, hroot]
    exact_mod_cast hlow
  have hlt : (p : ℝ) ^ (n : ℝ)⁻¹ * 2 ^ 32 < r + 1 := by
    rw [← pow_lt_pow_iff_left₀ hnonneg (by positivity) hn, hroot]
    exact_mod_cast hhigh
  rw [primeRoot, hp, floor_fract hle hlt]
  apply BitVec.eq_of_toNat_eq
  simp

/-- Trial division. -/
def isPrime (p : ℕ) : Bool := Nat.ble 2 p && (List.range' 2 (p - 2)).all fun m => p % m != 0

theorem isPrime_iff : isPrime p = true ↔ p.Prime := by
  rw [isPrime, Bool.and_eq_true, Nat.ble_eq, List.all_eq_true, Nat.prime_def_lt']
  refine and_congr_right fun hp => forall_congr' fun m => ?_
  rw [List.mem_range'_1, bne_iff_ne, ne_eq, Nat.dvd_iff_mod_eq_zero, Nat.add_sub_cancel' hp, and_imp]

/-- The list of all numbers with a property is in the order of `Nat.nth`. -/
theorem nth_filter_range (q : ℕ → Bool) (n : ℕ) :
    ((List.range n).filter q).length = Nat.count (fun m => q m) n ∧
      ∀ t (h : t < ((List.range n).filter q).length),
        ((List.range n).filter q)[t] = Nat.nth (fun m => q m) t := by
  induction n with
  | zero => simp
  | succ n ih =>
    rcases ih with ⟨hlength, hnth⟩
    rw [Nat.count_succ]
    by_cases hq : q n = true
    · have hlist : (List.range (n + 1)).filter q = (List.range n).filter q ++ [n] := by
        rw [List.range_succ, List.filter_append, List.filter_cons_of_pos hq, List.filter_nil]
      simp only [hlist, List.length_append, List.length_singleton, if_pos hq]
      refine ⟨by omega, ?_⟩
      intro t ht
      rcases Nat.lt_or_ge t ((List.range n).filter q).length with h | h
      · rw [List.getElem_append_left h, hnth t h]
      · have hlast : t = Nat.count (fun m => q m) n := by omega
        rw [List.getElem_append_right h, List.getElem_singleton, hlast]
        exact (Nat.nth_count hq).symm
    · have hlist : (List.range (n + 1)).filter q = (List.range n).filter q := by
        rw [List.range_succ, List.filter_append, List.filter_cons_of_neg hq, List.filter_nil,
          List.append_nil]
      simp only [hlist, if_neg hq]
      exact ⟨hlength, hnth⟩

/-- The prime numbers of a table. -/
theorem nth_prime_eq {n : ℕ} {table : List ℕ} (htable : (List.range n).filter isPrime = table)
    (ht : t < table.length) : Nat.nth Nat.Prime t = table[t] := by
  have hpred : (fun m => isPrime m = true) = Nat.Prime := funext fun m => propext isPrime_iff
  subst htable
  rw [(nth_filter_range isPrime n).2 t ht, hpred]

end Constants

end Sha2
