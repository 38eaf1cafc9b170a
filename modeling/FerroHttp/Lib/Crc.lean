import FerroHttp.Lib.Bits
import Mathlib.Algebra.CharP.Two
import Mathlib.Algebra.Field.ZMod
import Mathlib.Algebra.Polynomial.Div
import Mathlib.Algebra.Polynomial.RingDivision

/-!
# Crc — cyclic redundancy checks

A checksum as a remainder of polynomials over the field of two elements, and the reflected
shift register that computes it:

1. `reg_step`: one step of the register multiplies by `X` and reduces;
2. `reg_absorb`: bits put into the register first, then stepped over, extend the message.
-/

namespace Crc

open Polynomial

/-! ## Bit strings as polynomials -/

/-- A bit as a number modulo two. -/
def bit (b : Bool) : ZMod 2 := if b then 1 else 0

/-- The polynomial of a bit string: the first bit is the highest coefficient. -/
noncomputable def ofBits : List Bool → (ZMod 2)[X]
  | [] => 0
  | b :: bs => C (bit b) * X ^ bs.length + ofBits bs

/-- The generator of degree `w` whose lower coefficients are the bits of `n`. -/
noncomputable def generator (w n : ℕ) : (ZMod 2)[X] := X ^ w + ofBits (Bits.ofNat w n)

/-- The remainder of a message by a generator, from an initial register. -/
noncomputable def remainder (g : (ZMod 2)[X]) (init m : List Bool) : (ZMod 2)[X] :=
  (ofBits init * X ^ m.length + ofBits m * X ^ init.length) %ₘ g

/-- Bytes with the lowest bit in front. -/
def reflected (bytes : List UInt8) : List Bool :=
  bytes.flatMap fun b => (Bits.ofNat 8 b.toNat).reverse

/-- CRC-32: the complement of the remainder, read with the lowest coefficient as the
highest bit. -/
noncomputable def crc32 (bytes : List UInt8) : ℕ :=
  let r := remainder (generator 32 0x04c11db7) (List.replicate 32 true) (reflected bytes)
  Bits.value ((List.range 32).map fun i => decide (r.coeff i = 0))

section OfBits

variable {a b : Bool} {xs ys : List Bool}

theorem bit_xor : bit (a ^^ b) = bit a + bit b := by
  cases a with
  | false => cases b <;> rfl
  | true => cases b <;> rfl

theorem ofBits_append : ofBits (xs ++ ys) = ofBits xs * X ^ ys.length + ofBits ys := by
  induction xs with
  | nil => simp [ofBits]
  | cons x xs ih =>
    rw [List.cons_append, ofBits, ofBits, ih, List.length_append]
    ring

theorem ofBits_zeros (n : ℕ) : ofBits (List.replicate n false) = 0 := by
  induction n with
  | zero => rfl
  | succ n ih => rw [List.replicate_succ, ofBits, ih, bit, if_neg Bool.false_ne_true, C_0, zero_mul, add_zero]

/-- The last bit is the coefficient of `X ^ 0`. -/
theorem coeff_ofBits (bs : List Bool) (k : ℕ) :
    (ofBits bs).coeff k = bit (bs.reverse[k]?.getD false) := by
  induction bs with
  | nil => rfl
  | cons b bs ih =>
    have hlength : bs.reverse.length = bs.length := List.length_reverse
    rw [ofBits, coeff_add, coeff_C_mul_X_pow, ih, List.reverse_cons]
    rcases lt_trichotomy k bs.length with h | rfl | h
    · rw [if_neg (Nat.ne_of_lt h), zero_add, List.getElem?_append_left (by omega)]
    · have hnone : bs.reverse[bs.length]? = none := List.getElem?_eq_none (by omega)
      rw [if_pos rfl, hnone, List.getElem?_append_right (by omega), hlength, Nat.sub_self]
      exact add_zero _
    · have hnone : bs.reverse[k]? = none := List.getElem?_eq_none (by omega)
      have hnone' : (bs.reverse ++ [b])[k]? = none :=
        List.getElem?_eq_none (by rw [List.length_append, hlength]; exact h)
      rw [if_neg (Nat.ne_of_gt h), zero_add, hnone, hnone']

theorem degree_ofBits_lt (bs : List Bool) : (ofBits bs).degree < bs.length := by
  rw [degree_lt_iff_coeff_zero]
  intro k hk
  rw [coeff_ofBits, List.getElem?_eq_none (by rw [List.length_reverse]; exact hk)]
  rfl

theorem degree_X_pow_add {w : ℕ} {p : (ZMod 2)[X]} (h : p.degree < w) :
    (X ^ w + p).degree = (w : WithBot ℕ) := by
  rw [degree_add_eq_left_of_degree_lt (by rwa [degree_X_pow]), degree_X_pow]

theorem generator_monic (w n : ℕ) : (generator w n).Monic := by
  have hdegree := degree_ofBits_lt (Bits.ofNat w n)
  rw [Bits.length_ofNat] at hdegree
  exact monic_X_pow_add hdegree

end OfBits

/-! ## Remainders -/

section Remainder

variable {g : (ZMod 2)[X]} {init m : List Bool}

theorem mod_congr {p q r : (ZMod 2)[X]} : (p * (q %ₘ g) + r) %ₘ g = (p * q + r) %ₘ g := by
  by_cases hg : g.Monic
  · apply modByMonic_eq_of_dvd_sub hg
    have hfactor : p * (q %ₘ g) + r - (p * q + r) = p * (q %ₘ g - q) := by ring
    rw [hfactor]
    exact Dvd.dvd.mul_left (dvd_modByMonic_sub q g) p
  · rw [modByMonic_eq_of_not_monic q hg]

/-- A longer message. -/
theorem remainder_append (bits : List Bool) : remainder g init (m ++ bits) =
    (X ^ bits.length * remainder g init m + ofBits bits * X ^ init.length) %ₘ g := by
  rw [remainder, remainder, mod_congr, ofBits_append, List.length_append]
  congr 1
  ring

/-- No message leaves the initial register. -/
theorem remainder_nil (hg : g.Monic) (hdegree : g.degree = init.length) :
    remainder g init [] = ofBits init := by
  have hlt : (ofBits init).degree < g.degree := by
    rw [hdegree]
    exact degree_ofBits_lt init
  have hsum : ofBits init * X ^ ([] : List Bool).length + ofBits [] * X ^ init.length = ofBits init := by
    simp [ofBits]
  rw [remainder, hsum, (modByMonic_eq_self_iff hg).mpr hlt]

end Remainder

/-! ## The reflected register -/

section Register

variable {w n : ℕ} {c d : BitVec w}

/-- The polynomial of a register: the lowest bit is the highest coefficient. -/
noncomputable def reg (c : BitVec w) : (ZMod 2)[X] := ofBits (Bits.ofNat w c.toNat).reverse

/-- One step: shift down, and reduce when a bit falls out. -/
def step (poly c : BitVec w) : BitVec w := c >>> 1 ^^^ if c.getLsbD 0 then poly else 0

theorem coeff_reg (c : BitVec w) (k : ℕ) :
    (reg c).coeff k = if k < w then bit (c.getLsbD (w - 1 - k)) else 0 := by
  rw [reg, coeff_ofBits, List.reverse_reverse, Bits.getElem?_ofNat]
  by_cases hk : k < w
  · rw [if_pos hk, if_pos hk]
    rfl
  · rw [if_neg hk, if_neg hk]
    rfl

theorem reg_xor : reg (c ^^^ d) = reg c + reg d := by
  ext k
  rw [coeff_add, coeff_reg, coeff_reg, coeff_reg]
  by_cases hk : k < w
  · rw [if_pos hk, if_pos hk, if_pos hk, BitVec.getLsbD_xor, bit_xor]
  · rw [if_neg hk, if_neg hk, if_neg hk, add_zero]

theorem degree_reg_lt (c : BitVec w) : (reg c).degree < w := by
  have hdegree := degree_ofBits_lt (Bits.ofNat w c.toNat).reverse
  rw [List.length_reverse, Bits.length_ofNat] at hdegree
  exact hdegree

/-- A step takes the generator away from `X` times the register, as often as it fits. -/
theorem X_mul_reg (hw : 0 < w) (poly c : BitVec w) :
    X * reg c = reg (step poly c) + (X ^ w + reg poly) * C (bit (c.getLsbD 0)) := by
  have hselect : ∀ i, (step poly c).getLsbD i = (c.getLsbD (1 + i) ^^ (c.getLsbD 0 && poly.getLsbD i)) := by
    intro i
    rw [step, BitVec.getLsbD_xor, BitVec.getLsbD_ushiftRight]
    cases c.getLsbD 0 with
    | false => simp
    | true => simp
  have hand : ∀ a b : Bool, bit (a && b) = bit b * bit a := by
    intro a b
    cases a with
    | false => simp [bit]
    | true => simp [bit]
  have hcancel : ∀ x y : ZMod 2, x + y + y = x := by
    intro x y
    rw [add_assoc, CharTwo.add_self_eq_zero, add_zero]
  ext k
  rw [coeff_add, coeff_mul_C, coeff_add, coeff_X_pow, coeff_reg (step poly c), coeff_reg poly, hselect,
    bit_xor, hand]
  rcases k with _ | k
  · -- what the shift drops in at the top comes from the generator alone
    have hhigh : c.getLsbD (1 + (w - 1 - 0)) = false := BitVec.getLsbD_of_ge _ _ (by omega)
    have hne : ¬ 0 = w := Nat.ne_of_lt hw
    rw [coeff_X_mul_zero, if_pos hw, if_neg hne, if_pos hw, hhigh, zero_add]
    exact (hcancel 0 _).symm
  · rw [coeff_X_mul, coeff_reg]
    rcases lt_trichotomy (k + 1) w with hlt | heq | hgt
    · have hindex : 1 + (w - 1 - (k + 1)) = w - 1 - k := by omega
      rw [if_pos (Nat.lt_of_succ_lt hlt), if_pos hlt, if_neg (Nat.ne_of_lt hlt), if_pos hlt, hindex,
        zero_add, hcancel]
    · have hindex : w - 1 - k = 0 := by omega
      have hnot : ¬ k + 1 < w := by omega
      rw [if_pos (by omega), if_neg hnot, if_pos heq, if_neg hnot, hindex, zero_add, add_zero, one_mul]
    · have hnot : ¬ k + 1 < w := by omega
      rw [if_neg (by omega), if_neg hnot, if_neg (Nat.ne_of_gt hgt), if_neg hnot, add_zero, zero_mul,
        add_zero]

/-- One step of the register. -/
theorem reg_step (hw : 0 < w) (poly c : BitVec w) :
    reg (step poly c) = (X * reg c) %ₘ (X ^ w + reg poly) := by
  have hmonic : (X ^ w + reg poly).Monic := monic_X_pow_add (degree_reg_lt poly)
  have hdegree : (X ^ w + reg poly).degree = (w : WithBot ℕ) :=
    degree_X_pow_add (degree_reg_lt poly)
  have hlt : (reg (step poly c)).degree < (X ^ w + reg poly).degree := by
    rw [hdegree]
    exact degree_reg_lt _
  rw [X_mul_reg hw poly c]
  exact ((div_modByMonic_unique _ _ hmonic ⟨rfl, hlt⟩).2).symm

theorem reg_steps (hw : 0 < w) (poly : BitVec w) (n : ℕ) (c : BitVec w) :
    reg ((step poly)^[n] c) = (X ^ n * reg c) %ₘ (X ^ w + reg poly) := by
  have hmonic : (X ^ w + reg poly).Monic := monic_X_pow_add (degree_reg_lt poly)
  have hdegree : (X ^ w + reg poly).degree = (w : WithBot ℕ) :=
    degree_X_pow_add (degree_reg_lt poly)
  induction n with
  | zero =>
    have hlt : (reg c).degree < (X ^ w + reg poly).degree := by
      rw [hdegree]
      exact degree_reg_lt c
    rw [pow_zero, one_mul, (modByMonic_eq_self_iff hmonic).mpr hlt]
    rfl
  | succ n ih =>
    have hcongr := @mod_congr (X ^ w + reg poly) X (X ^ n * reg c) 0
    rw [add_zero, add_zero] at hcongr
    rw [Function.iterate_succ_apply', reg_step hw, ih, hcongr, pow_succ]
    congr 1
    ring

/-- Bits put into the register and stepped over extend the message. -/
theorem reg_absorb {init m bits : List Bool} (hw : 0 < w) {poly c d : BitVec w}
    (hinit : init.length = w) (hc : reg c = remainder (X ^ w + reg poly) init m)
    (hbits : bits.length ≤ w) (hd : reg d = ofBits bits * X ^ (w - bits.length)) :
    reg ((step poly)^[bits.length] (c ^^^ d)) =
      remainder (X ^ w + reg poly) init (m ++ bits) := by
  have hpow : X ^ bits.length * (ofBits bits * X ^ (w - bits.length)) = ofBits bits * X ^ w := by
    rw [mul_left_comm, ← pow_add, Nat.add_sub_cancel' hbits]
  rw [reg_steps hw, reg_xor, mul_add, hd, hpow, hc, remainder_append, hinit]

/-- The complement of the register is that of the remainder, read backwards. -/
theorem toNat_not {r : (ZMod 2)[X]} (h : reg c = r) :
    (~~~c).toNat = Bits.value ((List.range w).map fun i => decide (r.coeff i = 0)) := by
  have hnot : ∀ b : Bool, decide (bit b = 0) = !b := by
    intro b
    cases b with
    | false => rfl
    | true => rfl
  have hbits : ((List.range w).map fun i => decide (r.coeff i = 0)) = Bits.ofNat w (~~~c).toNat := by
    apply List.ext_getElem?
    intro k
    rw [Bits.getElem?_ofNat, List.getElem?_map, ← h]
    by_cases hk : k < w
    · have hbit : (~~~c).getLsbD (w - 1 - k) = !c.getLsbD (w - 1 - k) := by
        have hlt : w - 1 - k < w := by omega
        simp [hlt]
      rw [List.getElem?_range hk, if_pos hk, Option.map_some, coeff_reg, if_pos hk, hnot, ← hbit]
      rfl
    · rw [if_neg hk, List.getElem?_eq_none (by simpa using hk)]
      rfl
  rw [hbits, Bits.value_ofNat, Nat.mod_eq_of_lt (~~~c).isLt]

end Register

end Crc
