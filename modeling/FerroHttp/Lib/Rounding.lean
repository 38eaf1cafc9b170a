import FerroHttp.Lib.Binary64

/-!
# Rounding — integers that need more than 53 bits

`roundEven` is rounding to the nearest number of 53 significant bits, ties to even, on
integers. The conversion of an integer to a float is that number (`ofNat_rounds`), which
settles how the float compares with the largest `u64` and what it converts back to.
-/

namespace Binary64

open Float.Model Float.Model.UnpackedFloat

/-- `n / 2 ^ s`, rounded to the nearest integer, ties to even. -/
def nearest (n s : Nat) : Nat :=
  let q := n / 2 ^ s
  let r := n % 2 ^ s
  if 2 * r < 2 ^ s ∨ (2 * r = 2 ^ s ∧ q % 2 = 0) then q else q + 1

/-- The nearest number of at most 53 significant bits, ties to even. -/
def roundEven (n : Nat) : Nat :=
  let s := n.log2 - 52
  nearest n s * 2 ^ s

section Integers

variable {n m s : Nat}

theorem nearest_zero (n : Nat) : nearest n 0 = n := by
  simp [nearest, Nat.mod_one]

/-- What has 53 bits is not rounded. -/
theorem roundEven_small (hn : n < 2 ^ 53) : roundEven n = n := by
  have hs : n.log2 - 52 = 0 := by
    rcases Nat.eq_zero_or_pos n with rfl | hpos
    · decide
    · have hlog := (Nat.log2_lt (by omega)).mpr hn
      omega
  rw [roundEven, hs, nearest_zero, Nat.pow_zero, Nat.mul_one]

theorem nearest_bounds (n s : Nat) : n / 2 ^ s ≤ nearest n s ∧ nearest n s ≤ n / 2 ^ s + 1 := by
  unfold nearest
  simp only
  split <;> omega

/-- The quotient has 53 bits. -/
theorem div_bounds (hn : 2 ^ 53 ≤ n) (hs : s = n.log2 - 52) :
    2 ^ 52 ≤ n / 2 ^ s ∧ n / 2 ^ s < 2 ^ 53 := by
  have hne : n ≠ 0 := by omega
  have hlog : 53 ≤ n.log2 := (Nat.le_log2 hne).mpr hn
  have hsum : n.log2 = 52 + s := by omega
  have hlow := Nat.log2_self_le hne
  have hhigh := (Nat.log2_lt hne).mp (Nat.lt_succ_self n.log2)
  rw [hsum] at hlow hhigh
  constructor
  · rw [Nat.le_div_iff_mul_le (Nat.two_pow_pos s), ← Nat.pow_add]
    exact hlow
  · rw [Nat.div_lt_iff_lt_mul (Nat.two_pow_pos s), ← Nat.pow_add]
    have hpow : (52 + s).succ = 53 + s := by omega
    rwa [hpow] at hhigh

/-- A multiple of the unit is not rounded. -/
theorem nearest_mul (m s : Nat) : nearest (m * 2 ^ s) s = m := by
  have hpos : 0 < 2 ^ s := Nat.two_pow_pos s
  have hdiv : m * 2 ^ s / 2 ^ s = m := Nat.mul_div_cancel m hpos
  have hmod : m * 2 ^ s % 2 ^ s = 0 := Nat.mul_mod_left m (2 ^ s)
  simp only [nearest, hdiv, hmod, Nat.mul_zero, hpos, true_or, if_true]

theorem log2_mul (hm : 2 ^ 52 ≤ m) (hm' : m < 2 ^ 53) (s : Nat) : (m * 2 ^ s).log2 = 52 + s := by
  have hpos := Nat.two_pow_pos s
  have hne : m * 2 ^ s ≠ 0 := by
    have := Nat.mul_pos (Nat.lt_of_lt_of_le (by decide) hm) hpos
    omega
  have hpow : 52 + s + 1 = 53 + s := by omega
  rw [Nat.log2_eq_iff hne, hpow, Nat.pow_add, Nat.pow_add]
  exact ⟨Nat.mul_le_mul_right _ hm, Nat.mul_lt_mul_of_pos_right hm' hpos⟩

/-! ## Shifting -/

/-- Shifting keeps the last bit that is dropped, and whether one before it was set. -/
theorem repeat_shiftRightOne_bits (n k : Nat) :
    Nat.repeat ExtendedMantissa.shiftRightOne (k + 1) ⟨n, false, false⟩ =
      ⟨n / 2 ^ (k + 1), n / 2 ^ k % 2 != 0, n % 2 ^ k != 0⟩ := by
  induction k with
  | zero => simp [Nat.repeat, ExtendedMantissa.shiftRightOne, Nat.mod_one]
  | succ k ih =>
    have hmod := Nat.mod_pow_succ (x := n) (b := 2) (k := k)
    have hsticky : (n / 2 ^ k % 2 != 0 || n % 2 ^ k != 0) = (n % 2 ^ (k + 1) != 0) := by
      rw [Bool.eq_iff_iff]
      simp only [Bool.or_eq_true, bne_iff_ne, hmod]
      have hpos := Nat.two_pow_pos k
      constructor
      · rintro (hbit | hlow) hsum
        · have := Nat.mul_pos hpos (Nat.pos_of_ne_zero hbit)
          omega
        · omega
      · intro hsum
        by_contra hnone
        rw [not_or, not_not, not_not] at hnone
        rw [hnone.1, hnone.2] at hsum
        exact hsum rfl
    rw [Nat.repeat, ih]
    simp only [ExtendedMantissa.shiftRightOne, hsticky, Nat.div_div_eq_div_mul, ← Nat.pow_succ]

/-- The bits that are kept decide the rounding. -/
theorem roundedMantissa_shifted (n k : Nat) :
    (⟨n / 2 ^ (k + 1), n / 2 ^ k % 2 != 0, n % 2 ^ k != 0⟩ : ExtendedMantissa).roundedMantissa =
      nearest n (k + 1) := by
  have hmod := Nat.mod_pow_succ (x := n) (b := 2) (k := k)
  have hpow : 2 ^ (k + 1) = 2 * 2 ^ k := by rw [Nat.pow_succ, Nat.mul_comm]
  have hlow : n % 2 ^ k < 2 ^ k := Nat.mod_lt _ (Nat.two_pow_pos k)
  unfold nearest
  simp only
  generalize n / 2 ^ (k + 1) = q
  rw [hmod, hpow]
  rcases Nat.mod_two_eq_zero_or_one (n / 2 ^ k) with hbit | hbit
  · -- below one half
    have hround : ∀ b : Bool, (⟨q, false, b⟩ : ExtendedMantissa).roundedMantissa = q := by
      intro b
      cases b <;> rfl
    have hzero : (n / 2 ^ k % 2 != 0) = false := by rw [hbit]; rfl
    rw [hzero, hround, if_pos]
    left
    rw [hbit]
    omega
  · have hone : (n / 2 ^ k % 2 != 0) = true := by rw [hbit]; rfl
    rw [hone, hbit, Nat.mul_one]
    rcases Nat.eq_zero_or_pos (n % 2 ^ k) with hzero | hpos
    · -- one half: to even
      have hsticky : (n % 2 ^ k != 0) = false := by rw [hzero]; rfl
      rw [hsticky, hzero, Nat.zero_add]
      show q + q % 2 = _
      rcases Nat.mod_two_eq_zero_or_one q with heven | hodd
      · rw [if_pos (.inr ⟨rfl, heven⟩)]
        omega
      · rw [if_neg (by omega)]
        omega
    · have hsticky : (n % 2 ^ k != 0) = true := by
        rw [bne_iff_ne]
        omega
      rw [hsticky, if_neg (by omega)]
      rfl

/-! ## The conversion -/

theorem targetExponent_eq {e : Int} (hlog : m.log2 = 52 + s) (he : 0 ≤ e) :
    Format.binary64.targetExponent (totalExponent m e) = s + e := by
  have hbits : Format.binary64.mantissaBits = 53 := rfl
  have hmin : Format.binary64.minExponent = -1074 := by decide
  rw [Format.targetExponent, totalExponent, hlog, hbits, hmin]
  omega

/-- The second shift only takes back a carry. -/
theorem shift_carry (hm : 2 ^ 52 ≤ m) (hm' : m ≤ 2 ^ 53) (s : Nat) :
    ∃ m' e, 2 ^ 52 ≤ m' ∧ m' < 2 ^ 53 ∧ m' * 2 ^ e = m * 2 ^ s ∧ s ≤ e ∧
      shiftToTargetExponent Format.binary64 m s .exact = (⟨m', false, false⟩, (e : Int)) := by
  rcases Nat.lt_or_eq_of_le hm' with hlt | rfl
  · refine ⟨m, s, hm, hlt, rfl, Nat.le_refl s, ?_⟩
    have hlog : m.log2 = 52 + 0 := log2_of_normal hm hlt
    have hamount : ((0 : Nat) + (s : Int) - s).toNat = 0 := by omega
    simp only [shiftToTargetExponent, targetExponent_eq hlog (Int.natCast_nonneg s),
      shiftToExponent, hamount]
    exact Prod.ext rfl (Int.add_zero _)
  · refine ⟨2 ^ 52, s + 1, Nat.le_refl _, by decide, ?_, Nat.le_succ s, ?_⟩
    · rw [Nat.pow_succ 2 s]
      omega
    · have hlog : (2 ^ 53 : Nat).log2 = 52 + 1 := Nat.log2_two_pow
      have hamount : ((1 : Nat) + (s : Int) - s).toNat = 1 := by omega
      simp only [shiftToTargetExponent, targetExponent_eq hlog (Int.natCast_nonneg s),
        shiftToExponent, hamount]
      exact Prod.ext rfl rfl

/-- The conversion rounds to the nearest number, ties to even. -/
theorem ofNat_rounds (hn : 2 ^ 53 ≤ n) :
    ∃ (m e : Nat) (h : 0 < m), 2 ^ 52 ≤ m ∧ m < 2 ^ 53 ∧ m * 2 ^ e = roundEven n ∧ 0 < e ∧
      UnpackedFloat.ofNat Format.binary64 n = .finite .positive m e h := by
  have hne : n ≠ 0 := by omega
  have hlog : 53 ≤ n.log2 := (Nat.le_log2 hne).mpr hn
  obtain ⟨k, hk⟩ : ∃ k, n.log2 = 52 + (k + 1) := ⟨n.log2 - 53, by omega⟩
  have hs : k + 1 = n.log2 - 52 := by omega
  have hdiv := div_bounds hn hs
  have hnear := nearest_bounds n (k + 1)
  rcases shift_carry (m := nearest n (k + 1)) (by omega) (by omega) (k + 1) with
    ⟨m, e, hm, hm', hvalue, he, hshift⟩
  have hpos : 0 < m := by omega
  refine ⟨m, e, hpos, hm, hm', ?_, by omega, ?_⟩
  · rw [hvalue, roundEven, ← hs]
  have hcompare : compare (n : Int) 0 = .gt := by
    rw [Std.OrientedOrd.eq_swap, Ordering.swap_eq_gt, compare_lt_iff_lt]
    omega
  have htarget := targetExponent_eq hk (Int.le_refl 0)
  have hdecrease : decreaseExponent n 0 ((k + 1 : Nat) + (0 : Int)) = (n, 0) := by
    have hamount : ((0 : Int) - ((k + 1 : Nat) + (0 : Int))).toNat = 0 := by omega
    simp only [decreaseExponent, hamount, Nat.shiftLeft_zero]
    rfl
  have hfirst : shiftToTargetExponent Format.binary64 n 0 .exact =
      (⟨n / 2 ^ (k + 1), n / 2 ^ k % 2 != 0, n % 2 ^ k != 0⟩, ((k + 1 : Nat) : Int)) := by
    have hamount : (((k + 1 : Nat) : Int) + 0 - 0).toNat = k + 1 := by omega
    simp only [shiftToTargetExponent, htarget, shiftToExponent, hamount]
    exact Prod.ext (repeat_shiftRightOne_bits n k) (Int.zero_add _)
  have hne' : ¬ m = 0 := by omega
  simp only [UnpackedFloat.ofNat, UnpackedFloat.ofInt, UnpackedFloat.normalize, hcompare,
    Int.toNat_natCast, UnpackedFloat.round, htarget, hdecrease, roundWithAccuracy, hfirst,
    roundedMantissa_shifted, hshift, hne', dite_false]

/-- A number of 53 bits is at most `2 ^ 64` when its exponent is small, or it is `2 ^ 64`. -/
theorem mul_le_max_iff {e : Nat} (hm : 2 ^ 52 ≤ m) (hm' : m < 2 ^ 53) :
    m * 2 ^ e ≤ 2 ^ 64 ↔ e < 12 ∨ (e = 12 ∧ m ≤ 2 ^ 52) := by
  rcases Nat.lt_trichotomy e 12 with hlt | rfl | hgt
  · have hle : m * 2 ^ e ≤ 2 ^ 53 * 2 ^ 11 :=
      Nat.mul_le_mul (Nat.le_of_lt hm') (Nat.pow_le_pow_right (by decide) (by omega))
    have hsum : 2 ^ 53 * 2 ^ 11 = 2 ^ 64 := by rw [← Nat.pow_add]
    omega
  · have hsum : 2 ^ 52 * 2 ^ 12 = 2 ^ 64 := by rw [← Nat.pow_add]
    omega
  · have hle : 2 ^ 52 * 2 ^ 13 ≤ m * 2 ^ e :=
      Nat.mul_le_mul hm (Nat.pow_le_pow_right (by decide) (by omega))
    have hsum : 2 ^ 52 * 2 ^ 13 = 2 ^ 65 := by rw [← Nat.pow_add]
    omega

/-- The float of a large integer: the rounded number, or too large for a float. -/
theorem unpack_ofNat_large (hn : 2 ^ 53 ≤ n) :
    (∃ (m e : Nat) (h : 0 < m), 2 ^ 52 ≤ m ∧ m < 2 ^ 53 ∧ m * 2 ^ e = roundEven n ∧ 0 < e ∧
        e ≤ 971 ∧ (Float.Model.ofNat n).unpack = .finite .positive m e h) ∨
      (2 ^ 64 < roundEven n ∧ (Float.Model.ofNat n).unpack = .infinity .positive) := by
  rcases ofNat_rounds hn with ⟨m, e, h, hm, hm', hvalue, he, hround⟩
  rw [Float.Model.ofNat, hround]
  rcases Nat.lt_or_ge 971 e with hlarge | hfits
  · right
    refine ⟨?_, ?_⟩
    · rw [← hvalue]
      apply Nat.lt_of_not_le
      intro hle
      have hsmall := (mul_le_max_iff hm hm').mp hle
      omega
    · rw [pack_overflow .positive h (by omega), unpack_infinity]
  · left
    exact ⟨m, e, h, hm, hm', hvalue, he, hfits,
      unpack_pack .positive h hm hm' (by omega) (by omega)⟩

/-- Positive numbers compare by their exponents, then by their mantissas. -/
theorem le_finite_iff {m m' : Nat} {e e' : Int} {h : 0 < m} {h' : 0 < m'} :
    (UnpackedFloat.finite .positive m e h).le (.finite .positive m' e' h') = true ↔
      e < e' ∨ (e = e' ∧ m ≤ m') := by
  have hle : (UnpackedFloat.finite .positive m e h).le (.finite .positive m' e' h') =
      ((compare e e').then (compare m m')).isLE := rfl
  rw [hle, Ordering.isLE_then_iff_or, compare_lt_iff_lt, compare_eq_iff_eq, Std.isLE_compare]

/-- The conversion compares with the largest `u64` as the rounded number with `2 ^ 64`. -/
theorem ofNat_le_max_iff : ofNat n ≤ ofNat 0xFFFFFFFFFFFFFFFF ↔ roundEven n ≤ 2 ^ 64 := by
  rcases Nat.lt_or_ge n (2 ^ 53) with hsmall | hlarge
  · have hexact := ofNat_exact (Nat.le_of_lt hsmall)
    rw [roundEven_small hsmall]
    exact ⟨fun _ => by omega, fun _ => hexact.2.1⟩
  · rw [le_iff_unpack]
    show (Float.Model.ofNat n).unpack.le (Float.Model.ofNat 0xFFFFFFFFFFFFFFFF).unpack = true ↔ _
    rw [unpack_max]
    rcases unpack_ofNat_large hlarge with ⟨m, e, h, hm, hm', hvalue, _, _, hunpack⟩ |
      ⟨hvalue, hunpack⟩
    · rw [hunpack, ← hvalue, mul_le_max_iff hm hm', le_finite_iff]
      omega
    · rw [hunpack]
      have hfalse : (UnpackedFloat.infinity .positive).le (.finite .positive (2 ^ 52) 12 (by decide)) =
          false := rfl
      rw [hfalse]
      constructor
      · intro hle
        cases hle
      · intro hle
        omega

theorem zero_le_ofNat (n : Nat) : ofNat 0 ≤ ofNat n := by
  rcases Nat.lt_or_ge n (2 ^ 53) with hsmall | hlarge
  · exact (ofNat_exact (Nat.le_of_lt hsmall)).1
  · rw [le_iff_unpack]
    show (Float.Model.ofNat 0).unpack.le (Float.Model.ofNat n).unpack = true
    rw [unpack_zero]
    rcases unpack_ofNat_large hlarge with ⟨m, e, h, _, _, _, _, _, hunpack⟩ | ⟨_, hunpack⟩
    · rw [hunpack]
      rfl
    · rw [hunpack]
      rfl

/-- A number without a fraction is its own truncation. -/
theorem toInt_integer {e : Nat} {h : 0 < m} (a b : Int) :
    UnpackedFloat.toInt a b (.finite .positive m (e : Int) h) = (m * 2 ^ e : Nat) := by
  have hdecrease : decreaseExponent m (e : Int) 0 = (m * 2 ^ e, 0) := by
    have hamount : ((e : Int) - 0).toNat = e := by omega
    simp only [decreaseExponent, hamount, Nat.shiftLeft_eq]
    exact Prod.ext rfl (Int.sub_self _)
  have hamount : ((0 : Int) - 0).toNat = 0 := rfl
  simp only [toInt, roundToInt, hdecrease, shiftToExponent, hamount]
  rfl

/-- What the conversion converts back to: the rounded number, `2 ^ 64` as the largest `u64`. -/
theorem toUInt64_ofNat (h : roundEven n ≤ 2 ^ 64) :
    (ofNat n).toUInt64.toNat = min (roundEven n) (2 ^ 64 - 1) := by
  rcases Nat.lt_or_ge n (2 ^ 53) with hsmall | hlarge
  · have hexact := ofNat_exact (Nat.le_of_lt hsmall)
    rw [hexact.2.2.1, roundEven_small hsmall, UInt64.toNat_ofNat']
    omega
  · rcases unpack_ofNat_large hlarge with ⟨m, e, hpos, _, _, hvalue, _, _, hunpack⟩ | ⟨hvalue, _⟩
    · have hint : (ofNat n).toUInt64 = UInt64.ofNatClamp (roundEven n) := by
        rw [← hvalue]
        show (Float.Model.ofNat n).unpack.toUInt64 = _
        rw [hunpack, UnpackedFloat.toUInt64, toInt_integer, Int.toNat_natCast]
      rw [hint, UInt64.ofNatClamp]
      split
      · rename_i hlt
        rw [UInt64.toNat_ofNatLT]
        simp only [UInt64.size] at hlt
        omega
      · rename_i hlt
        simp only [UInt64.size] at hlt ⊢
        rw [UInt64.toNat_ofNatLT]
        omega
    · omega

/-- The rounded number is not rounded again. -/
theorem roundEven_mul {e : Nat} (hm : 2 ^ 52 ≤ m) (hm' : m < 2 ^ 53) :
    roundEven (m * 2 ^ e) = m * 2 ^ e := by
  have hs : (m * 2 ^ e).log2 - 52 = e := by
    rw [log2_mul hm hm' e]
    omega
  rw [roundEven, hs, nearest_mul]

/-- The 53 bits of a number and their exponent are determined by it. -/
theorem mantissa_unique {m' e e' : Nat} (hm : 2 ^ 52 ≤ m) (hm' : m < 2 ^ 53) (hn : 2 ^ 52 ≤ m')
    (hn' : m' < 2 ^ 53) (h : m * 2 ^ e = m' * 2 ^ e') : m = m' ∧ e = e' := by
  have hlog := congrArg Nat.log2 h
  rw [log2_mul hm hm', log2_mul hn hn'] at hlog
  have he : e = e' := by omega
  subst he
  exact ⟨Nat.eq_of_mul_eq_mul_right (Nat.two_pow_pos e) h, rfl⟩

theorem beq_finite {s : Sign} {e : Int} {h : 0 < m} :
    (UnpackedFloat.finite s m e h).beq (.finite s m e h) = true := by
  cases s <;> simp [UnpackedFloat.beq, UnpackedFloat.compare]

/-- The integer that the conversion converts back to has the same float. -/
theorem toFloat_toUInt64_ofNat (h : roundEven n ≤ 2 ^ 64) :
    ((ofNat n).toUInt64.toFloat == ofNat n) = true := by
  rw [toFloat_eq, toUInt64_ofNat h]
  rcases Nat.lt_or_ge n (2 ^ 53) with hsmall | hlarge
  · rw [roundEven_small hsmall, Nat.min_eq_left (by omega)]
    exact (ofNat_exact (Nat.le_of_lt hsmall)).2.2.2
  rcases unpack_ofNat_large hlarge with ⟨m, e, hpos, hm, hm', hvalue, he, _, hunpack⟩ | ⟨hvalue, _⟩
  · show (Float.Model.ofNat _).unpack.beq (Float.Model.ofNat n).unpack = true
    rw [hunpack]
    rcases Nat.lt_or_eq_of_le h with hlt | heq
    · -- the rounded number is a `u64`
      rw [Nat.min_eq_left (by omega)]
      have hlarge' : 2 ^ 53 ≤ roundEven n := by
        rw [← hvalue]
        calc 2 ^ 53 = 2 ^ 52 * 2 ^ 1 := by rw [← Nat.pow_add]
          _ ≤ m * 2 ^ e := Nat.mul_le_mul hm (Nat.pow_le_pow_right (by decide) he)
      rcases unpack_ofNat_large hlarge' with
        ⟨m', e', hpos', hn, hn', hvalue', _, _, hunpack'⟩ | ⟨hvalue', _⟩
      · rw [← hvalue, roundEven_mul hm hm'] at hvalue'
        rcases mantissa_unique hn hn' hm hm' hvalue' with ⟨rfl, rfl⟩
        rw [hunpack']
        exact beq_finite
      · rw [← hvalue, roundEven_mul hm hm'] at hvalue'
        omega
    · -- `2 ^ 64` is the float of the largest `u64`
      rw [heq, Nat.min_eq_right (by decide)]
      have hmax : m * 2 ^ e = 2 ^ 52 * 2 ^ 12 := by rw [hvalue, heq, ← Nat.pow_add]
      rcases mantissa_unique hm hm' (Nat.le_refl _) (by decide) hmax with ⟨rfl, rfl⟩
      show (Float.Model.ofNat 0xFFFFFFFFFFFFFFFF).unpack.beq _ = true
      rw [unpack_max]
      exact beq_finite
  · omega

/-- The negative of a positive integer is below zero. -/
theorem not_zero_le_neg (hn : 0 < n) : ¬ ofNat 0 ≤ -ofNat n := by
  have hneg : ∀ m : Nat, ∀ (e : Int) (h : 0 < m), 2 ^ 52 ≤ m → m < 2 ^ 53 → -1074 ≤ e → e ≤ 971 →
      (Float.Model.ofNat n).unpack = .finite .positive m e h →
      (Float.Model.neg (.ofNat n)).unpack = .finite .negative m e h := by
    intro m e h hm hm' he he' hunpack
    rw [Float.Model.neg, hunpack]
    exact unpack_pack .negative h hm hm' he he'
  rw [le_iff_unpack]
  show ¬ (Float.Model.ofNat 0).unpack.le (Float.Model.neg (.ofNat n)).unpack = true
  rw [unpack_zero]
  rcases Nat.lt_or_ge n (2 ^ 53) with hsmall | hlarge
  · rcases unpack_ofNat hn hsmall with ⟨k, h, hk, hlow, hhigh, hunpack⟩
    rw [hneg _ _ h hlow hhigh (by omega) (by omega) hunpack]
    intro hle
    cases hle
  · rcases unpack_ofNat_large hlarge with ⟨m, e, h, hm, hm', _, _, he, hunpack⟩ | ⟨_, hunpack⟩
    · rw [hneg m e h hm hm' (by omega) (by omega) hunpack]
      intro hle
      cases hle
    · rw [Float.Model.neg, hunpack]
      show ¬ UnpackedFloat.le _ (Float.Model.pack (.infinity .negative)).unpack = true
      rw [unpack_infinity]
      intro hle
      cases hle

end Integers

end Binary64
