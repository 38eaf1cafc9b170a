import Mathlib

/-!
# Binary64 — integers in a floating-point number

Facts about the logical model of `Float`: integers up to `2 ^ 53` are represented
exactly, and a float that equals the conversion of its own integer part behaves like
that conversion.

`unpack_pack` is the tool: a normal number survives its encoding in 64 bits.
-/

namespace Binary64

open Float.Model Float.Model.UnpackedFloat

/-! ## The encoding of normal numbers -/

section Normal

variable {m : Nat} {e : Int}

theorem log2_of_normal (hm : 2 ^ 52 ≤ m) (hm' : m < 2 ^ 53) : m.log2 = 52 := by
  rw [Nat.log2_eq_iff (by omega)]
  exact ⟨hm, hm'⟩

/-- The implicit bit is the leading one. -/
theorem toNat_implicit (hm : 2 ^ 52 ≤ m) (hm' : m < 2 ^ 53) :
    (1#1 ++ BitVec.ofNat 52 m).toNat = m := by
  have hlow : (BitVec.ofNat 52 m).toNat = m - 2 ^ 52 := by
    rw [BitVec.toNat_ofNat]
    omega
  rw [BitVec.toNat_append, hlow, ← Nat.shiftLeft_add_eq_or_of_lt (by omega), Nat.shiftLeft_eq]
  simp only [BitVec.toNat_ofNat]
  omega

theorem ofBitVec_toBitVec (s : Sign) : Sign.ofBitVec s.toBitVec = s := by cases s <;> rfl

/-- A normal number survives its encoding. -/
theorem unpack_pack (s : Sign) (h : 0 < m) (hm : 2 ^ 52 ≤ m) (hm' : m < 2 ^ 53)
    (he : -1074 ≤ e) (he' : e ≤ 971) :
    (Float.Model.pack (.finite s m e h)).unpack = .finite s m e h := by
  have hbias : Format.binary64.exponentBias = 1023 := rfl
  have hbits : Format.binary64.mantissaBits = 53 := rfl
  have hpack : UnpackedFloat.pack Format.binary64 (.finite s m e h) =
      packComponents Format.binary64 s (BitVec.ofNat _ (e + 1075).toNat)
        (BitVec.ofNat _ m) := by
    have hexp : e + (1023 : Nat) + (52 : Nat) = e + 1075 := by omega
    have hsmall : ¬ 2 ^ 11 ≤ (e + 1075).toNat + 1 := by omega
    unfold UnpackedFloat.pack
    simp only [log2_of_normal hm hm', hbias, hbits, hexp, hsmall, if_false, if_true]
  have hexp : (BitVec.ofNat 11 (e + 1075).toNat).toNat = (e + 1075).toNat := by
    rw [BitVec.toNat_ofNat]
    exact Nat.mod_eq_of_lt (by omega)
  -- the exponent field is neither of the reserved ones
  have hinf : ¬ BitVec.ofNat 11 (e + 1075).toNat = -1#11 := by
    intro heq
    have hnat := congrArg BitVec.toNat heq
    rw [hexp, show (-1#11 : BitVec 11).toNat = 2047 by decide] at hnat
    omega
  have hsub : ¬ BitVec.ofNat 11 (e + 1075).toNat = 0#11 := by
    intro heq
    have hnat := congrArg BitVec.toNat heq
    rw [hexp, show (0#11 : BitVec 11).toNat = 0 by decide] at hnat
    omega
  unfold Float.Model.unpack UnpackedFloat.unpack
  simp only [Float.Model.pack, hpack, UInt64.toBitVec_ofBitVec, unpackExponent_packComponents,
    unpackMantissa_packComponents, unpackSign_packComponents, hinf, hsub, if_false,
    toNat_implicit hm hm', hexp, hbias, ofBitVec_toBitVec]
  congr 1
  omega

theorem unpack_infinity (s : Sign) : (Float.Model.pack (.infinity s)).unpack = .infinity s := by
  cases s <;> rfl

/-- A number that needs a larger exponent is encoded as an infinity. -/
theorem pack_overflow (s : Sign) (h : 0 < m) (he : 971 < e) :
    Float.Model.pack (.finite s m e h) = Float.Model.pack (.infinity s) := by
  have hbias : Format.binary64.exponentBias = 1023 := rfl
  have hlarge : 2 ^ 11 ≤ (e + (1023 : Nat) + (52 : Nat)).toNat + 1 := by omega
  have hpack : UnpackedFloat.pack Format.binary64 (.finite s m e h) =
      UnpackedFloat.pack Format.binary64 (.infinity s) := by
    unfold UnpackedFloat.pack
    simp only [hbias, hlarge, if_true]
  simp only [Float.Model.pack, hpack]

end Normal

/-! ## Integers -/

/-- The conversion of an integer. -/
def ofNat (n : Nat) : Float := .ofModel (.ofNat n)

theorem toFloat_eq (n : UInt64) : n.toFloat = ofNat n.toNat := rfl

section Integers

variable {m n : Nat} {e : Int}

/-- A normal number needs no rounding. -/
theorem roundWithAccuracy_normal (h : 0 < m) (hm : 2 ^ 52 ≤ m) (hm' : m < 2 ^ 53)
    (he : -1074 ≤ e) :
    roundWithAccuracy Format.binary64 .positive m e .exact = .finite .positive m e h := by
  have htarget : Format.binary64.targetExponent (totalExponent m e) = e := by
    have hbits : Format.binary64.mantissaBits = 53 := rfl
    have hmin : Format.binary64.minExponent = -1074 := by decide
    rw [Format.targetExponent, totalExponent, log2_of_normal hm hm', hbits, hmin]
    omega
  have hshift : shiftToTargetExponent Format.binary64 m e .exact = (⟨m, false, false⟩, e) := by
    simp only [shiftToTargetExponent, htarget, shiftToExponent, Int.sub_self]
    exact Prod.ext rfl (Int.add_zero e)
  have hround : (⟨m, false, false⟩ : ExtendedMantissa).roundedMantissa = m := rfl
  have hne : ¬ m = 0 := by omega
  simp only [roundWithAccuracy, hshift, hround, hne, dite_false]

/-- An integer below `2 ^ 53` is a normal number, or zero. -/
theorem unpack_ofNat (hpos : 0 < n) (hn : n < 2 ^ 53) :
    ∃ (k : Nat) (h : 0 < n * 2 ^ k), k ≤ 52 ∧ 2 ^ 52 ≤ n * 2 ^ k ∧ n * 2 ^ k < 2 ^ 53 ∧
      (Float.Model.ofNat n).unpack = .finite .positive (n * 2 ^ k) (-(k : Int)) h := by
  have hne : n ≠ 0 := by omega
  have hlog : n.log2 ≤ 52 := by
    have := (Nat.log2_lt hne).mpr hn
    omega
  obtain ⟨k, hk⟩ : ∃ k, n.log2 + k = 52 := ⟨52 - n.log2, by omega⟩
  have hlow : 2 ^ 52 ≤ n * 2 ^ k := by
    rw [← hk, Nat.pow_add]
    exact Nat.mul_le_mul_right _ (Nat.log2_self_le hne)
  have hhigh : n * 2 ^ k < 2 ^ 53 := by
    have hlt := (Nat.log2_lt hne).mp (Nat.lt_succ_self n.log2)
    calc n * 2 ^ k < 2 ^ (n.log2 + 1) * 2 ^ k := Nat.mul_lt_mul_of_pos_right hlt (Nat.two_pow_pos k)
      _ = 2 ^ 53 := by rw [← Nat.pow_add]; congr 1; omega
  have hmantissa : 0 < n * 2 ^ k := by omega
  refine ⟨k, hmantissa, by omega, hlow, hhigh, ?_⟩
  have htarget : Format.binary64.targetExponent (totalExponent n 0) = -(k : Int) := by
    have hbits : Format.binary64.mantissaBits = 53 := rfl
    have hmin : Format.binary64.minExponent = -1074 := by decide
    rw [Format.targetExponent, totalExponent, hbits, hmin]
    omega
  have hcompare : compare (n : Int) 0 = .gt := by
    rw [Std.OrientedOrd.eq_swap, Ordering.swap_eq_gt, compare_lt_iff_lt]
    omega
  have hdecrease : decreaseExponent n 0 (-(k : Int)) = (n * 2 ^ k, -(k : Int)) := by
    simp only [decreaseExponent, Nat.shiftLeft_eq]
    have hamount : ((0 : Int) - -(k : Int)).toNat = k := by omega
    rw [hamount]
    exact Prod.ext rfl (Int.zero_sub _)
  have hround : UnpackedFloat.ofNat Format.binary64 n =
      .finite .positive (n * 2 ^ k) (-(k : Int)) hmantissa := by
    simp only [UnpackedFloat.ofNat, UnpackedFloat.ofInt, UnpackedFloat.normalize, hcompare,
      Int.toNat_natCast, UnpackedFloat.round, htarget, hdecrease]
    exact roundWithAccuracy_normal hmantissa hlow hhigh (by omega)
  rw [Float.Model.ofNat, hround]
  exact unpack_pack .positive hmantissa hlow hhigh (by omega) (by omega)

/-- Shifting out zeros is exact. -/
theorem repeat_shiftRightOne (k m : Nat) :
    Nat.repeat ExtendedMantissa.shiftRightOne k ⟨m * 2 ^ k, false, false⟩ = ⟨m, false, false⟩ := by
  induction k generalizing m with
  | zero => simp [Nat.repeat]
  | succ k ih =>
    have hstep : m * 2 ^ (k + 1) = (m * 2) * 2 ^ k := by
      rw [Nat.pow_succ, Nat.mul_comm (2 ^ k), Nat.mul_assoc]
    rw [Nat.repeat, hstep, ih]
    simp [ExtendedMantissa.shiftRightOne]

/-- The integer is read back. -/
theorem toInt_scaled {k : Nat} {h : 0 < n * 2 ^ k} (a b : Int) :
    UnpackedFloat.toInt a b (.finite .positive (n * 2 ^ k) (-(k : Int)) h) = n := by
  have hdecrease : decreaseExponent (n * 2 ^ k) (-(k : Int)) 0 = (n * 2 ^ k, -(k : Int)) := by
    have hamount : (-(k : Int) - 0).toNat = 0 := by omega
    simp only [decreaseExponent, hamount, Nat.shiftLeft_zero]
    exact Prod.ext rfl (Int.sub_zero _)
  have hamount : ((0 : Int) - -(k : Int)).toNat = k := by omega
  simp only [toInt, roundToInt, hdecrease, shiftToExponent, hamount]
  have hshift : (ExtendedMantissa.ofMantissaAndAccuracy (n * 2 ^ k) .exact) >>> k =
      ⟨n, false, false⟩ := repeat_shiftRightOne k n
  rw [hshift]
  rfl

theorem unpack_zero : (Float.Model.ofNat 0).unpack = .zero .positive := by rfl

/-- The largest `u64` is rounded up. -/
theorem unpack_max : (Float.Model.ofNat 0xFFFFFFFFFFFFFFFF).unpack =
    .finite .positive (2 ^ 52) 12 (by decide) := by rfl

/-- Integers up to `2 ^ 53` convert to a float and back, and lie between the bounds of
`u64`. -/
theorem ofNat_exact (hn : n ≤ 2 ^ 53) :
    ofNat 0 ≤ ofNat n ∧ ofNat n ≤ ofNat 0xFFFFFFFFFFFFFFFF ∧
      (ofNat n).toUInt64 = UInt64.ofNat n ∧ (ofNat n == ofNat n) = true := by
  rcases Nat.eq_zero_or_pos n with rfl | hpos
  · decide +kernel
  rcases Nat.lt_or_eq_of_le hn with hlt | rfl
  · rcases unpack_ofNat hpos hlt with ⟨k, h, hk, _, _, hunpack⟩
    refine ⟨?_, ?_, ?_, ?_⟩
    · apply decide_eq_true
      show (Float.Model.ofNat 0).unpack.le (Float.Model.ofNat n).unpack = true
      rw [unpack_zero, hunpack]
      rfl
    · apply decide_eq_true
      show (Float.Model.ofNat n).unpack.le (Float.Model.ofNat 0xFFFFFFFFFFFFFFFF).unpack = true
      rw [unpack_max, hunpack]
      have hexp : compare (-(k : Int)) 12 = .lt := by
        rw [compare_lt_iff_lt]
        omega
      simp [UnpackedFloat.le, UnpackedFloat.compare, hexp]
    · show (Float.Model.ofNat n).unpack.toUInt64 = _
      rw [hunpack, UnpackedFloat.toUInt64, toInt_scaled, Int.toNat_natCast, UInt64.ofNatClamp,
        dif_pos (by simp only [UInt64.size]; omega), UInt64.ofNatLT_eq_ofNat]
    · show (Float.Model.ofNat n).unpack.beq (Float.Model.ofNat n).unpack = true
      rw [hunpack]
      simp [UnpackedFloat.beq, UnpackedFloat.compare]
  · decide +kernel

/-- Comparing and truncating look at the number only. -/
theorem le_iff_unpack {x y : Float} : x ≤ y ↔ x.toModel.unpack.le y.toModel.unpack = true :=
  decide_eq_true_iff

theorem toUInt64_eq_unpack (x : Float) : x.toUInt64 = x.toModel.unpack.toUInt64 := rfl

theorem beq_eq_unpack (x y : Float) : (x == y) = x.toModel.unpack.beq y.toModel.unpack := rfl

/-- Equal floats are the same number, or both zero. -/
theorem unpack_of_beq {x y : Float} (h : (x == y) = true) :
    x.toModel.unpack = y.toModel.unpack ∨
      ∃ s s', x.toModel.unpack = .zero s ∧ y.toModel.unpack = .zero s' := by
  rw [beq_eq_unpack, beq_iff_ne_notANumber_and_eq] at h
  rcases h.2.2 with hsame | hzero | hzero
  · exact .inl hsame
  · exact .inr ⟨.positive, .negative, hzero⟩
  · exact .inr ⟨.negative, .positive, hzero⟩

end Integers

end Binary64
