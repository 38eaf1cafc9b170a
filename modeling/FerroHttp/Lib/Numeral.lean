import Mathlib.Data.Nat.Basic
import Mathlib.Tactic.Ring

/-!
# Numeral — positional numerals, most significant digit first

`value b ds` is the number the digits `ds` denote in base `b`. The two
accumulators a parser of bounded integers uses are compared with it: the checked
one fails exactly when the value does not fit (`checked_eq_some_iff`), and the
saturating one clamps it (`saturating_eq`).
-/

namespace Numeral

/-- The number denoted by a digit string. -/
def value (b : Nat) (ds : List Nat) : Nat := ds.foldl (fun v d => v * b + d) 0

section Value

variable {b : Nat}

@[simp] theorem value_nil : value b [] = 0 := rfl

theorem foldl_value (v : Nat) (ds : List Nat) :
    ds.foldl (fun v d => v * b + d) v = v * b ^ ds.length + value b ds := by
  unfold value
  induction ds generalizing v with
  | nil => simp
  | cons d ds ih =>
    simp only [List.foldl_cons, List.length_cons]
    rw [ih (v * b + d), ih (0 * b + d)]
    ring

theorem value_append (xs ys : List Nat) :
    value b (xs ++ ys) = value b xs * b ^ ys.length + value b ys := by
  rw [← foldl_value (value b xs) ys]
  simp [value, List.foldl_append]

theorem value_cons (d : Nat) (ds : List Nat) :
    value b (d :: ds) = d * b ^ ds.length + value b ds := by
  rw [← foldl_value d ds]
  simp [value]

/-- Leading zeros do not matter. -/
theorem value_zeros (n : Nat) (ds : List Nat) :
    value b (List.replicate n 0 ++ ds) = value b ds := by
  induction n with
  | zero => simp
  | succ n ih => rw [List.replicate_succ, List.cons_append, value_cons, ih]; simp

/-- A longer numeral is at least as large as any of its prefixes. -/
theorem value_le_append (hb : 1 ≤ b) (xs ys : List Nat) :
    value b xs ≤ value b (xs ++ ys) := by
  rw [value_append]
  have hpow : 1 ≤ b ^ ys.length := Nat.one_le_pow _ _ hb
  have hmul : value b xs * 1 ≤ value b xs * b ^ ys.length := Nat.mul_le_mul_left _ hpow
  omega

end Value

/-! ## Bounded accumulation -/

/-- Accumulate digits into `v`, failing as soon as the value reaches `bound`. -/
def checked (bound b : Nat) : Nat → List Nat → Option Nat
  | v, [] => some v
  | v, d :: ds => if v * b + d < bound then checked bound b (v * b + d) ds else none

/-- The checked accumulator fails exactly when the whole value does not fit. -/
theorem checked_eq_some_iff {bound b : Nat} (hb : 1 ≤ b) {v : Nat} {ds : List Nat} {n : Nat}
    (hv : v < bound) :
    checked bound b v ds = some n ↔
      v * b ^ ds.length + value b ds < bound ∧ n = v * b ^ ds.length + value b ds := by
  induction ds generalizing v with
  | nil =>
    simp only [checked, Option.some.injEq, List.length_nil, pow_zero, mul_one, value_nil, add_zero]
    constructor
    · rintro rfl
      exact ⟨hv, rfl⟩
    · rintro ⟨_, rfl⟩
      rfl
  | cons d ds ih =>
    have hsum : v * b ^ (d :: ds).length + value b (d :: ds) =
        (v * b + d) * b ^ ds.length + value b ds := by
      rw [value_cons, List.length_cons]
      ring
    have hpow : 1 ≤ b ^ ds.length := Nat.one_le_pow _ _ hb
    have hle : (v * b + d) * 1 ≤ (v * b + d) * b ^ ds.length := Nat.mul_le_mul_left _ hpow
    unfold checked
    rw [hsum]
    by_cases hfit : v * b + d < bound
    · rw [if_pos hfit]
      exact ih hfit
    · rw [if_neg hfit]
      constructor
      · intro h
        cases h
      · rintro ⟨hlt, _⟩
        omega

/-- Accumulate digits into `v`, clamping at `top` after each multiplication and
after each addition. -/
def saturating (top b : Nat) (v : Nat) (ds : List Nat) : Nat :=
  ds.foldl (fun v d => min top (min top (v * b) + d)) v

/-- The saturating accumulator clamps the value of the whole numeral. -/
theorem saturating_eq {top b : Nat} (hb : 1 ≤ b) (ds : List Nat) :
    ∀ v, saturating top b (min top v) ds = min top (v * b ^ ds.length + value b ds) := by
  induction ds with
  | nil => intro v; simp [saturating]
  | cons d ds ih =>
    intro v
    have hclamp : min top (min top (min top v * b) + d) = min top (v * b + d) := by
      have hmul : v * 1 ≤ v * b := Nat.mul_le_mul_left _ hb
      rcases Nat.le_total top v with h | h
      · rw [Nat.min_eq_left h]
        have htop : top * 1 ≤ top * b := Nat.mul_le_mul_left _ hb
        omega
      · rw [Nat.min_eq_right h]
        omega
    have hsum : v * b ^ (d :: ds).length + value b (d :: ds) =
        (v * b + d) * b ^ ds.length + value b ds := by
      rw [value_cons, List.length_cons]
      ring
    rw [hsum, ← ih (v * b + d), saturating, List.foldl_cons, hclamp]
    rfl

/-! ## Decimal rendering -/

/-- The digit a character `'0'..'9'` stands for. -/
def ofDigitChar (c : Char) : Nat := c.toNat - 48

/-- Reading a rendered number back gives the number. -/
theorem value_toDigits (n : Nat) :
    value 10 ((Nat.toDigits 10 n).map ofDigitChar) = n := by
  have h : Nat.ofDigitChars 10 (Nat.toDigits 10 n) 0 = n := Nat.ofDigitChars_ten_toDigits
  rw [Nat.ofDigitChars_eq_foldl] at h
  rw [value, List.foldl_map]
  simpa [ofDigitChar, Nat.mul_comm] using h

end Numeral
