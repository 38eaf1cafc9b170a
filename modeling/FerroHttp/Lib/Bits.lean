import FerroHttp.Lib.Numeral

/-!
# Bits — bit strings, most significant bit first

A number in a fixed width as a bit string and back, and the bit string of bytes.
-/

namespace Bits

/-- The lowest `w` bits of a number. -/
def ofNat : Nat → Nat → List Bool
  | 0, _ => []
  | w + 1, n => n.testBit w :: ofNat w n

/-- The number of a bit string. -/
def value (bits : List Bool) : Nat := Numeral.value 2 (bits.map Bool.toNat)

/-- Bytes, one behind the other. -/
def ofBytes (bytes : List UInt8) : List Bool := bytes.flatMap fun b => ofNat 8 b.toNat

variable {w n : Nat} {xs ys : List Bool} {bs cs : List UInt8} {b : UInt8}

@[simp] theorem length_ofNat (w n : Nat) : (ofNat w n).length = w := by
  induction w with
  | zero => rfl
  | succ w ih => rw [ofNat, List.length_cons, ih]

/-- A number in two parts. -/
theorem ofNat_add (a b n : Nat) : ofNat (a + b) n = ofNat a (n / 2 ^ b) ++ ofNat b n := by
  induction a with
  | zero => rw [Nat.zero_add, ofNat, List.nil_append]
  | succ a ih =>
    rw [Nat.succ_add, ofNat, ofNat, ih, List.cons_append, Nat.testBit_div_two_pow]

/-- Higher bits do not matter. -/
theorem ofNat_mod {m : Nat} (h : w ≤ m) : ofNat w (n % 2 ^ m) = ofNat w n := by
  induction w with
  | zero => rfl
  | succ w ih =>
    have htop : decide (w < m) = true := decide_eq_true h
    rw [ofNat, ofNat, ih (Nat.le_of_succ_le h), Nat.testBit_mod_two_pow, htop, Bool.true_and]

theorem ofNat_zero (w : Nat) : ofNat w 0 = List.replicate w false := by
  induction w with
  | zero => rfl
  | succ w ih => rw [ofNat, ih, Nat.zero_testBit, List.replicate_succ]

/-- The bits one by one. -/
theorem getElem?_ofNat (w n k : Nat) :
    (ofNat w n)[k]? = if k < w then some (n.testBit (w - 1 - k)) else none := by
  induction w generalizing k with
  | zero => rfl
  | succ w ih =>
    cases k with
    | zero => rfl
    | succ k =>
      rw [ofNat, List.getElem?_cons_succ, ih]
      have hindex : w + 1 - 1 - (k + 1) = w - 1 - k := by omega
      simp only [Nat.succ_lt_succ_iff, hindex]

theorem value_append : value (xs ++ ys) = value xs * 2 ^ ys.length + value ys := by
  rw [value, List.map_append, Numeral.value_append, List.length_map]
  rfl

theorem value_cons (x : Bool) : value (x :: xs) = x.toNat * 2 ^ xs.length + value xs := by
  rw [value, List.map_cons, Numeral.value_cons, List.length_map]
  rfl

/-- Reading back what was written. -/
theorem value_ofNat (w n : Nat) : value (ofNat w n) = n % 2 ^ w := by
  induction w with
  | zero => simp [ofNat, value, Nat.mod_one]
  | succ w ih =>
    have hdigit : n % 2 ^ (w + 1) = n % 2 ^ w + 2 ^ w * (n / 2 ^ w % 2) := Nat.mod_pow_succ
    rw [ofNat, value_cons, ih, length_ofNat, hdigit, Nat.toNat_testBit, Nat.mul_comm, Nat.add_comm]

/-! ## Bytes -/

@[simp] theorem ofBytes_nil : ofBytes [] = [] := rfl

theorem ofBytes_cons : ofBytes (b :: bs) = ofNat 8 b.toNat ++ ofBytes bs := rfl

theorem ofBytes_append : ofBytes (bs ++ cs) = ofBytes bs ++ ofBytes cs := List.flatMap_append

@[simp] theorem length_ofBytes (bs : List UInt8) : (ofBytes bs).length = 8 * bs.length := by
  induction bs with
  | nil => rfl
  | cons b bs ih =>
    rw [ofBytes_cons, List.length_append, length_ofNat, ih, List.length_cons]
    omega

theorem ofBytes_take (k : Nat) (bs : List UInt8) :
    ofBytes (bs.take k) = (ofBytes bs).take (8 * k) := by
  induction k generalizing bs with
  | zero => simp
  | succ k ih =>
    cases bs with
    | nil => simp
    | cons b bs =>
      have hsplit : 8 * (k + 1) = (ofNat 8 b.toNat).length + 8 * k := by
        rw [length_ofNat]
        omega
      rw [List.take_succ_cons, ofBytes_cons, ofBytes_cons, ih, hsplit, List.take_length_add_append]

theorem ofBytes_drop (k : Nat) (bs : List UInt8) :
    ofBytes (bs.drop k) = (ofBytes bs).drop (8 * k) := by
  induction k generalizing bs with
  | zero => simp
  | succ k ih =>
    cases bs with
    | nil => simp
    | cons b bs =>
      have hsplit : 8 * (k + 1) = (ofNat 8 b.toNat).length + 8 * k := by
        rw [length_ofNat]
        omega
      rw [List.drop_succ_cons, ofBytes_cons, ih, hsplit, List.drop_length_add_append]

/-- The bytes of a number, the highest first. -/
theorem value_ofBytes_cons :
    value (ofBytes (b :: bs)) = b.toNat * 2 ^ (8 * bs.length) + value (ofBytes bs) := by
  rw [ofBytes_cons, value_append, value_ofNat, length_ofBytes, Nat.mod_eq_of_lt b.toNat_lt]

end Bits
