import FerroHttp.Lib.Numeral

/-!
# Base64 — RFC 4648

Bytes in groups of three, as groups of four digits of six bits; the last group may be
shorter. `Decoded` says what digits stand for, by their value as one numeral:

1. `Decoded.unique`: digits stand for at most one byte string;
2. `decoded_sextets`: the digits of an encoding stand for what was encoded.
-/

namespace Base64

/-- The alphabet, in the order of the digits. -/
def alphabet : List Char :=
  "ABCDEFGHIJKLMNOPQRSTUVWXYZabcdefghijklmnopqrstuvwxyz0123456789+/".toList

/-- The character of a digit. -/
def symbol (k : Nat) : Char := alphabet.getD k 'A'

/-- The digits of a byte string; what is missing to six bits in the last one is zero. -/
def sextets : List UInt8 → List Nat
  | a :: b :: c :: rest =>
    let n := a.toNat * 65536 + b.toNat * 256 + c.toNat
    n / 262144 :: n / 4096 % 64 :: n / 64 % 64 :: n % 64 :: sextets rest
  | [a, b] =>
    let n := (a.toNat * 256 + b.toNat) * 4
    [n / 4096, n / 64 % 64, n % 64]
  | [a] =>
    let n := a.toNat * 16
    [n / 64, n % 64]
  | [] => []

/-- How many `=` fill the last group. -/
def padding (bs : List UInt8) : Nat := (3 - bs.length % 3) % 3

/-- The encoding, with or without padding. -/
def encode (padded : Bool) (bs : List UInt8) : String :=
  String.ofList ((sextets bs).map symbol ++
    if padded then List.replicate (padding bs) '=' else [])

/-- The bits of the digits, as many of them as make up whole bytes, are those of the
bytes. -/
structure Decoded (ds : List Nat) (bs : List UInt8) : Prop where
  length : bs.length = 6 * ds.length / 8
  value : Numeral.value 256 (bs.map UInt8.toNat) =
    Numeral.value 64 ds / 2 ^ (6 * ds.length % 8)

variable {ds : List Nat} {bs bs' : List UInt8} {a b c : UInt8} {x y z w : Nat}

/-- Bytes of the same number are the same. -/
theorem value_bytes_inj (hlen : bs.length = bs'.length)
    (h : Numeral.value 256 (bs.map UInt8.toNat) = Numeral.value 256 (bs'.map UInt8.toNat)) :
    bs = bs' := by
  have hlt : ∀ bs : List UInt8, Numeral.value 256 (bs.map UInt8.toNat) < 256 ^ bs.length := by
    intro bs
    induction bs with
    | nil => decide
    | cons b bs ih =>
      have hb : b.toNat * 256 ^ bs.length ≤ 255 * 256 ^ bs.length :=
        Nat.mul_le_mul_right _ (Nat.le_of_lt_succ b.toNat_lt)
      rw [List.map_cons, Numeral.value_cons, List.length_map, List.length_cons, Nat.pow_succ]
      omega
  induction bs generalizing bs' with
  | nil => exact (List.length_eq_zero_iff.mp hlen.symm).symm
  | cons b bs ih =>
    cases bs' with
    | nil => cases hlen
    | cons b' bs' =>
      rw [List.length_cons, List.length_cons, Nat.succ_inj] at hlen
      rw [List.map_cons, List.map_cons, Numeral.value_cons, Numeral.value_cons, List.length_map,
        List.length_map, hlen] at h
      have hpos : 0 < 256 ^ bs'.length := Nat.pow_pos (by decide)
      have htail := hlt bs
      have htail' := hlt bs'
      rw [hlen] at htail
      -- the leading byte is the quotient
      have hhead := congrArg (· / 256 ^ bs'.length) h
      simp only [Nat.mul_add_div hpos, Nat.mul_comm _ (256 ^ bs'.length),
        Nat.div_eq_of_lt htail, Nat.div_eq_of_lt htail', Nat.add_zero] at hhead
      have hb : b = b' := UInt8.toNat_inj.mp hhead
      subst hb
      rw [ih hlen (Nat.add_left_cancel h)]

theorem Decoded.unique (h : Decoded ds bs) (h' : Decoded ds bs') : bs = bs' :=
  value_bytes_inj (h.length.trans h'.length.symm) (h.value.trans h'.value.symm)

/-! ## Groups -/

theorem Decoded.nil : Decoded [] [] := ⟨rfl, rfl⟩

/-- A whole group in front. -/
theorem Decoded.cons (h : Decoded ds bs)
    (hgroup : (a.toNat * 256 + b.toNat) * 256 + c.toNat = ((x * 64 + y) * 64 + z) * 64 + w) :
    Decoded (x :: y :: z :: w :: ds) (a :: b :: c :: bs) := by
  have hlength := h.length
  refine ⟨?_, ?_⟩
  · simp only [List.length_cons]
    omega
  · have hmod : 6 * (x :: y :: z :: w :: ds).length % 8 = 6 * ds.length % 8 := by
      simp only [List.length_cons]
      omega
    have hbits : 64 ^ ds.length = 256 ^ bs.length * 2 ^ (6 * ds.length % 8) := by
      have h64 : (64 : Nat) = 2 ^ 6 := rfl
      have h256 : (256 : Nat) = 2 ^ 8 := rfl
      rw [h64, h256, ← Nat.pow_mul, ← Nat.pow_mul, ← Nat.pow_add, hlength]
      congr 1
      omega
    have hleft : Numeral.value 256 ((a :: b :: c :: bs).map UInt8.toNat) =
        ((a.toNat * 256 + b.toNat) * 256 + c.toNat) * 256 ^ bs.length +
          Numeral.value 256 (bs.map UInt8.toNat) := by
      simp only [List.map_cons, Numeral.value_cons, List.length_cons, List.length_map]
      ring
    have hright : Numeral.value 64 (x :: y :: z :: w :: ds) =
        (((x * 64 + y) * 64 + z) * 64 + w) * 64 ^ ds.length + Numeral.value 64 ds := by
      simp only [Numeral.value_cons, List.length_cons]
      ring
    rw [hmod, hleft, hright, h.value, hbits, ← Nat.mul_assoc, hgroup, Nat.mul_comm _ (2 ^ _),
      Nat.mul_add_div (Nat.two_pow_pos _)]

/-- Three digits at the end are two bytes. -/
theorem Decoded.two (h : a.toNat * 256 + b.toNat = ((x * 64 + y) * 64 + z) / 4) :
    Decoded [x, y, z] [a, b] := by
  refine ⟨by simp only [List.length_cons, List.length_nil], ?_⟩
  have hmod : 2 ^ (6 * [x, y, z].length % 8) = 4 := by simp
  rw [hmod]
  simpa [Numeral.value] using h

/-- Two digits at the end are one byte. -/
theorem Decoded.one (h : a.toNat = (x * 64 + y) / 16) : Decoded [x, y] [a] := by
  refine ⟨by simp only [List.length_cons, List.length_nil], ?_⟩
  have hmod : 2 ^ (6 * [x, y].length % 8) = 16 := by simp
  rw [hmod]
  simpa [Numeral.value] using h

/-- The digits of an encoding stand for what was encoded. -/
theorem decoded_sextets (bs : List UInt8) : Decoded (sextets bs) bs := by
  fun_induction sextets bs with
  | case1 a b c rest n ih =>
    refine ih.cons ?_
    have ha := a.toNat_lt
    have hb := b.toNat_lt
    have hc := c.toNat_lt
    omega
  | case2 a b n =>
    have ha := a.toNat_lt
    have hb := b.toNat_lt
    exact .two (by omega)
  | case3 a n =>
    have ha := a.toNat_lt
    exact .one (by omega)
  | case4 => exact .nil

theorem sextets_lt (bs : List UInt8) : ∀ d ∈ sextets bs, d < 64 := by
  fun_induction sextets bs with
  | case1 a b c rest n ih =>
    have ha := a.toNat_lt
    have hb := b.toNat_lt
    have hc := c.toNat_lt
    simp only [List.forall_mem_cons]
    refine ⟨?_, ?_, ?_, ?_, ih⟩ <;> omega
  | case2 a b n =>
    have ha := a.toNat_lt
    have hb := b.toNat_lt
    simp only [List.forall_mem_cons]
    refine ⟨?_, ?_, ?_, by simp⟩ <;> omega
  | case3 a n =>
    have ha := a.toNat_lt
    simp only [List.forall_mem_cons]
    refine ⟨?_, ?_, by simp⟩ <;> omega
  | case4 => simp

/-- No encoding leaves a digit alone. -/
theorem length_sextets (bs : List UInt8) : (sextets bs).length % 4 ≠ 1 := by
  fun_induction sextets bs with
  | case1 a b c rest n ih =>
    simp only [List.length_cons]
    omega
  | case2 a b n => simp
  | case3 a n => simp
  | case4 => simp

end Base64
