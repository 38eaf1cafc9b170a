import FerroHttp.Lib.Crc
import FerroHttp.Compress

/-!
# Compress.Gzip — the container holds one member

`readMember` is a decoder of RFC 1952 for members without optional fields. What
`gzipEncode` writes is one member, with the data, its CRC-32 and its length in it
(`gzipEncode_exact`).
-/

namespace FerroHttp

open Text

/-! ## The checksum -/

section Checksum

variable {c : UInt32} {m : List Bool}

/-- The mask of the lowest bit selects the polynomial. -/
theorem crc32Bit_eq (c : UInt32) : (crc32Bit c).toBitVec = Crc.step 0xedb88320 c.toBitVec := by
  have hlow : (c &&& 1).toBitVec = (BitVec.ofBool (c.toBitVec.getLsbD 0)).setWidth 32 := by
    rw [UInt32.toBitVec_and]
    exact BitVec.and_one_eq_setWidth_ofBool_getLsbD
  have hshift : (c >>> 1).toBitVec = c.toBitVec >>> 1 := rfl
  have hmask : (0xedb88320 &&& (0 - (c &&& 1))).toBitVec =
      if c.toBitVec.getLsbD 0 then 0xedb88320 else 0 := by
    rw [UInt32.toBitVec_and, UInt32.toBitVec_sub, hlow]
    cases c.toBitVec.getLsbD 0 with
    | false => decide
    | true => decide
  rw [crc32Bit, UInt32.toBitVec_xor, hshift, hmask]
  rfl

/-- The reflected polynomial. -/
theorem generator_eq : Crc.generator 32 0x04c11db7 = Polynomial.X ^ 32 + Crc.reg (0xedb88320 : BitVec 32) := by
  have hreverse : (Bits.ofNat 32 (0xedb88320 : BitVec 32).toNat).reverse = Bits.ofNat 32 0x04c11db7 := by
    decide
  rw [Crc.generator, Crc.reg, hreverse]

/-- One byte extends the message by its bits, the lowest one first. -/
theorem crc32Byte_absorb (b : UInt8) (h : Crc.reg c.toBitVec =
    Crc.remainder (Crc.generator 32 0x04c11db7) (List.replicate 32 true) m) :
    Crc.reg (crc32Byte c b).toBitVec = Crc.remainder (Crc.generator 32 0x04c11db7)
      (List.replicate 32 true) (m ++ (Bits.ofNat 8 b.toNat).reverse) := by
  have hlength : (Bits.ofNat 8 b.toNat).reverse.length = 8 := by
    rw [List.length_reverse, Bits.length_ofNat]
  have hsteps : ∀ (n : Nat) (c : UInt32),
      ((List.range n).foldl (fun crc _ => crc32Bit crc) c).toBitVec =
        (Crc.step 0xedb88320)^[n] c.toBitVec := by
    intro n c
    induction n with
    | zero => rfl
    | succ n ih =>
      rw [List.range_succ, List.foldl_append, List.foldl_cons, List.foldl_nil, crc32Bit_eq, ih,
        Function.iterate_succ_apply']
  -- the byte takes the upper eight coefficients
  have hbyte : Crc.reg b.toUInt32.toBitVec =
      Crc.ofBits (Bits.ofNat 8 b.toNat).reverse * Polynomial.X ^ (32 - 8) := by
    have hhigh : Bits.ofNat 32 b.toUInt32.toBitVec.toNat =
        List.replicate 24 false ++ Bits.ofNat 8 b.toNat := by
      have hsplit : Bits.ofNat 32 b.toNat = _ := Bits.ofNat_add 24 8 b.toNat
      have hzero : b.toNat / 2 ^ 8 = 0 := Nat.div_eq_of_lt b.toNat_lt
      rw [hzero, Bits.ofNat_zero] at hsplit
      exact hsplit
    rw [Crc.reg, hhigh, List.reverse_append, Crc.ofBits_append, List.reverse_replicate,
      Crc.ofBits_zeros, add_zero, List.length_replicate]
  rw [generator_eq] at h ⊢
  have habsorb := @Crc.reg_absorb 32 _ _ (Bits.ofNat 8 b.toNat).reverse (by decide) 0xedb88320 _
    b.toUInt32.toBitVec (List.length_replicate) h (by rw [hlength]; decide) (by rw [hlength]; exact hbyte)
  rw [hlength] at habsorb
  rw [crc32Byte, hsteps]
  exact habsorb

/-- The loop computes the checksum of the standard. -/
theorem crc32_eq (data : Bytes) : (crc32 data).toNat = Crc.crc32 data := by
  have hfold : ∀ (data done : Bytes) (c : UInt32), Crc.reg c.toBitVec =
      Crc.remainder (Crc.generator 32 0x04c11db7) (List.replicate 32 true) (Crc.reflected done) →
        Crc.reg (data.foldl crc32Byte c).toBitVec = Crc.remainder (Crc.generator 32 0x04c11db7)
          (List.replicate 32 true) (Crc.reflected (done ++ data)) := by
    intro data
    induction data with
    | nil =>
      intro done c h
      rw [List.append_nil]
      exact h
    | cons b data ih =>
      intro done c h
      have hnext := ih (done ++ [b]) (crc32Byte c b) (by
        rw [Crc.reflected, List.flatMap_append, List.flatMap_singleton]
        exact crc32Byte_absorb b h)
      rw [List.append_assoc] at hnext
      exact hnext
  have hstart : Crc.reg (0xffffffff : UInt32).toBitVec =
      Crc.remainder (Crc.generator 32 0x04c11db7) (List.replicate 32 true) (Crc.reflected []) := by
    have hones : (Bits.ofNat 32 (0xffffffff : UInt32).toBitVec.toNat).reverse =
        List.replicate 32 true := by decide
    have hdegree : (Crc.generator 32 0x04c11db7).degree =
        ((List.replicate 32 true).length : WithBot Nat) := by
      rw [List.length_replicate, generator_eq]
      exact Crc.degree_X_pow_add (Crc.degree_reg_lt _)
    have hnil := Crc.remainder_nil (Crc.generator_monic 32 0x04c11db7) hdegree
    rw [Crc.reg, hones]
    exact hnil.symm
  have hall := hfold data [] 0xffffffff hstart
  exact Crc.toNat_not hall

end Checksum

/-! ## Members -/

/-- Four bytes, the lowest one first. -/
def littleEndian (a b c d : UInt8) : Nat :=
  a.toNat + 256 * (b.toNat + 256 * (c.toNat + 256 * d.toNat))

/-- What a member holds. -/
structure GzipMember where
  data : Bytes
  crc : Nat
  isize : Nat

/-- Read a member: a header of ten bytes without optional fields, the payload, as much as
inflating it takes, and a trailer of eight bytes. -/
def readMember (inflate : Bytes → Option (Bytes × Bytes)) (input : Bytes) :
    Option (GzipMember × Bytes) :=
  match input with
  -- magic, method, flags; then the time, the extra flags and the system
  | 0x1f :: 0x8b :: 8 :: 0 :: _ :: _ :: _ :: _ :: _ :: _ :: body =>
    match inflate body with
    | some (data, c₀ :: c₁ :: c₂ :: c₃ :: s₀ :: s₁ :: s₂ :: s₃ :: rest) =>
      some (⟨data, littleEndian c₀ c₁ c₂ c₃, littleEndian s₀ s₁ s₂ s₃⟩, rest)
    | _ => none
  | _ => none

section Members

variable {deflate : Bytes → Nat → Bytes} {inflate : Bytes → Option (Bytes × Bytes)}

/-- What is written in four bytes is read back. -/
theorem toLeBytes_eq (n : UInt32) :
    ∃ a b c d, toLeBytes n = [a, b, c, d] ∧ littleEndian a b c d = n.toNat := by
  have hlt : n.toNat < 2 ^ 32 := n.toNat_lt
  have hbyte : ∀ s : UInt32, s.toNat < 32 → (n >>> s).toUInt8.toNat = n.toNat / 2 ^ s.toNat % 256 := by
    intro s hs
    rw [UInt32.toNat_toUInt8, UInt32.toNat_shiftRight, Nat.mod_eq_of_lt hs,
      Nat.shiftRight_eq_div_pow]
  have h₁ : (n >>> 8).toUInt8.toNat = n.toNat / 256 % 256 := hbyte 8 (by decide)
  have h₂ : (n >>> 16).toUInt8.toNat = n.toNat / 65536 % 256 := hbyte 16 (by decide)
  have h₃ : (n >>> 24).toUInt8.toNat = n.toNat / 16777216 % 256 := hbyte 24 (by decide)
  refine ⟨_, _, _, _, rfl, ?_⟩
  rw [littleEndian, h₁, h₂, h₃, UInt32.toNat_toUInt8]
  omega

/-- What is required of the container around some data. -/
structure MemberExact (deflate : Bytes → Nat → Bytes) (inflate : Bytes → Option (Bytes × Bytes))
    (d : Bytes) : Prop where
  reads : readMember inflate (gzipEncode deflate d) = some (⟨d, Crc.crc32 d, d.length % 2 ^ 32⟩, [])
  stops : ∀ rest, readMember inflate (gzipEncode deflate d ++ rest) =
    some (⟨d, Crc.crc32 d, d.length % 2 ^ 32⟩, rest)

/-- The container holds one member. -/
theorem gzipEncode_exact (hinflate : ∀ d rest, inflate (deflate d 6 ++ rest) = some (d, rest))
    (d : Bytes) : MemberExact deflate inflate d := by
  rcases toLeBytes_eq (crc32 d) with ⟨c₀, c₁, c₂, c₃, hcrc, hcrc'⟩
  rcases toLeBytes_eq (UInt32.ofNat d.length) with ⟨s₀, s₁, s₂, s₃, hsize, hsize'⟩
  rw [crc32_eq] at hcrc'
  rw [UInt32.toNat_ofNat'] at hsize'
  have hstops : ∀ rest, readMember inflate (gzipEncode deflate d ++ rest) =
      some (⟨d, Crc.crc32 d, d.length % 2 ^ 32⟩, rest) := by
    intro rest
    have hpayload := hinflate d (c₀ :: c₁ :: c₂ :: c₃ :: s₀ :: s₁ :: s₂ :: s₃ :: rest)
    have hlayout : gzipEncode deflate d ++ rest =
        0x1f :: 0x8b :: 8 :: 0 :: 0 :: 0 :: 0 :: 0 :: 0 :: 0xff ::
          (deflate d 6 ++ (c₀ :: c₁ :: c₂ :: c₃ :: s₀ :: s₁ :: s₂ :: s₃ :: rest)) := by
      rw [gzipEncode, hcrc, hsize]
      simp
    rw [hlayout, readMember, hpayload]
    simp only [hcrc', hsize']
  have hreads := hstops []
  rw [List.append_nil] at hreads
  exact ⟨hreads, hstops⟩

/-! A compressor for tests: every byte in a stored block of its own, and an empty last
block of fixed codes. -/

def storeEach : Bytes → Bytes
  | [] => [3, 0]
  | b :: bs => 0 :: 1 :: 0 :: 0xfe :: 0xff :: b :: storeEach bs

/-- Inflate blocks of these two kinds. -/
def inflateEach : Bytes → Option (Bytes × Bytes)
  | 3 :: 0 :: rest => some ([], rest)
  | 0 :: 1 :: 0 :: 0xfe :: 0xff :: b :: rest =>
    (inflateEach rest).map fun out => (b :: out.1, out.2)
  | _ => none

theorem inflateEach_storeEach (d rest : Bytes) :
    inflateEach (storeEach d ++ rest) = some (d, rest) := by
  induction d with
  | nil => rfl
  | cons b d ih =>
    show (inflateEach (storeEach d ++ rest)).map (fun out => (b :: out.1, out.2)) = _
    rw [ih]
    rfl

/-- The member of an empty text. -/
theorem gzipEncode_empty_exact : (∀ d rest, inflateEach (storeEach d ++ rest) = some (d, rest)) ∧
    MemberExact (fun d _ => storeEach d) inflateEach [] :=
  ⟨inflateEach_storeEach, gzipEncode_exact inflateEach_storeEach []⟩

end Members

end FerroHttp
