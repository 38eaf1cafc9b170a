import FerroHttp.Lib.Base64
import FerroHttp.Lib.Split
import FerroHttp.WebUi.Sha256

/-!
# WebUi.BasicAuth — the credentials of an admin request

`base64Decode` drops every `=` and decodes what is left in groups of four, the last one
perhaps shorter. It reads the characters of the alphabet and no others
(`base64Val_eq_some_iff`), and returns what the digits stand for (`base64Decode_iff`), so it
undoes the encoding, and `basicAuthOk` holds for the right credentials alone.
-/

namespace FerroHttp

open Text

/-! ## Decoding -/

/-- The value of a character of the alphabet. -/
def base64Val (c : UInt8) : Option UInt8 :=
  if 0x41 ≤ c && c ≤ 0x5a then some (c - 0x41)
  else if 0x61 ≤ c && c ≤ 0x7a then some (c - 0x61 + 26)
  else if 0x30 ≤ c && c ≤ 0x39 then some (c - 0x30 + 52)
  else if c == 0x2b then some 62
  else if c == 0x2f then some 63
  else none

/-- `[T]::chunks(4)`. -/
def chunks4 : Bytes → List Bytes
  | a :: b :: c :: d :: rest => [a, b, c, d] :: chunks4 rest
  | [] => []
  | last => [last]

/-- The bytes of one chunk. -/
def base64Chunk (chunk : Bytes) : Option Bytes :=
  -- a lone trailing character is malformed
  if chunk.length = 1 then none
  else do
    let buf ← chunk.mapM base64Val
    let b := fun i => buf.getD i 0
    some ([(b 0 <<< 2) ||| (b 1 >>> 4)] ++
      (if 3 ≤ chunk.length then [(b 1 <<< 4) ||| (b 2 >>> 2)] else []) ++
      (if chunk.length = 4 then [(b 2 <<< 6) ||| b 3] else []))

/-- Decode base64; padding is not looked at. -/
def base64Decode (input : String) : Option Bytes :=
  ((chunks4 ((utf8 input).filter (· != 0x3d))).mapM base64Chunk).map List.flatten

/-- Do the credentials of an `Authorization` header match? -/
def basicAuthOk (header username passwordSha256 : String) : Bool :=
  if username.isEmpty || passwordSha256.isEmpty then false
  else
    match stripPrefix "Basic " header with
    | none => false
    | some rest =>
      match base64Decode (trim rest) with
      | none => false
      | some decoded =>
        match fromUtf8 decoded with
        | none => false
        | some text =>
          match splitOnce ':' text with
          | none => false
          | some (user, pass) =>
            let passHash := sha256Hex (utf8 pass)
            constantTimeEq (utf8 user) (utf8 username) &&
              constantTimeEq (utf8 passHash) (utf8 passwordSha256)

/-! ## What the groups stand for -/

section Groups

variable {x y z w : UInt8} {l bs out : Bytes}

theorem base64Val_lt {c v : UInt8} (h : base64Val c = some v) : v.toNat < 64 := by
  have hall : ∀ c : UInt8, (base64Val c).all (fun v => v.toNat < 64) = true :=
    forall_byte (by decide +kernel)
  have hc := hall c
  rw [h] at hc
  exact of_decide_eq_true hc

/-- Bits of one digit in front of bits of the next one. -/
theorem or_shift_toNat {i j : UInt8} (hi : i.toNat < 8) (hj : j.toNat < 8)
    (hy : y.toNat < 2 ^ (i.toNat + j.toNat)) :
    ((x <<< i) ||| (y >>> j)).toNat = x.toNat * 2 ^ i.toNat % 256 + y.toNat / 2 ^ j.toNat := by
  have hwords : 256 = 2 ^ (8 - i.toNat) * 2 ^ i.toNat := by
    rw [← Nat.pow_add, Nat.sub_add_cancel (Nat.le_of_lt hi)]
  have hlow : y.toNat / 2 ^ j.toNat < 2 ^ i.toNat := by
    rw [Nat.div_lt_iff_lt_mul (Nat.two_pow_pos _), ← Nat.pow_add]
    exact hy
  have hhigh : x.toNat * 2 ^ i.toNat % 256 = (x.toNat % 2 ^ (8 - i.toNat)) * 2 ^ i.toNat := by
    rw [hwords, Nat.mul_mod_mul_right]
  rw [UInt8.toNat_or, UInt8.toNat_shiftLeft, UInt8.toNat_shiftRight, Nat.mod_eq_of_lt hi,
    Nat.mod_eq_of_lt hj, Nat.shiftLeft_eq, Nat.shiftRight_eq_div_pow, hhigh, ← Nat.shiftLeft_eq,
    Nat.shiftLeft_add_eq_or_of_lt hlow]

/-- The bytes of a whole group. -/
theorem group_value (hx : x.toNat < 64) (hy : y.toNat < 64) (hz : z.toNat < 64) (hw : w.toNat < 64) :
    (((x <<< 2) ||| (y >>> 4)).toNat * 256 + ((y <<< 4) ||| (z >>> 2)).toNat) * 256 +
        ((z <<< 6) ||| w).toNat =
      ((x.toNat * 64 + y.toNat) * 64 + z.toNat) * 64 + w.toNat := by
  have h₁ : ((x <<< 2) ||| (y >>> 4)).toNat = x.toNat * 4 % 256 + y.toNat / 16 :=
    or_shift_toNat (by decide) (by decide) hy
  have h₂ : ((y <<< 4) ||| (z >>> 2)).toNat = y.toNat * 16 % 256 + z.toNat / 4 :=
    or_shift_toNat (by decide) (by decide) hz
  have h₃ : ((z <<< 6) ||| (w >>> 0)).toNat = z.toNat * 64 % 256 + w.toNat / 1 :=
    or_shift_toNat (by decide) (by decide) hw
  have hzero : w >>> 0 = w := by simp
  rw [hzero] at h₃
  omega

theorem base64Chunk_four {a b c d : UInt8} : base64Chunk [a, b, c, d] = some out ↔
    ∃ x y z w, base64Val a = some x ∧ base64Val b = some y ∧ base64Val c = some z ∧
      base64Val d = some w ∧
      [(x <<< 2) ||| (y >>> 4), (y <<< 4) ||| (z >>> 2), (z <<< 6) ||| w] = out := by
  simp [base64Chunk, List.mapM_cons, Option.bind_eq_some_iff, and_assoc]

theorem base64Chunk_three {a b c : UInt8} : base64Chunk [a, b, c] = some out ↔
    ∃ x y z, base64Val a = some x ∧ base64Val b = some y ∧ base64Val c = some z ∧
      [(x <<< 2) ||| (y >>> 4), (y <<< 4) ||| (z >>> 2)] = out := by
  simp [base64Chunk, List.mapM_cons, Option.bind_eq_some_iff, and_assoc]

theorem base64Chunk_two {a b : UInt8} : base64Chunk [a, b] = some out ↔
    ∃ x y, base64Val a = some x ∧ base64Val b = some y ∧ [(x <<< 2) ||| (y >>> 4)] = out := by
  simp [base64Chunk, List.mapM_cons, Option.bind_eq_some_iff]

theorem mapM_cons_eq_some {α β : Type} {f : α → Option β} {a : α} {as : List α} {bs : List β} :
    (a :: as).mapM f = some bs ↔ ∃ b bs', f a = some b ∧ as.mapM f = some bs' ∧ b :: bs' = bs := by
  simp [List.mapM_cons, Option.bind_eq_some_iff]

/-- The chunks are decoded to what the digits stand for. -/
theorem chunks_decoded {outs : List Bytes} (h : (chunks4 l).mapM base64Chunk = some outs) :
    ∃ ds, l.mapM base64Val = some ds ∧ ds.length % 4 ≠ 1 ∧
      Base64.Decoded (ds.map UInt8.toNat) outs.flatten := by
  fun_induction chunks4 l generalizing outs with
  | case1 a b c d rest ih =>
    rcases mapM_cons_eq_some.mp h with ⟨out, outs', hchunk, hrest, rfl⟩
    rcases base64Chunk_four.mp hchunk with ⟨x, y, z, w, hx, hy, hz, hw, rfl⟩
    rcases ih hrest with ⟨ds, hds, hlen, hdecoded⟩
    refine ⟨x :: y :: z :: w :: ds, ?_, ?_, ?_⟩
    · simp [List.mapM_cons, hx, hy, hz, hw, hds]
    · simp only [List.length_cons]
      omega
    · exact hdecoded.cons (group_value (base64Val_lt hx) (base64Val_lt hy) (base64Val_lt hz)
        (base64Val_lt hw))
  | case2 =>
    cases h
    exact ⟨[], rfl, by decide, .nil⟩
  | case3 last hlong hempty =>
    rcases mapM_cons_eq_some.mp h with ⟨out, outs', hchunk, hrest, rfl⟩
    cases hrest
    -- the last chunk has one, two or three digits
    rcases last with _ | ⟨a, _ | ⟨b, _ | ⟨c, _ | ⟨d, rest⟩⟩⟩⟩
    · exact (hempty rfl).elim
    · cases hchunk
    · rcases base64Chunk_two.mp hchunk with ⟨x, y, hx, hy, rfl⟩
      have hlt := base64Val_lt hy
      have hone : ((x <<< 2) ||| (y >>> 4)).toNat = x.toNat * 4 % 256 + y.toNat / 16 :=
        or_shift_toNat (by decide) (by decide) hlt
      have hlt' := base64Val_lt hx
      refine ⟨[x, y], by simp [List.mapM_cons, hx, hy], by simp, .one ?_⟩
      omega
    · rcases base64Chunk_three.mp hchunk with ⟨x, y, z, hx, hy, hz, rfl⟩
      have hltx := base64Val_lt hx
      have hlty := base64Val_lt hy
      have hltz := base64Val_lt hz
      have hone : ((x <<< 2) ||| (y >>> 4)).toNat = x.toNat * 4 % 256 + y.toNat / 16 :=
        or_shift_toNat (by decide) (by decide) hlty
      have htwo : ((y <<< 4) ||| (z >>> 2)).toNat = y.toNat * 16 % 256 + z.toNat / 4 :=
        or_shift_toNat (by decide) (by decide) hltz
      refine ⟨[x, y, z], by simp [List.mapM_cons, hx, hy, hz], by simp, .two ?_⟩
      omega
    · exact (hlong a b c d rest rfl).elim

/-- Digits that do not leave one alone are decoded. -/
theorem chunks_returns {ds : Bytes} (h : l.mapM base64Val = some ds) (hlen : ds.length % 4 ≠ 1) :
    ∃ outs, (chunks4 l).mapM base64Chunk = some outs := by
  fun_induction chunks4 l generalizing ds with
  | case1 a b c d rest ih =>
    rcases mapM_cons_eq_some.mp h with ⟨x, ds₁, hx, hrest₁, rfl⟩
    rcases mapM_cons_eq_some.mp hrest₁ with ⟨y, ds₂, hy, hrest₂, rfl⟩
    rcases mapM_cons_eq_some.mp hrest₂ with ⟨z, ds₃, hz, hrest₃, rfl⟩
    rcases mapM_cons_eq_some.mp hrest₃ with ⟨w, ds₄, hw, hrest₄, rfl⟩
    have hlen' : ds₄.length % 4 ≠ 1 := by
      simp only [List.length_cons] at hlen
      omega
    rcases ih hrest₄ hlen' with ⟨outs, houts⟩
    exact ⟨_, mapM_cons_eq_some.mpr ⟨_, outs,
      base64Chunk_four.mpr ⟨x, y, z, w, hx, hy, hz, hw, rfl⟩, houts, rfl⟩⟩
  | case2 => exact ⟨[], rfl⟩
  | case3 last hlong hempty =>
    rcases last with _ | ⟨a, _ | ⟨b, _ | ⟨c, _ | ⟨d, rest⟩⟩⟩⟩
    · exact (hempty rfl).elim
    · rcases mapM_cons_eq_some.mp h with ⟨x, ds₁, _, hrest, rfl⟩
      cases hrest
      exact (hlen rfl).elim
    · rcases mapM_cons_eq_some.mp h with ⟨x, ds₁, hx, hrest₁, rfl⟩
      rcases mapM_cons_eq_some.mp hrest₁ with ⟨y, ds₂, hy, _, rfl⟩
      exact ⟨_, mapM_cons_eq_some.mpr ⟨_, [], base64Chunk_two.mpr ⟨x, y, hx, hy, rfl⟩, rfl, rfl⟩⟩
    · rcases mapM_cons_eq_some.mp h with ⟨x, ds₁, hx, hrest₁, rfl⟩
      rcases mapM_cons_eq_some.mp hrest₁ with ⟨y, ds₂, hy, hrest₂, rfl⟩
      rcases mapM_cons_eq_some.mp hrest₂ with ⟨z, ds₃, hz, _, rfl⟩
      exact ⟨_, mapM_cons_eq_some.mpr ⟨_, [],
        base64Chunk_three.mpr ⟨x, y, z, hx, hy, hz, rfl⟩, rfl, rfl⟩⟩
    · exact (hlong a b c d rest rfl).elim

/-- What a text is decoded to: without its `=`, the bytes its digits stand for. -/
theorem base64Decode_eq_some_iff {input : String} : base64Decode input = some bs ↔
    ∃ ds, ((utf8 input).filter (· != 0x3d)).mapM base64Val = some ds ∧ ds.length % 4 ≠ 1 ∧
      Base64.Decoded (ds.map UInt8.toNat) bs := by
  rw [base64Decode, Option.map_eq_some_iff]
  constructor
  · rintro ⟨outs, houts, rfl⟩
    exact chunks_decoded houts
  · rintro ⟨ds, hds, hlen, hdecoded⟩
    rcases chunks_returns hds hlen with ⟨outs, houts⟩
    rcases chunks_decoded houts with ⟨ds', hds', _, hdecoded'⟩
    rw [hds] at hds'
    cases hds'
    exact ⟨outs, houts, hdecoded'.unique hdecoded⟩

/-! ## Encodings -/

/-- A character of the alphabet stands for its digit. -/
theorem base64Val_symbol {k : Nat} (hk : k < 64) :
    (Base64.symbol k).toNat < 128 ∧ isWhitespace (Base64.symbol k) = false ∧
      base64Val (Base64.symbol k).toUInt8 = some (UInt8.ofNat k) ∧
      (Base64.symbol k).toUInt8 ≠ 0x3d := by
  have hall : ∀ k < 64, (Base64.symbol k).toNat < 128 ∧ isWhitespace (Base64.symbol k) = false ∧
      base64Val (Base64.symbol k).toUInt8 = some (UInt8.ofNat k) ∧
      (Base64.symbol k).toUInt8 ≠ 0x3d := by decide +kernel
  exact hall k hk

/-- No other byte is a digit. -/
theorem base64Val_eq_some_iff {c v : UInt8} :
    base64Val c = some v ↔ v.toNat < 64 ∧ c = (Base64.symbol v.toNat).toUInt8 := by
  constructor
  · intro h
    have hall : ∀ c : UInt8,
        (base64Val c).all (fun v => c == (Base64.symbol v.toNat).toUInt8) = true :=
      forall_byte (by decide +kernel)
    have hc := hall c
    rw [h] at hc
    exact ⟨base64Val_lt h, eq_of_beq hc⟩
  · rintro ⟨hlt, rfl⟩
    rw [(base64Val_symbol hlt).2.2.1, UInt8.ofNat_toNat]

/-- Base64 for a byte string: without every `=` in it, the text is the characters of digits
that stand for the bytes, and none of the digits is left alone. -/
def IsBase64 (input : String) (bs : Bytes) : Prop :=
  ∃ ds : List Nat, (∀ d ∈ ds, d < 64) ∧
    (utf8 input).filter (· != 0x3d) = ds.map (fun d => (Base64.symbol d).toUInt8) ∧
    ds.length % 4 ≠ 1 ∧ Base64.Decoded ds bs

theorem mapM_base64Val_iff {ds : Bytes} : l.mapM base64Val = some ds ↔
    (∀ d ∈ ds, d.toNat < 64) ∧ l = ds.map fun d => (Base64.symbol d.toNat).toUInt8 := by
  induction l generalizing ds with
  | nil =>
    cases ds with
    | nil => simp
    | cons d ds => simp
  | cons c l ih =>
    rw [mapM_cons_eq_some]
    constructor
    · rintro ⟨d, ds', hd, hds, rfl⟩
      rcases base64Val_eq_some_iff.mp hd with ⟨hlt, rfl⟩
      rcases ih.mp hds with ⟨hlts, rfl⟩
      exact ⟨List.forall_mem_cons.mpr ⟨hlt, hlts⟩, rfl⟩
    · rintro ⟨hlt, hmap⟩
      cases ds with
      | nil => cases hmap
      | cons d ds =>
        rw [List.forall_mem_cons] at hlt
        rw [List.map_cons, List.cons.injEq] at hmap
        exact ⟨d, ds, base64Val_eq_some_iff.mpr ⟨hlt.1, hmap.1⟩, ih.mpr ⟨hlt.2, hmap.2⟩, rfl⟩

/-- The decoder accepts base64, and nothing else. -/
theorem base64Decode_iff {input : String} : base64Decode input = some bs ↔ IsBase64 input bs := by
  rw [base64Decode_eq_some_iff]
  constructor
  · rintro ⟨ds, hds, hlen, hdecoded⟩
    rcases mapM_base64Val_iff.mp hds with ⟨hlt, hmap⟩
    refine ⟨ds.map UInt8.toNat, ?_, ?_, by rwa [List.length_map], hdecoded⟩
    · intro d hd
      rcases List.mem_map.mp hd with ⟨d', hd', rfl⟩
      exact hlt d' hd'
    · rw [hmap, List.map_map]
      rfl
  · rintro ⟨ds, hlt, hmap, hlen, hdecoded⟩
    have hback : (ds.map UInt8.ofNat).map UInt8.toNat = ds := by
      rw [List.map_map]
      refine (List.map_congr_left ?_).trans (List.map_id _)
      intro d hd
      have hd' := hlt d hd
      show (UInt8.ofNat d).toNat = d
      simp [Nat.mod_eq_of_lt (by omega : d < 256)]
    refine ⟨ds.map UInt8.ofNat, ?_, by rwa [List.length_map], by rwa [hback]⟩
    rw [mapM_base64Val_iff]
    constructor
    · intro d hd
      apply hlt
      rw [← hback]
      exact List.mem_map_of_mem hd
    · rw [hmap]
      conv_lhs => rw [← hback]
      rw [List.map_map]
      rfl

/-- The characters of an encoding: none of them is white space. -/
theorem encode_ascii {padded : Bool} {c : Char} (h : c ∈ (Base64.encode padded bs).toList) :
    c.toNat < 128 ∧ isWhitespace c = false := by
  rw [Base64.encode, String.toList_ofList, List.mem_append, List.mem_map] at h
  rcases h with ⟨k, hk, rfl⟩ | h
  · have hsymbol := base64Val_symbol (Base64.sextets_lt bs k hk)
    exact ⟨hsymbol.1, hsymbol.2.1⟩
  · cases padded with
    | false => cases h
    | true =>
      rw [List.eq_of_mem_replicate h]
      decide

/-- Without its padding, an encoding is the characters of its digits. -/
theorem filter_encode (padded : Bool) (bs : Bytes) :
    (utf8 (Base64.encode padded bs)).filter (· != 0x3d) =
      (Base64.sextets bs).map (fun k => (Base64.symbol k).toUInt8) := by
  have hbytes : utf8 (Base64.encode padded bs) =
      (Base64.encode padded bs).toList.map Char.toUInt8 :=
    encode_of_ascii fun c hc => (encode_ascii hc).1
  have hdigits : ((Base64.sextets bs).map fun k => (Base64.symbol k).toUInt8).filter (· != 0x3d) =
      (Base64.sextets bs).map fun k => (Base64.symbol k).toUInt8 := by
    rw [List.filter_eq_self]
    intro b hb
    rcases List.mem_map.mp hb with ⟨k, hk, rfl⟩
    have hsymbol := base64Val_symbol (Base64.sextets_lt bs k hk)
    simpa using hsymbol.2.2.2
  rw [hbytes, Base64.encode, String.toList_ofList, List.map_append, List.map_map,
    List.filter_append]
  have hpad : ((if padded then List.replicate (Base64.padding bs) '=' else []).map
      Char.toUInt8).filter (· != 0x3d) = [] := by
    rw [List.filter_eq_nil_iff]
    intro b hb
    rcases List.mem_map.mp hb with ⟨c, hc, rfl⟩
    cases padded with
    | false => cases hc
    | true =>
      rw [List.eq_of_mem_replicate hc]
      decide
  rw [hpad, List.append_nil]
  exact hdigits

/-- Decoding undoes the encoding, padded or not. -/
theorem base64Decode_encode (padded : Bool) (bs : Bytes) :
    base64Decode (Base64.encode padded bs) = some bs :=
  base64Decode_iff.mpr ⟨Base64.sextets bs, Base64.sextets_lt bs, filter_encode padded bs,
    Base64.length_sextets bs, Base64.decoded_sextets bs⟩

end Groups

/-! ## Credentials -/

section Credentials

variable {header u pw h : String}

theorem compress_ne_nil {hash : List UInt32} (block : Bytes) (hne : hash ≠ []) :
    Sha256.compress hash block ≠ [] := by
  cases hash with
  | nil => exact (hne rfl).elim
  | cons word hash => simp [Sha256.compress]

/-- No digest is the empty text. -/
theorem sha256Hex_ne_empty (input : Bytes) : sha256Hex input ≠ "" := by
  have hfold : ∀ (blocks : List Bytes) (hash : List UInt32), hash ≠ [] →
      blocks.foldl Sha256.compress hash ≠ [] := by
    intro blocks
    induction blocks with
    | nil => exact fun _ hne => hne
    | cons block blocks ih => exact fun hash hne => ih _ (compress_ne_nil block hne)
  have hwords := hfold (Sha256.blocks ((Sha256.pad input).length / 64) (Sha256.pad input))
    Sha256.h0 (by decide)
  rcases List.exists_cons_of_ne_nil hwords with ⟨word, words, hword⟩
  have hlength : 8 ≤ (Sha256.hexWord word).toList.length := by
    rw [Sha256.hexWord, String.toList_ofList, List.length_leftpad]
    exact Nat.le_max_left 8 _
  intro hempty
  rw [sha256Hex, hword, List.map_cons, String.join_cons] at hempty
  have hnil := congrArg (fun s => s.toList.length) hempty
  simp only [String.toList_append, List.length_append] at hnil
  have hzero : "".toList.length = 0 := rfl
  omega

/-- A header with credentials in either form of the encoding. -/
def basicHeader (padded : Bool) (u pw : String) : String :=
  "Basic " ++ Base64.encode padded (utf8 (u ++ ":" ++ pw))

/-- The user and the password that a header carries. -/
def headerCredentials (header : String) : Option (String × String) := do
  let rest ← stripPrefix "Basic " header
  let decoded ← base64Decode (trim rest)
  let text ← fromUtf8 decoded
  splitOnce ':' text

theorem headerCredentials_eq_some_iff : headerCredentials header = some (u, pw) ↔
    ∃ rest decoded text, stripPrefix "Basic " header = some rest ∧
      base64Decode (trim rest) = some decoded ∧ fromUtf8 decoded = some text ∧
      splitOnce ':' text = some (u, pw) := by
  simp only [headerCredentials, Option.bind_eq_bind, Option.bind_eq_some_iff]
  constructor
  · rintro ⟨rest, hrest, decoded, hdecoded, text, htext, hpair⟩
    exact ⟨rest, decoded, text, hrest, hdecoded, htext, hpair⟩
  · rintro ⟨rest, decoded, text, hrest, hdecoded, htext, hpair⟩
    exact ⟨rest, hrest, decoded, hdecoded, text, htext, hpair⟩

/-- Past the empty settings, the check compares what the header carries. -/
theorem basicAuthOk_eq (header : String) (hu : u ≠ "") (hh : h ≠ "") :
    basicAuthOk header u h =
      match headerCredentials header with
      | some (user, pass) => constantTimeEq (utf8 user) (utf8 u) &&
          constantTimeEq (utf8 (sha256Hex (utf8 pass))) (utf8 h)
      | none => false := by
  have hskip : ¬ (u.isEmpty || h.isEmpty) = true := by
    rw [Bool.or_eq_true, String.isEmpty_iff, String.isEmpty_iff]
    exact fun hor => hor.elim hu hh
  rw [basicAuthOk, if_neg hskip]
  -- every way out before the comparison is a refusal
  cases hstrip : stripPrefix "Basic " header with
  | none => simp [headerCredentials, hstrip]
  | some rest =>
    cases hdecode : base64Decode (trim rest) with
    | none => simp [headerCredentials, hstrip, hdecode]
    | some decoded =>
      cases htext : fromUtf8 decoded with
      | none => simp [headerCredentials, hstrip, hdecode, htext]
      | some text =>
        simp only [headerCredentials, hstrip, hdecode, htext, Option.bind_eq_bind,
          Option.bind_some]
        cases splitOnce ':' text <;> rfl

/-- What it takes for a header to be accepted. -/
theorem basicAuthOk_iff : basicAuthOk header u h = true ↔
    u ≠ "" ∧ h ≠ "" ∧ ∃ pw, headerCredentials header = some (u, pw) ∧
      sha256Hex (utf8 pw) = h := by
  by_cases hset : u ≠ "" ∧ h ≠ ""
  · rw [basicAuthOk_eq header hset.1 hset.2]
    cases headerCredentials header with
    | none => simp
    | some pair =>
      rcases pair with ⟨user, pass⟩
      simp only [Bool.and_eq_true, constantTimeEq_iff, Option.some.injEq, Prod.mk.injEq]
      constructor
      · rintro ⟨huser, hpass⟩
        exact ⟨hset.1, hset.2, pass, ⟨utf8_injective huser, rfl⟩, utf8_injective hpass⟩
      · rintro ⟨-, -, pw, ⟨rfl, rfl⟩, rfl⟩
        exact ⟨rfl, rfl⟩
  · have hskip : (u.isEmpty || h.isEmpty) = true := by
      rw [Bool.or_eq_true, String.isEmpty_iff, String.isEmpty_iff]
      by_contra hnone
      rw [not_or] at hnone
      exact hset hnone
    rw [basicAuthOk, if_pos hskip]
    constructor
    · intro hfalse
      cases hfalse
    · rintro ⟨hu, hh, _⟩
      exact (hset ⟨hu, hh⟩).elim

/-- The header for a user and a password carries them. -/
theorem headerCredentials_basicHeader (padded : Bool) (hfree : ':' ∉ u.toList) :
    headerCredentials (basicHeader padded u pw) = some (u, pw) := by
  have hclean : CleanEnds isWhitespace (Base64.encode padded (utf8 (u ++ ":" ++ pw))).toList :=
    ⟨fun c hc => (encode_ascii (List.mem_of_mem_head? hc)).2,
      fun c hc => (encode_ascii (List.mem_of_getLast? hc)).2⟩
  have hdecode := base64Decode_encode padded (utf8 (u ++ ":" ++ pw))
  rw [← trim_of_cleanEnds hclean] at hdecode
  exact headerCredentials_eq_some_iff.mpr ⟨_, _, _, stripPrefix_append _ _, hdecode,
    fromUtf8_utf8 _, splitOnce_append rfl hfree pw⟩

/-- What is required of the check. The text behind `Basic ` counts without the white space
around it. -/
structure CredentialsExact : Prop where
  accepts : ∀ (padded : Bool) (u pw pw' : String), u ≠ "" → ':' ∉ u.toList →
    (basicAuthOk (basicHeader padded u pw) u (sha256Hex (utf8 pw')) = true ↔
      sha256Hex (utf8 pw) = sha256Hex (utf8 pw'))
  only : ∀ header u h : String, basicAuthOk header u h = true → u ≠ "" ∧ h ≠ "" ∧
    ∃ rest decoded pw, header = "Basic " ++ rest ∧ IsBase64 (trim rest) decoded ∧
      fromUtf8 decoded = some (u ++ ":" ++ pw) ∧ sha256Hex (utf8 pw) = h
  decodes : ∀ (padded : Bool) (bs : Bytes), base64Decode (Base64.encode padded bs) = some bs
  reads : ∀ (input : String) (bs : Bytes), base64Decode input = some bs ↔ IsBase64 input bs
  digits : ∀ c v : UInt8,
    base64Val c = some v ↔ v.toNat < 64 ∧ c = (Base64.symbol v.toNat).toUInt8
  compares : ∀ a b : Bytes, constantTimeEq a b = true ↔ a = b

/-- The check accepts exactly the right credentials. -/
theorem credentials_exact : CredentialsExact where
  accepts := by
    intro padded u pw pw' hne hfree
    rw [basicAuthOk_iff, headerCredentials_basicHeader padded hfree]
    constructor
    · rintro ⟨-, -, pass, hpair, hdigest⟩
      cases hpair
      exact hdigest
    · intro hdigest
      exact ⟨hne, sha256Hex_ne_empty _, pw, rfl, hdigest⟩
  only := by
    intro header u h hok
    rcases basicAuthOk_iff.mp hok with ⟨hu, hh, pw, hcredentials, hdigest⟩
    rcases headerCredentials_eq_some_iff.mp hcredentials with
      ⟨rest, decoded, text, hrest, hdecoded, htext, hpair⟩
    have hform : text = u ++ ":" ++ pw := splitOnce_eq_some rfl hpair
    rw [hform] at htext
    exact ⟨hu, hh, rest, decoded, pw, stripPrefix_eq_some hrest, base64Decode_iff.mp hdecoded,
      htext, hdigest⟩
  decodes := base64Decode_encode
  reads := fun _ _ => base64Decode_iff
  digits := fun _ _ => base64Val_eq_some_iff
  compares := fun a b => constantTimeEq_iff

end Credentials

end FerroHttp
