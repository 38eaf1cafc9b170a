import FerroHttp.Config.RoundTrip
import FerroHttp.Config.Schema

/-!
# Config.Saving — what was loaded can be saved and loaded again

Every number that the reader returns is read back from its own float, whatever its size,
so an accepted configuration survives being saved (`Savable.load`).
-/

namespace FerroHttp

open Exec Text

/-- A number that was read is whole. -/
theorem whole_of_asU64 {v : JsonValue} {n : Nat} (h : v.asU64 = some n) : Whole n := by
  cases v with
  | number x =>
    simp only [JsonValue.asU64] at h
    split at h
    · rename_i hbounds
      split at h
      · rename_i hback
        cases h
        rcases Binary64.unpack_of_beq hback with hsame | ⟨s, s', _, hzero⟩
        · -- its float is the number that was read
          have hfloat : Binary64.ofNat x.toUInt64.toNat = x.toUInt64.toFloat :=
            (Binary64.toFloat_eq _).symm
          have htrunc : x.toUInt64.toFloat.toUInt64 = x.toUInt64 := by
            rw [Binary64.toUInt64_eq_unpack x.toUInt64.toFloat, hsame,
              ← Binary64.toUInt64_eq_unpack]
          have hbounds' : Binary64.ofNat 0 ≤ x.toUInt64.toFloat ∧
              x.toUInt64.toFloat ≤ Binary64.ofNat (u64Values - 1) := by
            rw [Binary64.le_iff_unpack, Binary64.le_iff_unpack, hsame, ← Binary64.le_iff_unpack,
              ← Binary64.le_iff_unpack]
            exact hbounds
          have hback' : (x.toUInt64.toFloat == x.toUInt64.toFloat) = true := by
            rw [Binary64.beq_eq_unpack] at hback ⊢
            rw [← hsame] at hback
            exact hback
          simp only [Whole, JsonValue.asU64, hfloat, if_pos hbounds', htrunc, if_pos hback']
        · -- zero of either sign is read as 0
          have htrunc : x.toUInt64 = 0 := by
            rw [Binary64.toUInt64_eq_unpack, hzero]
            rfl
          rw [htrunc]
          exact whole_of_le (Nat.zero_le _)
      · cases h
    · cases h
  | _ => cases h

/-- A configuration that can be saved and loaded again. -/
structure Config.Savable (t : Target) (c : Config) : Prop where
  valid : c.validate = .ok ()
  range : c.InRange t
  whole : ∀ n ∈ c.numbers, Whole n

section Savable

variable {t : Target} {c : Config} {value : JsonValue} {key text : String} {slot : Nat}

theorem Config.Savable.load (h : c.Savable t) : fromJsonStr t c.toJsonString = .ok c :=
  load_toJsonString h.valid h.range h.whole

theorem Config.Savable.withAdmin (h : c.Savable t) (admin : AdminConfig) :
    { c with admin := admin }.Savable t :=
  ⟨h.valid, ⟨h.range.port, h.range.workerThreads, h.range.maxConnections,
    h.range.requestMaxBytes, h.range.minBytes⟩, h.whole⟩

/-! ## Settings -/

theorem setting_cases (value : JsonValue) (key : String) (slot : Nat) :
    setting JsonValue.asU64 value key slot = slot ∨ ∃ v, value.get key = some v ∧
      v.asU64 = some (setting JsonValue.asU64 value key slot) := by
  unfold setting
  cases hget : value.get key with
  | none => exact .inl rfl
  | some v =>
    rw [Option.bind_some]
    cases hnumber : v.asU64 with
    | none => exact .inl rfl
    | some n => exact .inr ⟨v, rfl, hnumber⟩

theorem whole_setting (h : Whole slot) : Whole (setting JsonValue.asU64 value key slot) := by
  rcases setting_cases value key slot with heq | ⟨v, _, hnumber⟩
  · rw [heq]
    exact h
  · exact whole_of_asU64 hnumber

/-- A setting that is read below a bound, from a slot below it, is below it. -/
theorem setting_lt {values : Nat}
    (hread : ∀ v, value.get key = some v → ∃ n < values, v.asU64 = some n) (h : slot < values) :
    setting JsonValue.asU64 value key slot < values := by
  rcases setting_cases value key slot with heq | ⟨v, hget, hnumber⟩
  · rw [heq]
    exact h
  · rcases hread v hget with ⟨n, hlt, hn⟩
    cases hn.symm.trans hnumber
    exact hlt

/-- What the reader takes is in range. -/
theorem Config.inRange_settings {root : JsonValue} (h : Readable t root) :
    (settings root).InRange t := by
  rw [readable_iff] at h
  rcases h with ⟨hserver, _, hcompression, _⟩
  -- the defaults fit into a `usize` of 32 bits
  have hsmall : ∀ n < 0x100000000, n < t.modulus := by
    intro n hn
    exact hn.trans_le t.modulus_ge
  exact ⟨setting_lt (hserver ("port", .u16) (by decide)) (by decide),
    setting_lt (hserver ("worker_threads", .usize) (by decide)) (hsmall _ (by decide)),
    setting_lt (hserver ("max_connections", .usize) (by decide)) (hsmall _ (by decide)),
    setting_lt (hserver ("request_max_bytes", .usize) (by decide)) (hsmall _ (by decide)),
    setting_lt (hcompression ("min_bytes", .usize) (by decide)) (hsmall _ (by decide))⟩

theorem Config.whole_settings (root : JsonValue) : ∀ n ∈ (settings root).numbers, Whole n := by
  have hdefault : ∀ {slot : Nat}, slot ≤ 2 ^ 53 → ∀ value key,
      Whole (setting JsonValue.asU64 value key slot) :=
    fun h value key => whole_setting (whole_of_le h)
  simp only [numbers, List.forall_mem_cons, List.not_mem_nil, false_implies, implies_true,
    and_true]
  exact ⟨hdefault (by decide) _ _, hdefault (by decide) _ _, hdefault (by decide) _ _,
    hdefault (by decide) _ _, hdefault (by decide) _ _, hdefault (by decide) _ _,
    hdefault (by decide) _ _, hdefault (by decide) _ _, hdefault (by decide) _ _,
    hdefault (by decide) _ _⟩

/-- An accepted text gives a configuration that can be saved. -/
theorem Config.savable_of_fromJsonStr (h : fromJsonStr t text = .ok c) : c.Savable t := by
  unfold fromJsonStr at h
  split at h
  · cases h
  · rcases fromJson_eq_ok_iff.mp h with ⟨_, hread, rfl, hvalid⟩
    exact ⟨hvalid, inRange_settings hread, whole_settings _⟩

/-- What can be saved for a word size can be loaded with a larger one. -/
theorem Config.Savable.wider {t' : Target} (h : c.Savable t) (hle : t.modulus ≤ t'.modulus) :
    c.Savable t' :=
  ⟨h.valid, ⟨h.range.port, h.range.workerThreads.trans_le hle, h.range.maxConnections.trans_le hle,
    h.range.requestMaxBytes.trans_le hle, h.range.minBytes.trans_le hle⟩, h.whole⟩

/-- Whatever text was accepted, the configuration survives being saved and loaded again: with
any of its numbers, and on a machine with larger words. -/
theorem Config.resaved {t' : Target} (h : fromJsonStr t text = .ok c)
    (hle : t.modulus ≤ t'.modulus) : fromJsonStr t' c.toJsonString = .ok c :=
  ((savable_of_fromJsonStr h).wider hle).load

/-- Connections that are kept for the longest time there is, and a root with a backslash,
quotes, a letter that is escaped and a line break. -/
def longLivedText : String :=
  "\x7b\"server\": \x7b\"keep_alive_secs\": 18446744073709551615\x7d, " ++
  "\"static\": \x7b\"root\": \"C:\\\\www\\\\\\\"caf\\u00e9\\\"\\n\"\x7d\x7d"

def longLivedConfig : Config :=
  { Config.default with
    server := { ServerConfig.default with keepAliveSecs := 18446744073709551615 }
    staticFiles := { StaticConfig.default with root := "C:\\www\\\"caf\u00e9\"\n" } }

/-- It is read on a machine of 32 bits and saved for one of 64. -/
theorem Config.resaved_longLived :
    fromJsonStr ⟨.w64, true⟩ longLivedConfig.toJsonString = .ok longLivedConfig := by
  have hload : fromJsonStr ⟨.w32, true⟩ longLivedText = .ok longLivedConfig := by decide +kernel
  exact Config.resaved hload (by decide)

/-- An empty object leaves everything at its default. -/
theorem Config.load_empty (t : Target) : fromJsonStr t "\x7b\x7d" = .ok .default := by
  rcases t with ⟨width, checked⟩
  cases width <;> cases checked <;> decide

theorem Config.savable_default (t : Target) : Config.default.Savable t :=
  savable_of_fromJsonStr (load_empty t)

end Savable

end FerroHttp
