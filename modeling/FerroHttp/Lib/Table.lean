import Mathlib.Data.List.AList

/-!
# Table — finite tables

A hash map or a tree map of the program is a finite table: an `AList` with values of one
type. Mathlib has the single insertions and erasures; here is what loops over a table need,
and how its size moves.

1. `lookup_foldl_erase`: erasing a list of keys;
2. `lookup_sweep`: collecting the keys of the stale entries and erasing them drops
   exactly those entries.
-/

namespace Table

variable {α β : Type} [DecidableEq α]

/-- A finite table. -/
abbrev FinTable (α β : Type) := AList fun _ : α => β

/-- Erase the keys of a list one by one. -/
theorem lookup_foldl_erase (keys : List α) (m : FinTable α β) (key : α) :
    (keys.foldl (fun m key => m.erase key) m).lookup key =
      if key ∈ keys then none else m.lookup key := by
  induction keys generalizing m with
  | nil => simp
  | cons k keys ih =>
    rw [List.foldl_cons, ih]
    by_cases hk : key = k
    · subst hk
      simp
    · simp [hk, AList.lookup_erase_ne hk]

theorem length_erase_le (key : α) (m : FinTable α β) : (m.erase key).keys.length ≤ m.keys.length := by
  rw [AList.keys_erase]
  exact (@List.erase_sublist _ instBEqOfDecidableEq key _).length_le

theorem length_foldl_erase_le (keys : List α) (m : FinTable α β) :
    (keys.foldl (fun m key => m.erase key) m).keys.length ≤ m.keys.length := by
  induction keys generalizing m with
  | nil => exact Nat.le_refl _
  | cons k keys ih =>
    rw [List.foldl_cons]
    exact Nat.le_trans (ih (m.erase k)) (length_erase_le k m)

/-- An insertion adds at most one entry. -/
theorem length_insert_le (key : α) (value : β) (m : FinTable α β) :
    (m.insert key value).keys.length ≤ m.keys.length + 1 := by
  rw [AList.keys_insert, List.length_cons]
  exact Nat.succ_le_succ (@List.erase_sublist _ instBEqOfDecidableEq key _).length_le

/-- Replacing the value of a key that is there leaves the size. -/
theorem length_insert_of_mem {key : α} {m : FinTable α β} (h : key ∈ m) (value : β) :
    (m.insert key value).keys.length = m.keys.length := by
  have hmem : key ∈ m.keys := h
  rw [AList.keys_insert, List.length_cons,
    @List.length_erase_of_mem _ instBEqOfDecidableEq _ _ _ hmem]
  have hpos : 0 < m.keys.length := List.length_pos_of_mem hmem
  omega

/-- A key has an entry iff it is one of the keys. -/
theorem mem_keys_iff {key : α} {m : FinTable α β} : key ∈ m.keys ↔ ∃ value, m.lookup key = some value := by
  rw [← AList.mem_keys, ← AList.lookup_isSome, Option.isSome_iff_exists]

/-- The keys of the stale entries. -/
def expired (stale : β → Bool) (m : FinTable α β) : List α :=
  m.keys.filter fun key => (m.lookup key).any stale

theorem mem_expired {stale : β → Bool} {m : FinTable α β} {key : α} :
    key ∈ expired stale m ↔ ∃ value, m.lookup key = some value ∧ stale value = true := by
  rw [expired, List.mem_filter, Option.any_eq_true]
  constructor
  · intro h
    exact h.2
  · intro h
    obtain ⟨value, hvalue, hstale⟩ := h
    exact ⟨mem_keys_iff.mpr ⟨value, hvalue⟩, value, hvalue, hstale⟩

/-- Collect the keys of the stale entries, and erase them. -/
def sweep (stale : β → Bool) (m : FinTable α β) : FinTable α β :=
  (expired stale m).foldl (fun m key => m.erase key) m

/-- A sweep drops the stale entries, and leaves the others as they are. -/
theorem lookup_sweep (stale : β → Bool) (m : FinTable α β) (key : α) :
    (sweep stale m).lookup key = (m.lookup key).filter fun value => !stale value := by
  rw [sweep, lookup_foldl_erase]
  cases hvalue : m.lookup key with
  | none =>
    rw [ite_self]
    rfl
  | some value =>
    have hmem : key ∈ expired stale m ↔ stale value = true := by
      rw [mem_expired]
      simp [hvalue]
    by_cases hstale : stale value = true
    · rw [if_pos (hmem.mpr hstale), Option.filter_some, hstale]
      rfl
    · rw [if_neg (fun h => hstale (hmem.mp h)), Option.filter_some, Bool.eq_false_iff.mpr hstale]
      rfl

theorem length_sweep_le (stale : β → Bool) (m : FinTable α β) :
    (sweep stale m).keys.length ≤ m.keys.length := length_foldl_erase_le _ _

end Table
