import Mathlib.Data.List.Infix
import Mathlib.Data.Nat.Find

/-!
# Search — first occurrences of a sublist

`FirstAt needle hay i` says that `needle` occurs in `hay` at position `i` and at
no earlier one. The rules below are the ones a scanner's proofs live on: the
position is unique, it survives any extension of the haystack (`FirstAt.append`),
and where there is no occurrence yet an extension can only complete one that
straddles the old end (`FirstAt.end_of_not_infix`).
-/

namespace Search

variable {α : Type}

/-- The first occurrence of `needle` in `hay` is at position `i`. -/
def FirstAt (needle hay : List α) (i : Nat) : Prop :=
  needle <+: hay.drop i ∧ ∀ j < i, ¬ needle <+: hay.drop j

namespace FirstAt

variable {needle hay ext : List α} {i j : Nat}

theorem unique (hi : FirstAt needle hay i) (hj : FirstAt needle hay j) : i = j := by
  rcases Nat.lt_trichotomy i j with h | h | h
  · exact absurd hi.1 (hj.2 i h)
  · exact h
  · exact absurd hj.1 (hi.2 j h)

/-- The occurrence lies inside the haystack. -/
theorem end_le (hne : needle ≠ []) (h : FirstAt needle hay i) :
    i + needle.length ≤ hay.length := by
  have hle := h.1.length_le
  have hpos : 0 < needle.length := List.length_pos_iff.mpr hne
  rw [List.length_drop] at hle
  omega

/-- The haystack, cut around its first occurrence. -/
theorem split (h : FirstAt needle hay i) :
    hay = hay.take i ++ needle ++ hay.drop (i + needle.length) := by
  obtain ⟨rest, hrest⟩ := h.1
  have hdrop : hay.drop (i + needle.length) = rest := by
    rw [← List.drop_drop, ← hrest, List.drop_left]
  rw [hdrop, List.append_assoc, hrest, List.take_append_drop]

end FirstAt

/-- An occurrence that ends inside `hay` is one of `hay` itself, whatever
follows. -/
theorem prefix_drop_append_iff {needle hay ext : List α} {j : Nat}
    (hle : j + needle.length ≤ hay.length) :
    needle <+: (hay ++ ext).drop j ↔ needle <+: hay.drop j := by
  rw [List.drop_append_of_le_length (by omega)]
  constructor
  · intro h
    refine List.prefix_of_prefix_length_le h (List.prefix_append _ _) ?_
    rw [List.length_drop]
    omega
  · intro h
    exact h.trans (List.prefix_append _ _)

/-- Nothing that starts with `c` occurs where there is no `c`. -/
theorem not_prefix_drop_of_not_mem {c : α} {ds l rest : List α} {j : Nat} (hc : c ∉ l)
    (hj : j < l.length) : ¬ c :: ds <+: (l ++ rest).drop j := by
  intro hocc
  rw [List.drop_append_of_le_length (by omega), List.drop_eq_getElem_cons hj] at hocc
  have hhead : c = l[j] := (List.cons_prefix_cons.mp hocc).1
  apply hc
  rw [hhead]
  exact List.getElem_mem hj

namespace FirstAt

variable {needle hay ext : List α} {i j : Nat}

/-- More input does not move the first occurrence. -/
theorem append (hne : needle ≠ []) (h : FirstAt needle hay i) :
    FirstAt needle (hay ++ ext) i := by
  have hend := h.end_le hne
  refine ⟨(prefix_drop_append_iff hend).mpr h.1, ?_⟩
  intro j hj hocc
  exact h.2 j hj ((prefix_drop_append_iff (by omega)).mp hocc)

/-- A first occurrence that already ended inside `hay` was found in `hay`. -/
theorem of_append (h : FirstAt needle (hay ++ ext) i) (hle : i + needle.length ≤ hay.length) :
    FirstAt needle hay i := by
  refine ⟨(prefix_drop_append_iff hle).mp h.1, ?_⟩
  intro j hj hocc
  exact h.2 j hj ((prefix_drop_append_iff (by omega)).mpr hocc)

/-- Where `hay` has no occurrence, the first one of an extension ends past it. -/
theorem end_of_not_infix (hno : ¬ needle <:+: hay) (h : FirstAt needle (hay ++ ext) i) :
    hay.length < i + needle.length := by
  by_contra hle
  have hocc := (prefix_drop_append_iff (by omega)).mp h.1
  exact hno (hocc.isInfix.trans (List.drop_suffix i hay).isInfix)

/-- Text in which no occurrence starts only moves the first one. -/
theorem append_left {pre : List α} (hpre : ∀ j < pre.length, ¬ needle <+: (pre ++ hay).drop j)
    (h : FirstAt needle hay i) : FirstAt needle (pre ++ hay) (pre.length + i) := by
  have hdrop : ∀ k, (pre ++ hay).drop (pre.length + k) = hay.drop k := fun k =>
    List.drop_length_add_append k
  refine ⟨by rw [hdrop]; exact h.1, ?_⟩
  intro j hj
  by_cases hin : j < pre.length
  · exact hpre j hin
  · rw [← Nat.add_sub_cancel' (Nat.le_of_not_lt hin), hdrop]
    exact h.2 _ (by omega)

/-- After text free of the delimiter's head, the delimiter is found at once. -/
theorem of_not_mem {c : α} {ds l rest : List α} (hc : c ∉ l) :
    FirstAt (c :: ds) (l ++ (c :: ds) ++ rest) l.length := by
  refine ⟨?_, ?_⟩
  · rw [List.append_assoc, List.drop_left]
    exact List.prefix_append _ _
  · intro j hj
    rw [List.append_assoc]
    exact not_prefix_drop_of_not_mem hc hj

end FirstAt

/-- There is a first occurrence exactly when there is one. -/
theorem exists_firstAt_iff {needle hay : List α} :
    (∃ i, FirstAt needle hay i) ↔ needle <:+: hay := by
  classical
  constructor
  · rintro ⟨i, h, _⟩
    exact h.isInfix.trans (List.drop_suffix i hay).isInfix
  · rintro ⟨s, t, hst⟩
    have hocc : ∃ i, needle <+: hay.drop i := by
      refine ⟨s.length, ?_⟩
      rw [← hst, List.append_assoc, List.drop_left]
      exact List.prefix_append _ _
    exact ⟨Nat.find hocc, Nat.find_spec hocc, fun j hj => Nat.find_min hocc hj⟩

/-! ## Windows -/

/-- The contiguous sublists of length `n`, from left to right. -/
def windows (n : Nat) : List α → List (List α)
  | [] => []
  | a :: as =>
    let window := (a :: as).take n
    if window.length = n then window :: windows n as else []

/-- Scanning the windows for `needle` finds its first occurrence. -/
theorem findIdx?_windows [DecidableEq α] {needle : List α} (hne : needle ≠ []) :
    ∀ (hay : List α) (i : Nat),
      (windows needle.length hay).findIdx? (· == needle) = some i ↔ FirstAt needle hay i := by
  intro hay
  induction hay with
  | nil =>
    intro i
    simp [windows, FirstAt, hne]
  | cons a as ih =>
    intro i
    have hpre : needle <+: a :: as ↔ (a :: as).take needle.length = needle := by
      rw [List.prefix_iff_eq_take, eq_comm]
    unfold windows
    by_cases hlen : ((a :: as).take needle.length).length = needle.length
    · simp only [hlen, if_true, List.findIdx?_cons]
      by_cases hocc : (a :: as).take needle.length = needle
      · simp only [hocc, BEq.rfl, if_true, Option.some.injEq]
        constructor
        · rintro rfl
          exact ⟨hpre.mpr hocc, by intro j hj; omega⟩
        · intro h
          exact FirstAt.unique (i := 0) ⟨hpre.mpr hocc, by intro j hj; omega⟩ h
      · have hbeq : ((a :: as).take needle.length == needle) = false := by
          simpa using hocc
        simp only [hbeq, Bool.false_eq_true, if_false, Option.map_eq_some_iff]
        constructor
        · rintro ⟨k, hk, rfl⟩
          obtain ⟨h1, h2⟩ := (ih k).mp hk
          refine ⟨by simpa using h1, ?_⟩
          intro j hj
          cases j with
          | zero => simpa [hpre] using hocc
          | succ j => simpa using h2 j (by omega)
        · rintro ⟨h1, h2⟩
          cases i with
          | zero => exact absurd (hpre.mp (by simpa using h1)) hocc
          | succ k =>
            refine ⟨k, (ih k).mpr ⟨by simpa using h1, ?_⟩, rfl⟩
            intro j hj
            simpa using h2 (j + 1) (by omega)
    · -- fewer than `needle.length` elements are left: no occurrence can start here
      simp only [hlen, if_false, List.findIdx?_nil, reduceCtorEq, false_iff]
      intro h
      have hend := h.end_le hne
      rw [List.length_take] at hlen
      omega

end Search
