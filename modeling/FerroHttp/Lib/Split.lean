import FerroHttp.Lib.Text

/-!
# Split — splitting and joining

`split` cuts a text at a character and `String.intercalate` puts pieces together.
Pieces without the separator survive the round trip, and what is split and joined
again is what it was.
-/

namespace Text

section Split

variable {c : Char} {s : String}

theorem split_append_cons (a b : List Char) :
    split c (String.ofList (a ++ c :: b)) = split c (String.ofList a) ++ split c (String.ofList b) := by
  simp [split, List.splitOn_append_cons_self]

theorem split_ne_nil : split c s ≠ [] := by
  simp [split]

theorem not_mem_of_mem_splitOn {l w : List Char} (h : w ∈ l.splitOn c) : c ∉ w := by
  induction l generalizing w with
  | nil =>
    rw [List.splitOn_nil, List.mem_singleton] at h
    rw [h]
    exact List.not_mem_nil
  | cons d l ih =>
    rw [List.splitOn_cons_eq_if_modifyHead] at h
    split at h
    · rcases List.mem_cons.mp h with rfl | h
      · exact List.not_mem_nil
      · exact ih h
    · rename_i hd
      cases hsplit : l.splitOn c with
      | nil => exact absurd hsplit (List.splitOn_ne_nil c l)
      | cons v vs =>
        rw [hsplit, List.modifyHead_cons] at h
        rcases List.mem_cons.mp h with rfl | h
        · intro hmem
          rcases List.mem_cons.mp hmem with rfl | hmem
          · exact hd BEq.rfl
          · exact ih (by rw [hsplit]; exact List.mem_cons_self) hmem
        · exact ih (by rw [hsplit]; exact List.mem_cons_of_mem _ h)

/-- The pieces of a split do not contain the separator. -/
theorem not_mem_of_mem_split {w : String} (h : w ∈ split c s) : c ∉ w.toList := by
  rcases List.mem_map.mp h with ⟨l, hl, rfl⟩
  rw [String.toList_ofList]
  exact not_mem_of_mem_splitOn hl

/-- A text without the separator is one piece. -/
theorem split_of_not_mem (h : c ∉ s.toList) : split c s = [s] := by
  rw [split, List.splitOn_eq_singleton h]
  simp

theorem sublist_of_mem_splitOn {l w : List Char} (h : w ∈ l.splitOn c) : w.Sublist l := by
  induction l generalizing w with
  | nil =>
    rw [List.splitOn_nil, List.mem_singleton] at h
    rw [h]
  | cons d l ih =>
    rw [List.splitOn_cons_eq_if_modifyHead] at h
    split at h
    · rcases List.mem_cons.mp h with rfl | h
      · exact List.nil_sublist _
      · exact (ih h).cons d
    · cases hsplit : l.splitOn c with
      | nil => exact absurd hsplit (List.splitOn_ne_nil c l)
      | cons v vs =>
        rw [hsplit, List.modifyHead_cons] at h
        rcases List.mem_cons.mp h with rfl | h
        · exact (ih (by rw [hsplit]; exact List.mem_cons_self)).cons_cons d
        · exact (ih (by rw [hsplit]; exact List.mem_cons_of_mem _ h)).cons d

/-- The pieces of a split are parts of the text, in its order. -/
theorem sublist_of_mem_split {w : String} (h : w ∈ split c s) : w.toList.Sublist s.toList := by
  rcases List.mem_map.mp h with ⟨l, hl, rfl⟩
  rw [String.toList_ofList]
  exact sublist_of_mem_splitOn hl

/-- What is joined by the separator is split piece by piece. -/
theorem split_intercalate {sep : String} {pieces : List String} (hsep : sep.toList = [c])
    (hne : pieces ≠ []) :
    split c (String.intercalate sep pieces) = pieces.flatMap (split c) := by
  induction pieces with
  | nil => exact absurd rfl hne
  | cons piece rest ih =>
    cases rest with
    | nil => simp
    | cons next rest =>
      have hjoin : String.intercalate sep (piece :: next :: rest) =
          String.ofList (piece.toList ++ c :: (String.intercalate sep (next :: rest)).toList) := by
        apply String.toList_inj.mp
        rw [String.intercalate_cons_cons, String.toList_append, String.toList_append, hsep,
          String.toList_ofList, List.append_assoc, List.singleton_append]
      rw [hjoin, split_append_cons, String.ofList_toList, String.ofList_toList,
        ih (List.cons_ne_nil _ _)]
      rfl

/-- Joining undoes splitting. -/
theorem join_split {sep : String} (hsep : sep.toList = [c]) (s : String) :
    String.intercalate sep (split c s) = s := by
  apply String.toList_inj.mp
  rw [String.toList_intercalate, split, List.map_map, hsep]
  have hmap : (s.toList.splitOn c).map (String.toList ∘ String.ofList) = s.toList.splitOn c := by
    simp
  rw [hmap]
  exact List.intercalate_splitOn c

/-- Splitting undoes joining. -/
theorem split_join {sep : String} {pieces : List String} (hsep : sep.toList = [c])
    (hne : pieces ≠ []) (hfree : ∀ piece ∈ pieces, c ∉ piece.toList) :
    split c (String.intercalate sep pieces) = pieces := by
  have hsplit : ([c].intercalate (pieces.map String.toList)).splitOn c =
      pieces.map String.toList := by
    refine List.splitOn_intercalate c ?_ (by simpa using hne)
    intro l hl
    rcases List.mem_map.mp hl with ⟨piece, hpiece, rfl⟩
    exact hfree piece hpiece
  rw [split, String.toList_intercalate, hsep, hsplit, List.map_map]
  simp

/-- A split has one piece more than there are separators. -/
theorem length_split (c : Char) (s : String) : (split c s).length = s.toList.count c + 1 := by
  rw [split, List.length_map]
  induction s.toList with
  | nil => rfl
  | cons d l ih =>
    rw [List.splitOn_cons_eq_if_modifyHead, List.count_cons]
    split
    · rw [List.length_cons, ih]
    · rw [List.length_modifyHead, ih, Nat.add_zero]

/-- What is joined has the characters of the pieces and of the separator. -/
theorem not_mem_intercalate {sep : String} {pieces : List String} (hsep : c ∉ sep.toList)
    (h : ∀ piece ∈ pieces, c ∉ piece.toList) : c ∉ (String.intercalate sep pieces).toList := by
  induction pieces with
  | nil => simp
  | cons piece rest ih =>
    rw [List.forall_mem_cons] at h
    cases rest with
    | nil => simpa using h.1
    | cons next rest =>
      rw [String.intercalate_cons_cons, String.toList_append, String.toList_append, List.mem_append,
        List.mem_append, not_or, not_or]
      exact ⟨⟨h.1, hsep⟩, ih h.2⟩

/-- A separator of two texts is one of the first, with the second in front of the
pieces that follow. -/
theorem intercalate_append (sep pad piece : String) (pieces : List String) :
    String.intercalate (sep ++ pad) (piece :: pieces) =
      String.intercalate sep (piece :: pieces.map (pad ++ ·)) := by
  induction pieces generalizing piece with
  | nil => simp
  | cons next rest ih =>
    rw [String.intercalate_cons_cons, ih, List.map_cons, String.intercalate_cons_cons,
      String.intercalate_cons_append]
    simp [String.append_assoc]

/-- A text is cut at the first occurrence of a character. -/
theorem splitOnce_append {sep a : String} (hsep : sep.toList = [c]) (hfree : c ∉ a.toList)
    (b : String) : splitOnce c (a ++ sep ++ b) = some (a, b) := by
  have hlist : (a ++ sep ++ b).toList = a.toList ++ c :: b.toList := by
    rw [String.toList_append, String.toList_append, hsep, List.append_assoc, List.singleton_append]
  have hfirst : (a.toList ++ c :: b.toList).findIdx? (· == c) = some a.toList.length := by
    rw [List.findIdx?_append, List.findIdx?_eq_none_iff.mpr]
    · simp [List.findIdx?_cons]
    · intro x hx
      rw [beq_eq_false_iff_ne]
      rintro rfl
      exact hfree hx
  have hdrop : (a.toList ++ c :: b.toList).drop (a.toList.length + 1) = b.toList := by
    rw [List.drop_length_add_append]
    rfl
  simp only [splitOnce, hlist, hfirst, List.take_left, hdrop, String.ofList_toList]

theorem stripPrefix_append (pre s : String) : stripPrefix pre (pre ++ s) = some s := by
  have hprefix : pre.toList.isPrefixOf (pre ++ s).toList = true := by
    rw [List.isPrefixOf_iff_prefix, String.toList_append]
    exact List.prefix_append _ _
  rw [stripPrefix, if_pos hprefix, String.toList_append, List.drop_left, String.ofList_toList]

theorem stripPrefix_eq_some {pre s rest : String} (hstrip : stripPrefix pre s = some rest) :
    s = pre ++ rest := by
  rw [stripPrefix] at hstrip
  split at hstrip
  · rename_i hpre
    rcases List.isPrefixOf_iff_prefix.mp hpre with ⟨tail, htail⟩
    cases hstrip
    apply String.toList_inj.mp
    rw [String.toList_append, String.toList_ofList, ← htail, List.drop_left]
  · cases hstrip

/-- What is cut at a character had it between the two texts. -/
theorem splitOnce_eq_some {sep s a b : String} (hsep : sep.toList = [c])
    (hsplit : splitOnce c s = some (a, b)) : s = a ++ sep ++ b := by
  rw [splitOnce] at hsplit
  split at hsplit
  · rename_i i hfind
    rcases findIdx?_beq_eq_some_iff.mp hfind with ⟨l, l', hl, _, rfl⟩
    rw [Option.some.injEq, Prod.mk.injEq] at hsplit
    rcases hsplit with ⟨rfl, rfl⟩
    apply String.toList_inj.mp
    rw [String.toList_append, String.toList_append, hsep, String.toList_ofList,
      String.toList_ofList, hl, List.take_left, List.append_assoc, List.singleton_append,
      List.drop_length_add_append]
    rfl
  · cases hsplit

end Split

end Text
