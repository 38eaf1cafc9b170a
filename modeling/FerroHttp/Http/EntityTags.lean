import FerroHttp.Http.Conditional
import FerroHttp.Lib.Split

/-!
# Http.EntityTags — which tags of a list match

`notModified` cuts `If-None-Match` at every comma, also at those inside a quoted tag.

1. `any_weakEq_iff`: no match is created that way, and none is lost: against a tag
   without a comma, a list matches iff one of its tags has the same text between the
   quotes;
2. `trim_renderTags_ne`: no list of tags is taken for the asterisk.
-/

namespace FerroHttp

open Text

/-- An entity tag: weak or strong, with a text that contains no quote. -/
structure EntityTag where
  weak : Bool
  value : String
  noQuote : '"' ∉ value.toList

/-- Space or tab. -/
def isPad (c : Char) : Bool := c == ' ' || c == '\t'

/-- An element of a list of entity tags: a tag, or nothing, between padding. -/
structure TagElement where
  before : String
  tag : Option EntityTag
  after : String
  before_pad : ∀ c ∈ before.toList, isPad c = true
  after_pad : ∀ c ∈ after.toList, isPad c = true

namespace EntityTag

/-- The tag between its quotes. -/
def quoted (e : EntityTag) : String := "\"" ++ e.value ++ "\""

def text (e : EntityTag) : String := (if e.weak then "W/" else "") ++ e.quoted

end EntityTag

/-- An element as it is written. -/
def TagElement.text (element : TagElement) : String :=
  element.before ++ (element.tag.elim "" EntityTag.text ++ element.after)

/-- The value of a field that lists entity tags. -/
def renderTags (elements : List TagElement) : String :=
  String.intercalate "," (elements.map TagElement.text)

/-! ## One tag -/

theorem isWhitespace_of_isPad {c : Char} (h : isPad c = true) : isWhitespace c = true := by
  rw [isPad, Bool.or_eq_true, beq_iff_eq, beq_iff_eq] at h
  rcases h with rfl | rfl
  · rfl
  · rfl

theorem not_mem_of_pad {c : Char} (hc : isPad c = false) {s : String}
    (h : ∀ d ∈ s.toList, isPad d = true) : c ∉ s.toList := by
  intro hmem
  rw [h c hmem] at hc
  cases hc

namespace EntityTag

variable {e : EntityTag}

theorem quoted_toList (e : EntityTag) : e.quoted.toList = '"' :: (e.value.toList ++ ['"']) := by
  have hquote : ("\"" : String).toList = ['"'] := by decide
  rw [quoted, String.toList_append, String.toList_append, hquote]
  rfl

/-- The weakness prefix is what `weakEq` strips. -/
theorem strip_text (e : EntityTag) : (stripPrefix "W/" e.text).getD e.text = e.quoted := by
  rcases e with ⟨weak, value, noQuote⟩
  cases weak with
  | true =>
    have htext : (⟨true, value, noQuote⟩ : EntityTag).text =
        "W/" ++ (⟨true, value, noQuote⟩ : EntityTag).quoted := rfl
    rw [htext, stripPrefix_append]
    rfl
  | false =>
    have htext : (⟨false, value, noQuote⟩ : EntityTag).text =
        (⟨false, value, noQuote⟩ : EntityTag).quoted := by
      simp [text]
    have hprefix : ("W/" : String).toList = ['W', '/'] := by decide
    -- a quoted tag starts with its quote
    rw [htext, stripPrefix, quoted_toList, hprefix]
    rfl

theorem quoted_injective {e g : EntityTag} (h : e.quoted = g.quoted) : e.value = g.value := by
  have hlist := congrArg String.toList h
  rw [quoted_toList, quoted_toList, List.cons.injEq, List.append_cancel_right_eq] at hlist
  exact String.toList_inj.mp hlist.2

/-- Two tags match iff they have the same text between the quotes. -/
theorem weakEq_text (e g : EntityTag) : weakEq g.text e.text = true ↔ g.value = e.value := by
  rw [weakEq, strip_text, strip_text, beq_iff_eq]
  constructor
  · exact quoted_injective
  · intro h
    rw [quoted, quoted, h]

/-- What matches a tag contains both of its quotes. -/
theorem quotes_of_weakEq {s : String} (h : weakEq s e.text = true) : 2 ≤ s.toList.count '"' := by
  rw [weakEq, strip_text, beq_iff_eq] at h
  have hpart : ((stripPrefix "W/" s).getD s).toList.Sublist s.toList := by
    unfold stripPrefix
    split
    · rw [Option.getD_some, String.toList_ofList]
      exact List.drop_sublist _ _
    · exact List.Sublist.refl _
  have hquotes : e.quoted.toList.count '"' = e.value.toList.count '"' + 2 := by
    rw [quoted_toList]
    simp
  have hcount := hpart.count_le '"'
  rw [h, hquotes] at hcount
  omega

/-- A tag starts and ends with characters that are not trimmed. -/
theorem cleanEnds_text (e : EntityTag) : CleanEnds isWhitespace e.text.toList := by
  constructor
  · intro c hc
    rcases e with ⟨weak, value, noQuote⟩
    cases weak with
    | true =>
      have hW : c = 'W' := by simpa [text] using hc.symm
      rw [hW]
      rfl
    | false =>
      have hquote : c = '"' := by simpa [text, quoted] using hc.symm
      rw [hquote]
      rfl
  · intro c hc
    rw [text, String.toList_append, quoted_toList, ← List.cons_append, ← List.append_assoc,
      List.getLast?_concat, Option.some.injEq] at hc
    rw [← hc]
    rfl

end EntityTag

/-! ## One element -/

namespace TagElement

variable {element : TagElement} {e : EntityTag}

theorem pads_free {c : Char} (hc : isPad c = false) (element : TagElement) :
    c ∉ element.before.toList ∧ c ∉ element.after.toList :=
  ⟨not_mem_of_pad hc element.before_pad, not_mem_of_pad hc element.after_pad⟩

theorem text_toList (element : TagElement) : element.text.toList =
    element.before.toList ++ (element.tag.elim "" EntityTag.text).toList ++
      element.after.toList := by
  rw [text, String.toList_append, String.toList_append, List.append_assoc]

/-- Trimming leaves the tag. -/
theorem trim_text {g : EntityTag} (htag : element.tag = some g) : trim element.text = g.text := by
  have hpre : ∀ c ∈ element.before.toList, isWhitespace c = true := fun c hc =>
    isWhitespace_of_isPad (element.before_pad c hc)
  have hpost : ∀ c ∈ element.after.toList, isWhitespace c = true := fun c hc =>
    isWhitespace_of_isPad (element.after_pad c hc)
  rw [trim, text_toList, htag, Option.elim_some, trimWith_append hpre hpost g.cleanEnds_text,
    String.ofList_toList]

/-- A piece with at most one quote matches no tag. -/
theorem not_weakEq_of_count {s w : String} (hw : w ∈ split ',' s) (hs : s.toList.count '"' ≤ 1) :
    weakEq (trim w) e.text = false := by
  by_contra h
  rw [Bool.not_eq_false] at h
  have htrim : (trim w).toList.Sublist w.toList := by
    rw [trim, String.toList_ofList]
    exact (List.rdropWhile_prefix _ _).sublist.trans (List.dropWhile_suffix _).sublist
  have hquotes := EntityTag.quotes_of_weakEq h
  have htrimmed := htrim.count_le '"'
  have hpiece := (sublist_of_mem_split hw).count_le '"'
  omega

/-- The pieces of a tag with a comma match no tag. -/
theorem not_weakEq_of_comma {g : EntityTag} (htag : element.tag = some g)
    (hcomma : ',' ∈ g.value.toList) {w : String} (hw : w ∈ split ',' element.text) :
    weakEq (trim w) e.text = false := by
  rcases List.append_of_mem hcomma with ⟨a, b, hab⟩
  have hnoQuote := g.noQuote
  rw [hab, List.mem_append, List.mem_cons, not_or, not_or] at hnoQuote
  have hpads := element.pads_free (c := '"') rfl
  have hweak : '"' ∉ (if g.weak then "W/" else "" : String).toList := by
    cases g.weak <;> decide
  -- the comma keeps the two quotes apart
  have htext : element.text = String.ofList
      ((element.before.toList ++ ((if g.weak then "W/" else "" : String).toList ++ '"' :: a)) ++
        ',' :: (b ++ '"' :: element.after.toList)) := by
    apply String.toList_inj.mp
    rw [text_toList, htag, Option.elim_some, EntityTag.text, String.toList_append,
      EntityTag.quoted_toList, hab, String.toList_ofList]
    simp
  rw [htext, split_append_cons, List.mem_append] at hw
  rcases hw with hw | hw
  · refine not_weakEq_of_count hw ?_
    rw [String.toList_ofList]
    simp [List.count_eq_zero_of_not_mem hpads.1, List.count_eq_zero_of_not_mem hweak,
      List.count_eq_zero_of_not_mem hnoQuote.1]
  · refine not_weakEq_of_count hw ?_
    rw [String.toList_ofList]
    simp [List.count_eq_zero_of_not_mem hpads.2, List.count_eq_zero_of_not_mem hnoQuote.2.2]

/-- One element matches iff its tag has the same text. -/
theorem any_weakEq_iff (element : TagElement) (hfree : ',' ∉ e.value.toList) :
    ((split ',' element.text).any fun c => weakEq (trim c) e.text) = true ↔
      ∃ g, element.tag = some g ∧ g.value = e.value := by
  cases htag : element.tag with
  | none =>
    have hcount : element.text.toList.count '"' ≤ 1 := by
      have hpads := element.pads_free (c := '"') rfl
      rw [text_toList, htag]
      simp [List.count_eq_zero_of_not_mem hpads.1, List.count_eq_zero_of_not_mem hpads.2]
    constructor
    · intro h
      rcases List.any_eq_true.mp h with ⟨w, hw, hmatch⟩
      rw [not_weakEq_of_count hw hcount] at hmatch
      cases hmatch
    · intro h
      rcases h with ⟨_, h, _⟩
      cases h
  | some g =>
    by_cases hcomma : ',' ∈ g.value.toList
    · constructor
      · intro h
        rcases List.any_eq_true.mp h with ⟨w, hw, hmatch⟩
        rw [not_weakEq_of_comma htag hcomma hw] at hmatch
        cases hmatch
      · intro h
        rcases h with ⟨_, h, hvalue⟩
        cases h
        rw [hvalue] at hcomma
        exact absurd hcomma hfree
    · -- the whole element is one piece
      have hpads := element.pads_free (c := ',') rfl
      have hquote : (',' : Char) ≠ '"' := by decide
      have hweak : ',' ∉ (if g.weak then "W/" else "" : String).toList := by
        cases g.weak <;> decide
      have hpiece : ',' ∉ element.text.toList := by
        rw [text_toList, htag, Option.elim_some, EntityTag.text, String.toList_append,
          EntityTag.quoted_toList]
        simp only [List.mem_append, List.mem_cons, List.not_mem_nil, or_false, not_or]
        exact ⟨⟨hpads.1, hweak, hquote, hcomma, hquote⟩, hpads.2⟩
      rw [split_of_not_mem hpiece, List.any_cons, List.any_nil, Bool.or_false, trim_text htag,
        EntityTag.weakEq_text]
      constructor
      · intro h
        exact ⟨g, rfl, h⟩
      · intro h
        rcases h with ⟨_, h, hvalue⟩
        cases h
        exact hvalue

end TagElement

/-! ## A list -/

/-- The tags of a list. -/
def tagsOf (elements : List TagElement) : List EntityTag := elements.filterMap TagElement.tag

/-- A list matches iff one of its tags has the same text. -/
theorem any_weakEq_iff {e : EntityTag} (elements : List TagElement) (hfree : ',' ∉ e.value.toList) :
    ((split ',' (renderTags elements)).any fun c => weakEq (trim c) e.text) = true ↔
      ∃ g ∈ tagsOf elements, g.value = e.value := by
  cases elements with
  | nil =>
    have hempty : (split ',' (renderTags [])) = [""] := by decide
    have hquotes : ¬ 2 ≤ (trim "").toList.count '"' := by decide
    constructor
    · intro h
      rw [hempty, List.any_cons, List.any_nil, Bool.or_false] at h
      exact absurd (EntityTag.quotes_of_weakEq h) hquotes
    · intro h
      rcases h with ⟨_, h, _⟩
      cases h
  | cons element rest =>
    have hsplit : split ',' (String.intercalate "," (element.text :: rest.map TagElement.text)) =
        (element.text :: rest.map TagElement.text).flatMap (split ',') :=
      split_intercalate rfl (List.cons_ne_nil _ _)
    rw [renderTags, List.map_cons, hsplit, ← List.map_cons, List.any_flatMap, List.any_map,
      List.any_eq_true]
    simp only [Function.comp_apply, TagElement.any_weakEq_iff _ hfree, tagsOf, List.mem_filterMap]
    constructor
    · intro h
      rcases h with ⟨x, hx, g, htag, hvalue⟩
      exact ⟨g, ⟨x, hx, htag⟩, hvalue⟩
    · intro h
      rcases h with ⟨g, ⟨x, hx, htag⟩, hvalue⟩
      exact ⟨x, hx, g, htag, hvalue⟩

/-- No list of tags is the asterisk. -/
theorem trim_renderTags_ne (elements : List TagElement) : trim (renderTags elements) ≠ "*" := by
  intro h
  have hstar : ("*" : String).toList = ['*'] := by decide
  -- what surrounds the asterisk is white space
  have hchars : ∀ c ∈ (renderTags elements).toList, isWhitespace c = true ∨ c = '*' := by
    rcases trimWith_split (p := isWhitespace) (renderTags elements).toList with
      ⟨pre, post, heq, hpre, hpost⟩
    have hmid : trimWith isWhitespace (renderTags elements).toList = ['*'] := by
      rw [← hstar, ← h, trim, String.toList_ofList]
    rw [hmid] at heq
    intro c hc
    rw [heq, List.mem_append, List.mem_append, List.mem_singleton] at hc
    rcases hc with (hc | hc) | hc
    · exact .inl (hpre c hc)
    · exact .inr hc
    · exact .inl (hpost c hc)
  cases elements with
  | nil => exact absurd h (by decide)
  | cons element rest =>
    cases rest with
    | nil =>
      have htext : renderTags [element] = element.text := by simp [renderTags]
      rw [htext] at h hchars
      cases htag : element.tag with
      | none =>
        -- nothing but padding
        have hnot := element.pads_free (c := '*') rfl
        have hmem : '*' ∈ element.text.toList := by
          have hin : '*' ∈ (trim element.text).toList := by
            rw [h, hstar]
            exact List.mem_singleton_self _
          rw [trim, String.toList_ofList] at hin
          exact mem_of_mem_trimWith hin
        rw [TagElement.text_toList, htag] at hmem
        simp [hnot] at hmem
      | some g =>
        have hquote : '"' ∈ g.text.toList := by
          rw [EntityTag.text, String.toList_append, EntityTag.quoted_toList]
          simp
        rw [← TagElement.trim_text htag, h, hstar, List.mem_singleton] at hquote
        cases hquote
    | cons next rest =>
      have hcomma : ',' ∈ (renderTags (element :: next :: rest)).toList := by
        rw [renderTags, List.map_cons, List.map_cons, String.intercalate_cons_cons]
        simp
      rcases hchars ',' hcomma with hspace | heq
      · cases hspace
      · cases heq

end FerroHttp
