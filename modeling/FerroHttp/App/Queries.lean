import FerroHttp.Http.Ranges
import FerroHttp.Lib.Split
import FerroHttp.Startup

/-!
# App.Queries — discovery of the formats of a query

A query is refused without a media type, or with one that is not accepted, and the latter
names the accepted ones in `Accept-Query`. `query_discovery`: a client that reads this list
gets exactly the accepted types, and with any of them it is not refused again.
-/

namespace FerroHttp

open Text

/-- A media type as a resource lists it. -/
def MediaType (a : String) : Prop := ∀ c ∈ a.toList, c ≠ ',' ∧ c ≠ ';' ∧ isWhitespace c = false

instance : DecidablePred MediaType := fun a => decidable_of_iff
  ((a.toList.all fun c => c != ',' && c != ';' && !isWhitespace c) = true)
  (by simp [MediaType, and_assoc])

/-- How a client reads a list of media types. -/
def listed (value : String) : List String := (split ',' value).map trim

section Queries

variable {a : String} {accepted : List String} {request retry : Request} {r : Response}

theorem MediaType.clean (h : MediaType a) : CleanEnds isWhitespace a.toList :=
  ⟨fun c hc => (h c (List.mem_of_mem_head? hc)).2.2,
    fun c hc => (h c (List.mem_of_mem_getLast? hc)).2.2⟩

/-- A blank in front of a media type is no part of it. -/
theorem MediaType.trim_blank (h : MediaType a) : trim (" " ++ a) = a := by
  have hblank : ∀ c ∈ [' '], isWhitespace c = true := by
    intro c hc
    rw [List.mem_singleton.mp hc]
    decide
  have hlist : (" " ++ a).toList = [' '] ++ a.toList ++ [] := by simp
  rw [trim, hlist, trimWith_append hblank (by simp) h.clean, String.ofList_toList]

/-- Behind the first comma every piece has a blank in front. -/
theorem intercalate_blank (a : String) (rest : List String) :
    String.intercalate ", " (a :: rest) = String.intercalate "," (a :: rest.map (" " ++ ·)) := by
  induction rest generalizing a with
  | nil => simp
  | cons next rest ih =>
    have hnext : String.intercalate "," ((" " ++ next) :: rest.map (" " ++ ·)) =
        " " ++ String.intercalate "," (next :: rest.map (" " ++ ·)) := by
      cases rest with
      | nil => simp
      | cons b rest =>
        rw [List.map_cons, String.intercalate_cons_cons, String.intercalate_cons_cons]
        simp only [String.append_assoc]
    have hsep : (", " : String) = "," ++ " " := rfl
    rw [String.intercalate_cons_cons, List.map_cons, String.intercalate_cons_cons, hnext, ih, hsep]
    simp only [String.append_assoc]

/-- The list is read back as it was joined. -/
theorem listed_joinMediaTypes (hne : accepted ≠ []) (h : ∀ a ∈ accepted, MediaType a) :
    listed (joinMediaTypes accepted) = accepted := by
  cases accepted with
  | nil => exact absurd rfl hne
  | cons a rest =>
    have hrest : ∀ b ∈ rest, MediaType b := fun b hb => h b (List.mem_cons_of_mem _ hb)
    have ha := h a List.mem_cons_self
    have hfree : ∀ piece ∈ a :: rest.map (" " ++ ·), ',' ∉ piece.toList := by
      intro piece hpiece hmem
      rcases List.mem_cons.mp hpiece with rfl | hpiece
      · exact (ha ',' hmem).1 rfl
      · rcases List.mem_map.mp hpiece with ⟨b, hb, rfl⟩
        rw [String.toList_append, List.mem_append] at hmem
        rcases hmem with hmem | hmem
        · exact absurd hmem (by decide)
        · exact (hrest b hb ',' hmem).1 rfl
    have htrim : (rest.map (" " ++ ·)).map trim = rest := by
      have hid : ∀ b ∈ rest, (trim ∘ (" " ++ ·)) b = id b := fun b hb => (hrest b hb).trim_blank
      rw [List.map_map, List.map_congr_left hid, List.map_id]
    rw [listed, joinMediaTypes, intercalate_blank, split_join rfl (by simp) hfree, List.map_cons,
      trim_of_cleanEnds ha.clean, htrim]

/-- The media type of a value is what stands before its parameters. -/
theorem mediaType_append {params : String} (h : MediaType a)
    (hparams : params = "" ∨ params.toList.head? = some ';') :
    trim ((split ';' (a ++ params)).headD "") = a := by
  have hfree : ';' ∉ a.toList := fun hmem => (h ';' hmem).2.1 rfl
  rcases hparams with rfl | hhead
  · rw [String.append_empty, split_of_not_mem hfree]
    exact trim_of_cleanEnds h.clean
  · cases hlist : params.toList with
    | nil => simp [hlist] at hhead
    | cons c more =>
      have hc : c = ';' := by simpa [hlist] using hhead
      have htext : a ++ params = String.ofList (a.toList ++ ';' :: more) := by
        apply String.toList_inj.mp
        rw [String.toList_append, hlist, hc, String.toList_ofList]
      rw [htext, split_append_cons, String.ofList_toList, split_of_not_mem hfree]
      exact trim_of_cleanEnds h.clean

/-- A query of an accepted type passes, whatever its parameters. -/
theorem queryContentTypeCheck_ok {params : String} (h : MediaType a) (hmem : a ∈ accepted)
    (hparams : params = "" ∨ params.toList.head? = some ';')
    (hretry : retry.header "content-type" = some (a ++ params)) :
    queryContentTypeCheck retry accepted = .ok () := by
  have hany : (accepted.any fun b => eqIgnoreAsciiCase (utf8 b) (utf8 a)) = true :=
    List.any_eq_true.mpr ⟨a, hmem, eqIgnoreAsciiCase_self _⟩
  simp only [queryContentTypeCheck, hretry, mediaType_append h hparams, hany, if_true]

/-- A refused query either has no media type, or is told the accepted ones; and a retry with
any of those that the client reads in the list is not refused. -/
theorem query_discovery (hne : accepted ≠ []) (htypes : ∀ a ∈ accepted, MediaType a)
    (hrefused : queryContentTypeCheck request accepted = .error r) :
    (request.header "content-type" = none ∧ r.status = ⟨400⟩) ∨
      (r.status = ⟨415⟩ ∧ ∃ value, r.header "accept-query" = some value ∧ listed value = accepted ∧
        ∀ a ∈ listed value, ∀ retry params, (params = "" ∨ params.toList.head? = some ';') →
          Request.header retry "content-type" = some (a ++ params) →
            queryContentTypeCheck retry accepted = .ok ()) := by
  unfold queryContentTypeCheck at hrefused
  split at hrefused
  · rename_i hnone
    cases hrefused
    exact .inl ⟨hnone, rfl⟩
  · dsimp only at hrefused
    split at hrefused
    · cases hrefused
    · cases hrefused
      have hvalue : ((Response.text ⟨415⟩ "Unsupported query media type").withHeader "Accept-Query"
          (joinMediaTypes accepted)).header "accept-query" = some (joinMediaTypes accepted) := by
        rw [header_withHeader]
        rfl
      have hlisted := listed_joinMediaTypes hne htypes
      refine .inr ⟨rfl, joinMediaTypes accepted, hvalue, hlisted, ?_⟩
      intro a ha retry params hparams hretry
      rw [hlisted] at ha
      exact queryContentTypeCheck_ok (htypes a ha) ha hparams hretry

def xmlQuery : Request :=
  ⟨.query, "/s", .http11, [⟨"Host", "h"⟩, ⟨"Content-Type", "application/xml"⟩], []⟩

theorem xmlQuery_discovery : ∃ r value, r.header "accept-query" = some value ∧
    queryContentTypeCheck xmlQuery ["application/sql", "text/csv"] = .error r ∧
      listed value = ["application/sql", "text/csv"] := by
  have hheader : xmlQuery.header "content-type" ≠ none := by decide
  cases hcheck : queryContentTypeCheck xmlQuery ["application/sql", "text/csv"] with
  | ok _ =>
    have herror : (queryContentTypeCheck xmlQuery ["application/sql", "text/csv"]).isOk = false := by
      decide +kernel
    rw [hcheck] at herror
    contradiction
  | error r =>
    rcases query_discovery (by simp) (by decide +kernel) hcheck with h | ⟨_, value, hvalue, hlisted, _⟩
    · exact absurd h.1 hheader
    · exact ⟨r, value, hvalue, rfl, hlisted⟩

end Queries

end FerroHttp
