import FerroHttp.Http.Target
import FerroHttp.Lib.Decimal
import FerroHttp.Lib.Split
import FerroHttp.Parser.Verdict
import FerroHttp.Startup

/-!
# App.AccessLog — the access log

Every answered request is logged with its peer, method, path and status, with spaces between
them and a line feed behind. The parser keeps spaces out of a target and lets line feeds
through. `accessLog_reads`: so who reads the log space by space gets back what was answered,
whatever the requests; and who reads it line by line does iff no path has a line feed.
-/

namespace FerroHttp

open Exec Text

/-! ## Peers -/

/-- The octets of an IPv4 address mapped to IPv6. -/
def toIpv4Mapped (peer : Bytes) : Option Bytes :=
  if peer.take 12 = List.replicate 10 0 ++ [0xff, 0xff] then some (peer.drop 12) else none

/-- The segments of an IPv6 address. -/
def ipv6Segments : Bytes → List Nat
  | hi :: lo :: rest => (hi.toNat * 256 + lo.toNat) :: ipv6Segments rest
  | _ => []

/-- A run of zeros among the segments. -/
structure ZeroRun where
  start : Nat
  len : Nat

/-- The longest run of zeros, the first one of them. -/
def longestZeros (segments : List Nat) : ZeroRun :=
  let step : ZeroRun × ZeroRun → Nat × Nat → ZeroRun × ZeroRun := fun (longest, current) (segment, i) =>
    if segment = 0 then
      let current := ⟨if current.len = 0 then i else current.start, current.len + 1⟩
      (if longest.len < current.len then current else longest, current)
    else (longest, ⟨0, 0⟩)
  (segments.zipIdx.foldl step (⟨0, 0⟩, ⟨0, 0⟩)).1

/-- An IPv6 address as the standard library prints it; one that maps an IPv4 address is not
printed here. -/
def ipv6Text (peer : Bytes) : String :=
  let all := ipv6Segments peer
  let zeros := longestZeros all
  let join := fun part : List Nat => String.intercalate ":" (part.map hex)
  if 1 < zeros.len then
    join (all.take zeros.start) ++ "::" ++ join (all.drop (zeros.start + zeros.len))
  else join all

def peerText (peer : Bytes) : String :=
  match toIpv4Mapped peer with
  | some octets => String.intercalate "." (octets.map fun b => toString b.toNat)
  | none => ipv6Text peer

example : peerText (List.replicate 10 0 ++ [0xff, 0xff, 127, 0, 0, 1]) = "127.0.0.1" ∧
    peerText ([0x20, 1, 0xd, 0xb8] ++ List.replicate 11 0 ++ [1]) = "2001:db8::1" := by
  decide

/-! ## The log -/

/-- One line of the log. -/
def logLine (request : Request) (ctx : RequestContext) (status : StatusCode) : String :=
  peerText ctx.peer ++ " " ++ request.method.asStr ++ " " ++ request.path ++ " " ++
    toString status.code ++ "\n"

/-- Write one line to the log, if there is one. -/
def BuiltApp.log (b : BuiltApp) (request : Request) (ctx : RequestContext) (status : StatusCode) :
    String := if b.accessLog then logLine request ctx status else ""

/-- Requests one after another, with their responses and what is written to the log. -/
def BuiltApp.serveLogged (b : BuiltApp) (assets : AssetSource) (t : Target)
    (deflate : Bytes → Nat → Bytes) : Option RateLimiter → List (Request × RequestContext) →
    Outcome Empty (List Response × String)
  | _, [] => pure ([], "")
  | limiter, (request, ctx) :: rest => do
    let (response, limiter) ← (b.app fun _ => assets).handle t deflate limiter request ctx
    let (responses, log) ← b.serveLogged assets t deflate limiter rest
    pure (response :: responses, b.log request ctx response.status ++ log)

/-- What a line says. -/
structure LogRecord where
  peer : String
  method : Method
  path : String
  status : Nat
deriving DecidableEq

namespace LogRecord

def of (request : Request) (ctx : RequestContext) (response : Response) : LogRecord :=
  ⟨peerText ctx.peer, request.method, request.path, response.status.code⟩

def line (r : LogRecord) : String :=
  r.peer ++ " " ++ r.method.asStr ++ " " ++ r.path ++ " " ++ toString r.status ++ "\n"

/-- Nothing in the record is taken for what separates it. -/
structure Separate (r : LogRecord) : Prop where
  peer : ' ' ∉ r.peer.toList ∧ '\n' ∉ r.peer.toList
  path : ' ' ∉ r.path.toList

end LogRecord

/-- A line is read by its spaces. -/
def readLine (line : String) : Option LogRecord :=
  match split ' ' line with
  | [peer, method, path, status] =>
    (Method.fromBytes (utf8 method)).map fun method => ⟨peer, method, path, decimal (utf8 status)⟩
  | _ => none

/-- The log is read line by line. -/
def readLines (log : String) : List (Option LogRecord) := (split '\n' log).dropLast.map readLine

/-- The log is read space by space, and a record ends behind its status. -/
def readRecords : Nat → String → Option (List LogRecord)
  | 0, _ => none
  | records + 1, log =>
    if log.isEmpty then some []
    else do
      let (peer, rest) ← splitOnce ' ' log
      let (method, rest) ← splitOnce ' ' rest
      let (path, rest) ← splitOnce ' ' rest
      let (status, rest) ← splitOnce '\n' rest
      let method ← Method.fromBytes (utf8 method)
      let later ← readRecords records rest
      some (⟨peer, method, path, decimal (utf8 status)⟩ :: later)

/-! ## What is in a record -/

section Records

variable {t : Target} {request : Request} {peer : Bytes} {c : Char} {r : LogRecord}
  {records : List LogRecord}

theorem ipv6Text_free (hcolon : c ≠ ':') (hdigit : ∀ d < 16, Nat.digitChar d ≠ c) :
    c ∉ (ipv6Text peer).toList := by
  have hpart : ∀ part : List Nat, c ∉ (String.intercalate ":" (part.map hex)).toList := by
    intro part
    apply not_mem_intercalate
    · simpa using hcolon
    · intro piece hpiece
      rcases List.mem_map.mp hpiece with ⟨n, _, rfl⟩
      exact hex_not_mem hdigit n
  have hpair : c ∉ "::".toList := by simpa using hcolon
  unfold ipv6Text
  dsimp only
  split
  · rw [String.toList_append, String.toList_append, List.mem_append, List.mem_append, not_or, not_or]
    exact ⟨⟨hpart _, hpair⟩, hpart _⟩
  · exact hpart _

/-- The text of a peer is digits, colons and dots. -/
theorem peerText_free (hcolon : c ≠ ':') (hdot : c ≠ '.') (hdigit : ∀ d < 16, Nat.digitChar d ≠ c)
    (hdecimal : c.isDigit = false) : c ∉ (peerText peer).toList := by
  unfold peerText
  split
  · apply not_mem_intercalate
    · simpa using hdot
    · intro piece hpiece
      rcases List.mem_map.mp hpiece with ⟨b, _, rfl⟩
      exact (IsDecimal.toString b.toNat).not_mem hdecimal
  · exact ipv6Text_free hcolon hdigit

/-- A path is made of its target. -/
theorem mem_target_of_mem_path (h : c ∈ request.path.toList) :
    c ∈ request.target.toList ∨ c = '/' := by
  rw [path_eq, String.toList_ofList] at h
  have hreduced : c ∈ request.absoluteFormPath.getD request.target.toList :=
    (List.takeWhile_prefix _).subset h
  cases hform : request.absoluteFormPath with
  | none =>
    rw [hform] at hreduced
    exact .inl hreduced
  | some found =>
    rw [hform, Option.getD_some] at hreduced
    unfold Request.absoluteFormPath at hform
    dsimp only at hform
    split at hform
    · cases hform
    · split at hform
      · cases hform
      · split at hform
        · cases hform
          exact .inl (List.mem_of_mem_drop (List.mem_of_mem_drop hreduced))
        · cases hform
          exact .inr (List.mem_singleton.mp hreduced)

/-- The request came off a connection. -/
def Request.Received (t : Target) (request : Request) : Prop :=
  ∃ buf maxBody n, Addressable t buf ∧ parseWith t buf maxBody = .ok (.complete request n)

/-- The parser keeps spaces out of a path. -/
theorem Request.Received.path_free (h : request.Received t) : ' ' ∉ request.path.toList := by
  intro hmem
  rcases h with ⟨buf, maxBody, n, haddr, hparsed⟩
  rcases (parseWith_eq_complete_iff haddr).mp hparsed with ⟨i, head, body, hhead, rfl, _⟩
  rcases parseHead_eq_ok_iff.mp hhead.head with ⟨line, lines, hparts⟩
  rcases parseRequestLine_eq_ok_iff.mp hparts.requestLine with ⟨versionTok, hline⟩
  rcases mem_target_of_mem_path hmem with htarget | hslash
  · have hencoded : String.utf8EncodeChar ' ' = [sp] := by decide
    apply hline.targetNoSpace
    exact List.mem_flatMap.mpr ⟨' ', htarget, by rw [hencoded]; exact List.mem_singleton_self _⟩
  · cases hslash

theorem separate_of_received (h : request.Received t) (ctx : RequestContext) (response : Response) :
    (LogRecord.of request ctx response).Separate where
  peer := ⟨peerText_free (by decide) (by decide) (by decide) (by decide),
    peerText_free (by decide) (by decide) (by decide) (by decide)⟩
  path := h.path_free

theorem method_free (m : Method) : ' ' ∉ m.asStr.toList ∧ '\n' ∉ m.asStr.toList := by
  cases m <;> decide

theorem status_free (n : Nat) : ' ' ∉ (toString n).toList ∧ '\n' ∉ (toString n).toList :=
  ⟨(IsDecimal.toString n).not_mem (by decide), (IsDecimal.toString n).not_mem (by decide)⟩

/-! ## Reading -/

/-- A record in front of others is read space by space. -/
theorem readRecords_line (h : r.Separate) (n : Nat) (log : String) :
    readRecords (n + 1) (r.line ++ log) = (readRecords n log).map (r :: ·) := by
  have hspace : " ".toList = [' '] := rfl
  have hfeed : "\n".toList = ['\n'] := rfl
  have hshape : r.line ++ log = r.peer ++ " " ++ (r.method.asStr ++ " " ++ (r.path ++ " " ++
      (toString r.status ++ "\n" ++ log))) := by
    simp only [LogRecord.line, String.append_assoc]
  have hnonempty : (r.line ++ log).isEmpty = false := by
    rw [hshape, Bool.eq_false_iff, Ne, String.isEmpty_iff]
    intro hempty
    have hlist := congrArg String.toList hempty
    simp at hlist
  have hmethod : Method.fromBytes (utf8 r.method.asStr) = some r.method :=
    Method.fromBytes_eq_some_iff.mpr rfl
  rw [readRecords, hnonempty, hshape, splitOnce_append hspace h.peer.1]
  simp only [Bool.false_eq_true, if_false, Option.bind_eq_bind, Option.bind_some,
    splitOnce_append hspace (method_free r.method).1, splitOnce_append hspace h.path,
    splitOnce_append hfeed (status_free r.status).2, hmethod, (decimal_toString r.status).2.2]
  cases readRecords n log with
  | none => rfl
  | some later => rfl

theorem readRecords_log (h : ∀ r ∈ records, r.Separate) :
    readRecords (records.length + 1) (String.join (records.map LogRecord.line)) = some records := by
  induction records with
  | nil => rfl
  | cons r rest ih =>
    rw [List.forall_mem_cons] at h
    rw [List.map_cons, String.join_cons, List.length_cons, readRecords_line h.1, ih h.2]
    rfl

/-- A line of its own is read by its spaces. -/
theorem readLine_line (h : r.Separate) :
    readLine (r.peer ++ " " ++ r.method.asStr ++ " " ++ r.path ++ " " ++ toString r.status) =
      some r := by
  have hjoined : r.peer ++ " " ++ r.method.asStr ++ " " ++ r.path ++ " " ++ toString r.status =
      String.intercalate " " [r.peer, r.method.asStr, r.path, toString r.status] := by
    simp [String.append_assoc]
  have hfree : ∀ piece ∈ [r.peer, r.method.asStr, r.path, toString r.status],
      ' ' ∉ piece.toList := by
    simp only [List.forall_mem_cons, List.not_mem_nil, false_implies, implies_true, and_true]
    exact ⟨h.peer.1, (method_free r.method).1, h.path, (status_free r.status).1⟩
  have hmethod : Method.fromBytes (utf8 r.method.asStr) = some r.method :=
    Method.fromBytes_eq_some_iff.mpr rfl
  rw [readLine, hjoined, split_join rfl (by simp) hfree]
  simp only [hmethod, Option.map_some, (decimal_toString r.status).2.2]

/-- The line feeds of a log are one for each record, and those of the paths. -/
theorem count_log (h : ∀ r ∈ records, r.Separate) :
    (String.join (records.map LogRecord.line)).toList.count '\n' =
      records.length + (records.map fun r => r.path.toList.count '\n').sum := by
  induction records with
  | nil => rfl
  | cons r rest ih =>
    rw [List.forall_mem_cons] at h
    have hpeer := List.count_eq_zero.mpr h.1.peer.2
    have hmethod := List.count_eq_zero.mpr (method_free r.method).2
    have hstatus := List.count_eq_zero.mpr (status_free r.status).2
    have hspace : " ".toList.count '\n' = 0 := by decide
    have hfeed : "\n".toList.count '\n' = 1 := by decide
    rw [List.map_cons, String.join_cons, String.toList_append, List.count_append, ih h.2,
      LogRecord.line, List.length_cons, List.map_cons, List.sum_cons]
    simp only [String.toList_append, List.count_append, hpeer, hmethod, hstatus, hspace, hfeed]
    omega

/-- Without line feeds in the paths, the lines of a log are its records. -/
theorem split_log (h : ∀ r ∈ records, r.Separate) (hfree : ∀ r ∈ records, '\n' ∉ r.path.toList) :
    split '\n' (String.join (records.map LogRecord.line)) =
      (records.map fun r => r.peer ++ " " ++ r.method.asStr ++ " " ++ r.path ++ " " ++
        toString r.status) ++ [""] := by
  induction records with
  | nil => rfl
  | cons r rest ih =>
    rw [List.forall_mem_cons] at h hfree
    have hbody : '\n' ∉ (r.peer ++ " " ++ r.method.asStr ++ " " ++ r.path ++ " " ++
        toString r.status).toList := by
      simp only [String.toList_append, List.mem_append, not_or]
      exact ⟨⟨⟨⟨⟨⟨h.1.peer.2, by decide⟩, (method_free r.method).2⟩, by decide⟩, hfree.1⟩, by decide⟩,
        (status_free r.status).2⟩
    have hlog : String.join ((r :: rest).map LogRecord.line) =
        String.ofList ((r.peer ++ " " ++ r.method.asStr ++ " " ++ r.path ++ " " ++
          toString r.status).toList ++ '\n' :: (String.join (rest.map LogRecord.line)).toList) := by
      apply String.toList_inj.mp
      rw [List.map_cons, String.join_cons, LogRecord.line, String.toList_ofList]
      simp [String.toList_append]
    rw [hlog, split_append_cons, String.ofList_toList, String.ofList_toList, split_of_not_mem hbody,
      ih h.2 hfree.2]
    rfl

/-- The lines of a log are read as its records iff no path has a line feed. -/
theorem readLines_log (h : ∀ r ∈ records, r.Separate) :
    readLines (String.join (records.map LogRecord.line)) = records.map some ↔
      ∀ r ∈ records, '\n' ∉ r.path.toList := by
  constructor
  · intro hlines r hr
    have hlength := congrArg List.length hlines
    rw [readLines, List.length_map, List.length_dropLast, length_split, List.length_map,
      count_log h] at hlength
    have hsum : (records.map fun r => r.path.toList.count '\n').sum = 0 := by omega
    exact List.count_eq_zero.mp (List.sum_eq_zero_iff.mp hsum _ (List.mem_map_of_mem hr))
  · intro hfree
    rw [readLines, split_log h hfree, List.dropLast_concat, List.map_map]
    exact List.map_congr_left fun r hr => readLine_line (h r hr)

end Records

/-! ## A run -/

section Run

variable {t : Target} {b : BuiltApp} {assets : AssetSource} {deflate : Bytes → Nat → Bytes}
  {limiter : Option RateLimiter} {visits : List (Request × RequestContext)}
  {responses : List Response} {log : String}

/-- What a run should have logged. -/
def recordsOf (visits : List (Request × RequestContext)) (responses : List Response) :
    List LogRecord := (visits.zip responses).map fun p => .of p.1.1 p.1.2 p.2

theorem mem_recordsOf {r : LogRecord} (h : r ∈ recordsOf visits responses) :
    ∃ v ∈ visits, ∃ response, r = .of v.1 v.2 response := by
  rcases List.mem_map.mp h with ⟨⟨v, response⟩, hpair, rfl⟩
  exact ⟨v, (List.of_mem_zip hpair).1, response, rfl⟩

theorem map_recordsOf (h : responses.length = visits.length) :
    (recordsOf visits responses).map LogRecord.path = visits.map fun v => v.1.path := by
  have hvisits := List.map_fst_zip (Nat.le_of_eq h.symm)
  rw [recordsOf, List.map_map]
  conv_rhs => rw [← hvisits, List.map_map]
  rfl

/-- The log of a run is the lines of its records. -/
theorem log_of_run (haccess : b.accessLog = true)
    (h : b.serveLogged assets t deflate limiter visits = .ok (responses, log)) :
    responses.length = visits.length ∧
      log = String.join ((recordsOf visits responses).map LogRecord.line) := by
  induction visits generalizing limiter responses log with
  | nil =>
    cases h
    exact ⟨rfl, rfl⟩
  | cons v rest ih =>
    rcases Outcome.bind_eq_ok.mp h with ⟨⟨response, limiter'⟩, _, hrest⟩
    rcases Outcome.bind_eq_ok.mp hrest with ⟨⟨later, log'⟩, hlater, hdone⟩
    cases hdone
    rcases ih hlater with ⟨hlength, rfl⟩
    have hfirst : recordsOf (v :: rest) (response :: later) =
        .of v.1 v.2 response :: recordsOf rest later := rfl
    refine ⟨congrArg (· + 1) hlength, ?_⟩
    rw [BuiltApp.log, if_pos haccess, hfirst, List.map_cons, String.join_cons]
    rfl

/-- Whatever was received and answered, the log is read space by space as what was answered;
and line by line iff no path has a line feed. -/
theorem accessLog_reads (haccess : b.accessLog = true) (hreceived : ∀ v ∈ visits, v.1.Received t)
    (h : b.serveLogged assets t deflate limiter visits = .ok (responses, log)) :
    readRecords (visits.length + 1) log = some (recordsOf visits responses) ∧
      (readLines log = (recordsOf visits responses).map some ↔
        ∀ v ∈ visits, '\n' ∉ v.1.path.toList) := by
  rcases log_of_run haccess h with ⟨hlength, rfl⟩
  have hpaths := map_recordsOf hlength
  have hseparate : ∀ r ∈ recordsOf visits responses, r.Separate := by
    intro r hr
    rcases mem_recordsOf hr with ⟨v, hv, response, rfl⟩
    exact separate_of_received (hreceived v hv) v.2 response
  constructor
  · have hcount : (recordsOf visits responses).length = visits.length := by
      rw [recordsOf, List.length_map, List.length_zip, hlength, Nat.min_self]
    rw [← hcount]
    exact readRecords_log hseparate
  · have hfree : (∀ r ∈ recordsOf visits responses, '\n' ∉ r.path.toList) ↔
        ∀ path ∈ visits.map fun v => v.1.path, '\n' ∉ path.toList := by
      rw [← hpaths, List.forall_mem_map]
    rw [readLines_log hseparate, hfree, List.forall_mem_map]

/-- A request whose path goes on in the next line. -/
def twoLineGet : Bytes := utf8 "GET /a\nb HTTP/1.1\r\nHost: h\r\n\r\n"

def twoLineRequest : Request := ⟨.get, "/a\nb", .http11, [⟨"Host", "h"⟩], []⟩

theorem received_twoLineRequest : twoLineRequest.Received ⟨.w64, false⟩ :=
  ⟨twoLineGet, 16, twoLineGet.length, by decide, by decide +kernel⟩

def noAssets : AssetSource := ⟨fun _ => none, fun _ => false⟩

def loggingApp : BuiltApp := { buildApp .default with accessLog := true }

def twoLineVisits : List (Request × RequestContext) :=
  [(twoLineRequest, ⟨List.replicate 15 0 ++ [1], 0⟩)]

/-- It is logged on two lines, and still read space by space. -/
theorem logged_twoLineRequest : ∃ responses, loggingApp.serveLogged noAssets ⟨.w64, false⟩
      (fun data _ => data) none twoLineVisits = .ok (responses, "::1 GET /a\nb 404\n") ∧
    readRecords 2 "::1 GET /a\nb 404\n" = some (recordsOf twoLineVisits responses) ∧
    readLines "::1 GET /a\nb 404\n" ≠ (recordsOf twoLineVisits responses).map some := by
  have hrun : loggingApp.serveLogged noAssets ⟨.w64, false⟩ (fun data _ => data) none
      twoLineVisits = .ok ([.text ⟨404⟩ "404 Not Found"], "::1 GET /a\nb 404\n") := by
    decide +kernel
  have hreceived : ∀ v ∈ twoLineVisits, v.1.Received ⟨.w64, false⟩ := by
    intro v hv
    rw [List.mem_singleton.mp hv]
    exact received_twoLineRequest
  rcases accessLog_reads rfl hreceived hrun with ⟨hrecords, hlines⟩
  refine ⟨_, hrun, hrecords, ?_⟩
  intro hread
  have hfree := hlines.mp hread _ (List.mem_singleton_self _)
  exact absurd hfree (by decide)

end Run

end FerroHttp
