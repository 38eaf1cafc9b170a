import FerroHttp.Config.RoundTrip
import FerroHttp.Lib.Adders

/-!
# WebUi.Stats — request statistics

Every reactor records its responses in the same counters, one atomic addition at a time, so
the additions of several responses interleave. `reported` says that none of them is lost: when
all reactors are done, the snapshot is JSON with the number of responses in each class,
which together are the total, and the bytes of all bodies, each modulo `2 ^ 64` and to its
last digit.
-/

namespace FerroHttp

open Exec Text Interleave Json

open scoped BigOperators

/-! ## Counters -/

inductive Counter where
  | total
  | status2xx
  | status3xx
  | status4xx
  | status5xx
  | bytesOut
deriving DecidableEq, Repr

/-- Cumulative server statistics. -/
abbrev Stats : Type := Counter → UInt64

namespace Stats

def new : Stats := fun _ => 0

/-- Which counter a status belongs to; what has no class of its own counts as an error. -/
def bucket (status : Nat) : Counter :=
  if 200 ≤ status ∧ status ≤ 299 then .status2xx
  else if 300 ≤ status ∧ status ≤ 399 then .status3xx
  else if 400 ≤ status ∧ status ≤ 499 then .status4xx
  else .status5xx

/-- The additions of one record, in their order. -/
def additions (status bodyLen : Nat) : List (Counter × UInt64) :=
  [(.total, 1), (bucket status, 1), (.bytesOut, .ofNat bodyLen)]

/-- Record one served response. -/
def record (s : Stats) (status bodyLen : Nat) : Stats :=
  (additions status bodyLen).foldl (fun s e => Function.update s e.1 (s e.1 + e.2)) s

/-- A snapshot as JSON. -/
def snapshotJson (s : Stats) (uptimeSecs : Nat) : String :=
  "\x7b\"uptime_secs\":" ++ toString uptimeSecs ++
    ",\"total_requests\":" ++ toString (s .total).toNat ++
    ",\"status_2xx\":" ++ toString (s .status2xx).toNat ++
    ",\"status_3xx\":" ++ toString (s .status3xx).toNat ++
    ",\"status_4xx\":" ++ toString (s .status4xx).toNat ++
    ",\"status_5xx\":" ++ toString (s .status5xx).toNat ++
    ",\"bytes_out\":" ++ toString (s .bytesOut).toNat ++ "\x7d"

end Stats

/-! ## Objects on one line -/

namespace Json

variable {levels : Nat} {entries : List Member}

/-- The members of an object without white space, up to its closing brace. -/
def compactMembers : List Member → String
  | [] => "\x7d"
  | [e] => "\"" ++ e.rawKey ++ "\":" ++ e.text ++ "\x7d"
  | e :: entries => "\"" ++ e.rawKey ++ "\":" ++ e.text ++ "," ++ compactMembers entries

theorem utf8_compact (e : Member) : utf8 ("\"" ++ e.rawKey ++ "\":" ++ e.text) =
    [] ++ (utf8 ("\"" ++ e.rawKey ++ "\"") ++ ([] ++ 0x3a :: ([] ++ utf8 e.text))) := by
  have hcolon : utf8 "\":" = [0x22, 0x3a] := by decide
  have hquote : utf8 "\"" = [0x22] := by decide
  simp only [utf8_append, hcolon, hquote, List.append_assoc, List.cons_append, List.nil_append]

theorem reads_compactMembers (hne : entries ≠ []) (h : ∀ e ∈ entries, e.Spelled levels) :
    ∃ text, utf8 (compactMembers entries) = text ++ [0x7d] ∧
      Reads levels (.members (members entries)) text := by
  have hbrace : utf8 "\x7d" = [0x7d] := by decide
  have hcomma : utf8 "," = [0x2c] := by decide
  have hnil : Ws [] := by simp [Ws]
  induction entries with
  | nil => exact (hne rfl).elim
  | cons e entries ih =>
    have he := h e List.mem_cons_self
    cases entries with
    | nil =>
      refine ⟨_, ?_, Reads.member hnil he.quoted hnil hnil he.spells hnil⟩
      rw [compactMembers, utf8_append, utf8_compact, hbrace]
      simp only [List.append_assoc, List.cons_append, List.nil_append]
    | cons e' entries =>
      rcases ih (by simp) fun e he => h e (List.mem_cons_of_mem _ he) with ⟨texts, htexts, hreads⟩
      refine ⟨_, ?_, Reads.members hnil he.quoted hnil hnil he.spells hnil hreads⟩
      have hmembers : compactMembers (e :: e' :: entries) =
          "\"" ++ e.rawKey ++ "\":" ++ e.text ++ "," ++ compactMembers (e' :: entries) := rfl
      rw [hmembers, utf8_append, utf8_append, utf8_compact, htexts, hcomma]
      simp only [List.append_assoc, List.cons_append, List.nil_append]

/-- An object without white space is parsed to its members. -/
theorem parse_compactMembers (hne : entries ≠ []) (h : ∀ e ∈ entries, e.Spelled (maxDepth - 1)) :
    Json.parse ("\x7b" ++ compactMembers entries) = .ok (.object (members entries)) := by
  have hbrace : utf8 "\x7b" = [0x7b] := by decide
  rcases reads_compactMembers hne h with ⟨text, htext, hreads⟩
  have hspells : Spells maxDepth (utf8 ("\x7b" ++ compactMembers entries)) (.object (members entries)) := by
    rw [utf8_append, hbrace, htext]
    exact spells_object hreads
  have hparse := parse_of_spells hspells (w := "") (by decide) (by intro b hb; cases hb)
  rw [String.append_empty] at hparse
  exact hparse

end Json

/-! ## Recorders -/

namespace Stats

/-- What the snapshot should say, for exact counts. -/
def report (uptimeSecs : Nat) (counts : Counter → Nat) : List Member :=
  [.ofNat "uptime_secs" uptimeSecs, .ofNat "total_requests" (counts .total),
    .ofNat "status_2xx" (counts .status2xx), .ofNat "status_3xx" (counts .status3xx),
    .ofNat "status_4xx" (counts .status4xx), .ofNat "status_5xx" (counts .status5xx),
    .ofNat "bytes_out" (counts .bytesOut)]

/-- The text that says so. -/
def reportText (uptimeSecs : Nat) (counts : Counter → Nat) : String :=
  "\x7b" ++ compactMembers (report uptimeSecs counts)

/-- What one response adds to a counter. -/
def share (c : Counter) (response : Nat × Nat) : Nat :=
  match c with
  | .total => 1
  | .bytesOut => response.2
  | c => if bucket response.1 = c then 1 else 0

/-- What responses add to a counter, exactly. -/
def counted (c : Counter) (responses : List (Nat × Nat)) : Nat := (responses.map (share c)).sum

/-- Reactors that have responses to record, each with its status and the length of its body. -/
def recorders {ι : Type} (served : ι → List (Nat × Nat)) :
    System ι Stats (List (Counter × UInt64)) :=
  ⟨new, fun i => (served i).flatMap fun response => additions response.1 response.2⟩

theorem bucket_cases (status : Nat) : bucket status = .status2xx ∨ bucket status = .status3xx ∨
    bucket status = .status4xx ∨ bucket status = .status5xx := by
  unfold bucket
  split
  · exact .inl rfl
  · split
    · exact .inr (.inl rfl)
    · split
      · exact .inr (.inr (.inl rfl))
      · exact .inr (.inr (.inr rfl))

/-- A record on its own is its additions. -/
theorem record_eq (s : Stats) (status bodyLen : Nat) (c : Counter) :
    s.record status bodyLen c = s c + amount c (additions status bodyLen) := foldl_amount ..

theorem amount_additions (c : Counter) (response : Nat × Nat) :
    amount c (additions response.1 response.2) = UInt64.ofNat (share c response) := by
  unfold additions
  simp only [amount_cons, amount_nil, add_zero]
  rcases bucket_cases response.1 with h | h | h | h <;> rw [h] <;> cases c <;> simp [share, h]

/-- The additions of many responses, up to the width of a counter. -/
theorem amount_served (c : Counter) (responses : List (Nat × Nat)) :
    amount c (responses.flatMap fun r => additions r.1 r.2) = UInt64.ofNat (counted c responses) := by
  induction responses with
  | nil => rfl
  | cons response rest ih =>
    rw [List.flatMap_cons, amount_append, ih, amount_additions, ← UInt64.ofNat_add]
    rfl

/-- The classes are all responses. -/
theorem counted_total (responses : List (Nat × Nat)) :
    counted .total responses = counted .status2xx responses + counted .status3xx responses +
      counted .status4xx responses + counted .status5xx responses := by
  induction responses with
  | nil => rfl
  | cons response rest ih =>
    have hshare : share .total response = share .status2xx response + share .status3xx response +
        share .status4xx response + share .status5xx response := by
      rcases bucket_cases response.1 with h | h | h | h <;> simp [share, h]
    unfold counted at ih ⊢
    simp only [List.map_cons, List.sum_cons]
    omega

section Reported

variable {ι : Type} [DecidableEq ι] [Fintype ι] {served : ι → List (Nat × Nat)}
  {events : List (ι × Unit)}

omit [DecidableEq ι] in
theorem sum_ofNat (f : ι → Nat) : ∑ i, UInt64.ofNat (f i) = UInt64.ofNat (∑ i, f i) := by
  let hom : ℕ →+ UInt64 := ⟨⟨UInt64.ofNat, rfl⟩, UInt64.ofNat_add⟩
  exact (map_sum hom f Finset.univ).symm

/-- The counters after all reactors are done. -/
theorem counters_done (hdone : ∀ i, ((recorders served).run addStep events).tasks i = [])
    (c : Counter) : ((recorders served).run addStep events).shared c =
      UInt64.ofNat (∑ i, counted c (served i)) := by
  rw [run_done hdone, ← sum_ofNat]
  show (0 : UInt64) + _ = _
  rw [zero_add]
  exact Finset.sum_congr rfl fun i _ => amount_served c (served i)

/-- A snapshot is the report of the counters. -/
theorem snapshotJson_eq (s : Stats) (uptimeSecs : Nat) :
    s.snapshotJson uptimeSecs = reportText uptimeSecs fun c => (s c).toNat := by
  unfold snapshotJson reportText report
  apply String.toList_inj.mp
  simp [compactMembers, Member.ofNat, Member.plain]

theorem spelled_report {levels : Nat} (uptimeSecs : Nat) (counts : Counter → Nat) :
    ∀ e ∈ report uptimeSecs counts, e.Spelled levels := by
  simp only [report, List.forall_mem_cons, List.not_mem_nil, false_implies, implies_true, and_true]
  exact ⟨spelled_ofNat (by decide) _, spelled_ofNat (by decide) _, spelled_ofNat (by decide) _,
    spelled_ofNat (by decide) _, spelled_ofNat (by decide) _, spelled_ofNat (by decide) _,
    spelled_ofNat (by decide) _⟩

/-- A report reads back as its counts. -/
theorem parse_reportText (uptimeSecs : Nat) (counts : Counter → Nat) :
    Json.parse (reportText uptimeSecs counts) = .ok (.object (members (report uptimeSecs counts))) :=
  parse_compactMembers (by simp [report]) (spelled_report _ _)

/-- However the records of the reactors interleave, the counters are the exact counts, modulo
their width. The snapshot that follows them is JSON with these counts, and each response is in
one class. -/
theorem reported (hdone : ∀ i, ((recorders served).run addStep events).tasks i = [])
    (uptimeSecs : Nat) :
    (∀ c, (((recorders served).run addStep events).shared c).toNat =
        (∑ i, counted c (served i)) % 2 ^ 64) ∧
      snapshotJson ((recorders served).run addStep events).shared uptimeSecs =
        reportText uptimeSecs (fun c => (∑ i, counted c (served i)) % 2 ^ 64) ∧
      Json.parse (snapshotJson ((recorders served).run addStep events).shared uptimeSecs) =
        .ok (.object (members (report uptimeSecs fun c => (∑ i, counted c (served i)) % 2 ^ 64))) ∧
      ∑ i, counted .total (served i) = ∑ i, counted .status2xx (served i) +
        ∑ i, counted .status3xx (served i) + ∑ i, counted .status4xx (served i) +
        ∑ i, counted .status5xx (served i) := by
  have hcounters : ∀ c, (((recorders served).run addStep events).shared c).toNat =
      (∑ i, counted c (served i)) % 2 ^ 64 := by
    intro c
    rw [counters_done hdone, UInt64.toNat_ofNat']
  have htext : snapshotJson ((recorders served).run addStep events).shared uptimeSecs =
      reportText uptimeSecs (fun c => (∑ i, counted c (served i)) % 2 ^ 64) := by
    rw [snapshotJson_eq]
    simp only [hcounters]
  refine ⟨hcounters, htext, ?_, ?_⟩
  · rw [htext, parse_reportText]
  · simp only [counted_total, Finset.sum_add_distrib]

/-- Two reactors that record one response each. -/
def twoServed (second : Bool) : List (Nat × Nat) := if second then [(404, 50)] else [(200, 100)]

def crossed : List (Bool × Unit) :=
  [(false, ()), (true, ()), (true, ()), (false, ()), (true, ()), (false, ())]

theorem reported_crossed :
    (∀ c, (((recorders twoServed).run addStep crossed).shared c).toNat =
        (∑ i, counted c (twoServed i)) % 2 ^ 64) ∧
      snapshotJson ((recorders twoServed).run addStep crossed).shared 42 =
        reportText 42 (fun c => (∑ i, counted c (twoServed i)) % 2 ^ 64) ∧
      Json.parse (snapshotJson ((recorders twoServed).run addStep crossed).shared 42) =
        .ok (.object (members (report 42 fun c => (∑ i, counted c (twoServed i)) % 2 ^ 64))) ∧
      ∑ i, counted .total (twoServed i) = ∑ i, counted .status2xx (twoServed i) +
        ∑ i, counted .status3xx (twoServed i) + ∑ i, counted .status4xx (twoServed i) +
        ∑ i, counted .status5xx (twoServed i) :=
  reported (by decide) 42

end Reported

end Stats

end FerroHttp
