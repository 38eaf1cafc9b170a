import FerroHttp.Conn.Session

/-!
# Conn.Persistence — the options of a connection

A client lists connection options in any number of `Connection` fields, and `close`
among them ends the connection. `Request.keepAlive` compares the first field as a
whole.

1. `Request.persists`: what the options say, wherever they are listed;
2. `keepAlive_eq`: what the code reads off the first field;
3. `persistence_iff`: the two agree exactly when the first field decides
   (`FirstDecides`), and a dispatching step announces the close the code decided on.
   `listedClose_kept` lists `close` second and is kept open.
-/

namespace FerroHttp

open Exec Text

/-! ## Options -/

/-- The elements of a comma-separated list, without the padding around them. -/
def listElements (value : Bytes) : List Bytes := (value.splitOn 0x2c).map trimOws

namespace Request

/-- The options of all `Connection` fields. -/
def connectionOptions (r : Request) : List Bytes :=
  (r.headers.filter (Header.named "connection")).flatMap fun h => listElements (utf8 h.value)

/-- `name` is among the options, in any case. -/
def HasOption (r : Request) (name : String) : Prop :=
  ∃ o ∈ r.connectionOptions, eqIgnoreAsciiCase o (utf8 name) = true

/-- The first `Connection` field as a whole is `name`, in any case. -/
def FirstIs (r : Request) (name : String) : Prop :=
  ∃ v, r.header "connection" = some v ∧ eqIgnoreAsciiCase (utf8 v) (utf8 name) = true

instance (r : Request) (name : String) : Decidable (r.HasOption name) :=
  inferInstanceAs (Decidable (∃ o ∈ r.connectionOptions, _))

/-- Whether the connection stays open according to the options. -/
def persists (r : Request) : Bool :=
  if r.HasOption "close" then false
  else if r.version = .http11 then true
  else decide (r.HasOption "keep-alive")

/-- The first field says what all options say: `close`, if it is listed and would not be
implied anyway, and `keep-alive`, if that is listed and would not be implied. -/
def FirstDecides (r : Request) : Prop :=
  (r.HasOption "close" → r.FirstIs "close" ∨ r.version = .http10 ∧ ¬ r.FirstIs "keep-alive") ∧
    (¬ r.HasOption "close" → r.version = .http10 → r.HasOption "keep-alive" →
      r.FirstIs "keep-alive")

end Request

/-! ## One option -/

section Options

variable {r : Request} {name : String} {v : Bytes}

/-- A byte that is its own lower case is in both of two texts that differ in case only. -/
theorem not_mem_of_eqIgnoreAsciiCase {b : UInt8} (hb : toAsciiLowercase b = b)
    (h : eqIgnoreAsciiCase v (utf8 name) = true)
    (hname : b ∉ (utf8 name).map toAsciiLowercase) : b ∉ v := by
  intro hmem
  rw [eqIgnoreAsciiCase_iff] at h
  apply hname
  rw [← h]
  exact List.mem_map.mpr ⟨b, hmem, hb⟩

/-- No comma, space or tab. -/
def IsOption (name : String) : Prop :=
  ∀ b ∈ ([0x2c, sp, htab] : Bytes), b ∉ (utf8 name).map toAsciiLowercase

/-- A value that is an option as a whole is a list of one element. -/
theorem listElements_of_option (hname : IsOption name)
    (h : eqIgnoreAsciiCase v (utf8 name) = true) : listElements v = [v] := by
  have hfree : ∀ b ∈ ([0x2c, sp, htab] : Bytes), b ∉ v := by
    intro b hb
    have hlow : toAsciiLowercase b = b := by
      simp only [List.mem_cons, List.not_mem_nil, or_false] at hb
      rcases hb with rfl | rfl | rfl <;> rfl
    exact not_mem_of_eqIgnoreAsciiCase hlow h (hname b hb)
  have hows : ∀ b ∈ v, isOws b = false := by
    intro b hb
    have hsp : b ≠ sp := fun heq => hfree sp (by decide) (heq ▸ hb)
    have htab : b ≠ htab := fun heq => hfree htab (by decide) (heq ▸ hb)
    simp [isOws, hsp, htab]
  have htrim : trimOws v = v :=
    trimWith_of_cleanEnds
      ⟨fun b hb => hows b (List.mem_of_head? hb), fun b hb => hows b (List.mem_of_getLast? hb)⟩
  rw [listElements, List.splitOn_eq_singleton (hfree 0x2c (by decide)), List.map_singleton, htrim]

/-- What the first field is as a whole is among the options. -/
theorem Request.FirstIs.hasOption (hname : IsOption name) (h : r.FirstIs name) :
    r.HasOption name := by
  rcases h with ⟨v, hv, hsame⟩
  rcases Option.map_eq_some_iff.mp hv with ⟨f, hfind, rfl⟩
  refine ⟨utf8 f.value, ?_, hsame⟩
  have hmem : f ∈ r.headers.filter (Header.named "connection") :=
    List.mem_filter.mpr ⟨List.mem_of_find?_eq_some hfind, List.find?_some hfind⟩
  refine List.mem_flatMap.mpr ⟨f, hmem, ?_⟩
  rw [listElements_of_option hname hsame]
  exact List.mem_singleton.mpr rfl

theorem isOption_close : IsOption "close" := by
  unfold IsOption
  simp only [List.forall_mem_cons]
  exact ⟨by decide, by decide, by decide, List.forall_mem_nil _⟩

theorem isOption_keepAlive : IsOption "keep-alive" := by
  unfold IsOption
  simp only [List.forall_mem_cons]
  exact ⟨by decide, by decide, by decide, List.forall_mem_nil _⟩

end Options

/-! ## What the code reads -/

section KeepAlive

variable {r : Request}

/-- A value is not both options. -/
theorem Request.FirstIs.ne_keepAlive (h : r.FirstIs "close") : ¬ r.FirstIs "keep-alive" := by
  intro h'
  rcases h with ⟨v, hv, hclose⟩
  rcases h' with ⟨w, hw, hkeep⟩
  rw [hv, Option.some.injEq] at hw
  subst hw
  rw [eqIgnoreAsciiCase_iff] at hclose hkeep
  exact absurd (hclose.symm.trans hkeep) (by decide)

theorem keepAlive_of_close (h : r.FirstIs "close") : r.keepAlive = false := by
  rcases h with ⟨v, hv, hclose⟩
  rw [Request.keepAlive, hv]
  exact if_pos hclose

theorem keepAlive_of_keepAlive (h : r.FirstIs "keep-alive") : r.keepAlive = true := by
  have hnot : ¬ r.FirstIs "close" := fun hclose => hclose.ne_keepAlive h
  rcases h with ⟨v, hv, hkeep⟩
  have hclose : ¬ eqIgnoreAsciiCase (utf8 v) (utf8 "close") = true := fun hc => hnot ⟨v, hv, hc⟩
  rw [Request.keepAlive, hv]
  show (if _ then _ else _) = true
  rw [if_neg hclose, if_pos hkeep]

/-- Where the first field is neither, or missing, the version decides. -/
theorem keepAlive_of_version (hclose : ¬ r.FirstIs "close") (hkeep : ¬ r.FirstIs "keep-alive") :
    r.keepAlive = (r.version == .http11) := by
  cases hv : r.header "connection" with
  | none => rw [Request.keepAlive, hv]
  | some v =>
    have hc : ¬ eqIgnoreAsciiCase (utf8 v) (utf8 "close") = true := fun h => hclose ⟨v, hv, h⟩
    have hk : ¬ eqIgnoreAsciiCase (utf8 v) (utf8 "keep-alive") = true := fun h => hkeep ⟨v, hv, h⟩
    rw [Request.keepAlive, hv]
    show (if _ then _ else _) = _
    rw [if_neg hc, if_neg hk]

/-- The connection is kept when the first field says so, or the version unless the
first field says `close`. -/
theorem keepAlive_eq : r.keepAlive = true ↔
    r.FirstIs "keep-alive" ∨ r.version = .http11 ∧ ¬ r.FirstIs "close" := by
  by_cases hclose : r.FirstIs "close"
  · have hkeep := hclose.ne_keepAlive
    rw [keepAlive_of_close hclose]
    simp [hclose, hkeep]
  · by_cases hkeep : r.FirstIs "keep-alive"
    · rw [keepAlive_of_keepAlive hkeep]
      simp [hkeep]
    · rw [keepAlive_of_version hclose hkeep, beq_iff_eq]
      simp [hclose, hkeep]

theorem persists_eq : r.persists = true ↔
    ¬ r.HasOption "close" ∧ (r.version = .http11 ∨ r.HasOption "keep-alive") := by
  unfold Request.persists
  by_cases hclose : r.HasOption "close"
  · simp [hclose]
  · by_cases hversion : r.version = .http11
    · simp [hclose, hversion]
    · simp [hclose, hversion]

/-- The first field decides exactly when the code agrees with the options. -/
theorem keepAlive_eq_persists_iff (r : Request) : r.keepAlive = r.persists ↔ r.FirstDecides := by
  have hcloseMem : r.FirstIs "close" → r.HasOption "close" := Request.FirstIs.hasOption isOption_close
  have hkeepMem : r.FirstIs "keep-alive" → r.HasOption "keep-alive" :=
    Request.FirstIs.hasOption isOption_keepAlive
  have hversion : r.version = .http10 ↔ ¬ r.version = .http11 := by
    cases r.version <;> decide
  rw [Bool.eq_iff_iff, keepAlive_eq, persists_eq, Request.FirstDecides, hversion]
  have hne : r.FirstIs "close" → ¬ r.FirstIs "keep-alive" := Request.FirstIs.ne_keepAlive
  by_cases hclose : r.HasOption "close"
  · -- `close` is listed: the code agrees if it closes
    have hopen : ¬ (¬ r.HasOption "close" ∧
        (r.version = .http11 ∨ r.HasOption "keep-alive")) := fun h => h.1 hclose
    rw [iff_false_right hopen]
    constructor
    · intro hdrop
      refine ⟨?_, fun h => absurd hclose h⟩
      intro _
      by_cases hfirst : r.FirstIs "close"
      · exact Or.inl hfirst
      · exact Or.inr ⟨fun h => hdrop (Or.inr ⟨h, hfirst⟩), fun h => hdrop (Or.inl h)⟩
    · intro hdecides hkept
      rcases hdecides.1 hclose with hfirst | ⟨hold, hkeep⟩
      · rcases hkept with hkeep | ⟨_, hno⟩
        · exact hne hfirst hkeep
        · exact hno hfirst
      · rcases hkept with hkeep' | ⟨hnew, _⟩
        · exact hkeep hkeep'
        · exact hold hnew
  · -- it is not: the code agrees if it keeps what the version or an option keeps
    have hfirst : ¬ r.FirstIs "close" := fun h => hclose (hcloseMem h)
    constructor
    · intro hagree
      refine ⟨fun h => absurd h hclose, ?_⟩
      intro _ hold hkeep
      exact (hagree.mpr ⟨hclose, Or.inr hkeep⟩).resolve_right fun h => hold h.1
    · intro hdecides
      constructor
      · intro hkept
        refine ⟨hclose, ?_⟩
        rcases hkept with hkeep | ⟨hnew, _⟩
        · exact Or.inr (hkeepMem hkeep)
        · exact Or.inl hnew
      · intro hkept
        by_cases hnew : r.version = .http11
        · exact Or.inr ⟨hnew, hfirst⟩
        · exact Or.inl (hdecides.2 hclose hnew (hkept.2.resolve_left hnew))

end KeepAlive

/-! ## Persistence -/

section Persistence

/-- Persistence is what the options say, and a step that dispatches the request announces
the close exactly when it does not persist. -/
structure Request.PersistsExactly (r : Request) : Prop where
  options : r.keepAlive = r.persists
  announced : ∀ {σ : Type} (t : Target) (c : Connection) (svc : Service σ) (s : σ) (now : Nat)
    (consumed : Nat), parseWith t c.buf c.maxBody = .ok (.complete r consumed) →
    ∃ result bytes close, c.step t svc s now = .ok result ∧ result.step = .write bytes close ∧
      (close = true ↔ r.keepAlive = false)

/-- What a dispatching step announces is what was decided. -/
theorem step_announces {σ : Type} {t : Target} {c : Connection} {request : Request}
    {consumed : Nat} (hp : parseWith t c.buf c.maxBody = .ok (.complete request consumed))
    (svc : Service σ) (s : σ) (now : Nat) :
    ∃ result bytes close, c.step t svc s now = .ok result ∧ result.step = .write bytes close ∧
      (close = true ↔ request.keepAlive = false) := by
  refine ⟨_, _, !request.keepAlive, Connection.step_complete hp, rfl, ?_⟩
  rw [Bool.not_eq_true']

/-- Persistence follows the options exactly when the first field decides. -/
theorem persistence_iff (r : Request) : r.PersistsExactly ↔ r.FirstDecides := by
  constructor
  · intro h
    exact (keepAlive_eq_persists_iff r).mp h.options
  · intro h
    constructor
    · exact (keepAlive_eq_persists_iff r).mpr h
    · intro σ t c svc s now consumed hp
      exact step_announces hp svc s now

/-- A request that lists `close` behind another option. -/
def listedClose : Request :=
  { closingGet with headers := [⟨"Host", "h"⟩, ⟨"Connection", "TE, close"⟩] }

/-- The connection it came over. -/
def listedCloseConn : Connection :=
  Connection.new.feed (utf8 "GET / HTTP/1.1\r\nHost: h\r\nConnection: TE, close\r\n\r\n")

set_option maxRecDepth 10000 in
theorem listedCloseConn_parse : parseWith ⟨.w64, false⟩ listedCloseConn.buf
    listedCloseConn.maxBody = .ok (.complete listedClose 50) := by decide

/-- The client declares the close, and the connection is kept. -/
theorem listedClose_kept :
    parseWith ⟨.w64, false⟩ listedCloseConn.buf listedCloseConn.maxBody =
      .ok (.complete listedClose 50) ∧
    listedClose.keepAlive = true ∧ listedClose.persists = false ∧
    ¬ listedClose.PersistsExactly := by
  refine ⟨listedCloseConn_parse, by decide, by decide, ?_⟩
  intro h
  have hsame := h.options
  revert hsame
  decide

end Persistence

end FerroHttp
