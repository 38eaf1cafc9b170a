import FerroHttp.Config.Schema
import FerroHttp.Json.Visible
import FerroHttp.WebUi.Admin

/-!
# WebUi.Replies — whether a reply is JSON

`jsonEscape` lets control characters through. A reply with a message is JSON exactly when
its message has none (`jsonError_replies_iff`). Of the messages of a configuration error
only one can have some: it names a key of `mime_overrides` (`rawError_fromJsonStr_iff`). So
`serve_replies_iff` says which requests are answered with something else than JSON.
-/

namespace FerroHttp

open Exec Text

/-- The body of a reply is JSON, and one object. -/
def RepliesJson (r : Response) : Prop :=
  ∃ text members, fromUtf8 r.body = some text ∧ Json.parse text = .ok (.object members)

/-- A control character that is written as it is. -/
def isRaw (c : Char) : Bool := decide (c.toNat < 0x20) && c != '\n' && c != '\r' && c != '\t'

def hasRaw (s : String) : Bool := s.toList.any isRaw

@[simp]
theorem hasRaw_append (a b : String) : hasRaw (a ++ b) = (hasRaw a || hasRaw b) := by
  rw [hasRaw, String.toList_append, List.any_append]
  rfl

theorem hasRaw_toString (n : Nat) : hasRaw (toString n) = false := by
  have hdigits : (toString n).toList = Nat.toDigits 10 n := by
    rw [Nat.toString_eq_ofList_toDigits, String.toList_ofList]
  rw [hasRaw, hdigits, List.any_eq_false]
  intro c hc
  have hdigit := (utf8_toString n).2 c hc
  simp only [Char.isDigit, Bool.and_eq_true, decide_eq_true_eq, ge_iff_le,
    UInt32.le_iff_toNat_le] at hdigit
  have hlow : ¬ c.toNat < 0x20 := by
    have h48 : 48 ≤ c.toNat := hdigit.1
    omega
  simp [isRaw, hlow]

/-! ## Messages -/

section Messages

open Json

variable {m : String} {status : StatusCode} {c : Char} {levels : Nat}

theorem replies_json_iff {text : String} : RepliesJson (.json status text) ↔
    ∃ members, Json.parse text = .ok (.object members) := by
  have hbody : fromUtf8 (Response.json status text).body = some text := fromUtf8_utf8 text
  constructor
  · rintro ⟨text', members, htext, hparse⟩
    rw [hbody] at htext
    cases htext
    exact ⟨members, hparse⟩
  · rintro ⟨members, hparse⟩
    exact ⟨text, members, hbody, hparse⟩

/-- What `jsonEscape` makes of one character. -/
def escaped (c : Char) : String :=
  if c = '"' then "\\\""
  else if c = '\\' then "\\\\"
  else if c = '\n' ∨ c = '\r' ∨ c = '\t' then " "
  else String.singleton c

theorem utf8_jsonEscape (m : String) : utf8 (jsonEscape m) = m.toList.flatMap fun c => utf8 (escaped c) := by
  show utf8 (String.join (m.toList.map escaped)) = _
  rw [utf8_join, List.flatMap_map]

/-- An escaped character stands for some character. -/
theorem escaped_charText (h : isRaw c = false) : ∃ d, CharText (utf8 (escaped c)) d := by
  have hquoteBytes : utf8 "\\\"" = [0x5c, 0x22] := by decide
  have hslashBytes : utf8 "\\\\" = [0x5c, 0x5c] := by decide
  have hspaceBytes : utf8 " " = String.utf8EncodeChar ' ' := by decide
  unfold escaped
  split
  · rw [hquoteBytes]
    exact ⟨'"', .short (by decide)⟩
  split
  · rw [hslashBytes]
    exact ⟨'\\', .short (by decide)⟩
  split
  · rw [hspaceBytes]
    exact ⟨' ', .raw ⟨by decide, by decide, by decide⟩⟩
  · rename_i hquote hslash hblank
    rw [not_or, not_or] at hblank
    have hvisible : 0x20 ≤ c.toNat := by
      by_contra hlow
      have hraw : isRaw c = true := by
        simp [isRaw, hblank, Nat.not_le.mp hlow]
      rw [h] at hraw
      cases hraw
    have hbytes : utf8 (String.singleton c) = String.utf8EncodeChar c := by simp [utf8]
    rw [hbytes]
    exact ⟨c, .raw ⟨hvisible, hquote, hslash⟩⟩

/-- A quoted message is a string. -/
theorem jsonEscape_stringText (h : hasRaw m = false) :
    ∃ s, StringText (utf8 ("\"" ++ jsonEscape m ++ "\"")) s := by
  have hchars : ∀ cs : List Char, cs.any isRaw = false →
      ∃ ds, CharsText (cs.flatMap fun c => utf8 (escaped c)) ds := by
    intro cs
    induction cs with
    | nil => exact fun _ => ⟨[], .nil⟩
    | cons c cs ih =>
      intro hcs
      rw [List.any_cons, Bool.or_eq_false_iff] at hcs
      rcases escaped_charText hcs.1 with ⟨d, hd⟩
      rcases ih hcs.2 with ⟨ds, hds⟩
      exact ⟨d :: ds, .cons hd hds⟩
  rcases hchars m.toList h with ⟨ds, hds⟩
  have hbytes : utf8 ("\"" ++ jsonEscape m ++ "\"") =
      0x22 :: (m.toList.flatMap (fun c => utf8 (escaped c)) ++ [0x22]) := by
    have hquote : utf8 "\"" = [0x22] := by decide
    rw [utf8_append, utf8_append, utf8_jsonEscape, hquote]
    rfl
  rw [hbytes]
  exact ⟨_, .mk hds⟩

/-- A text without escapes is a string, quoted. -/
theorem plain_stringText {s : String} (h : ∀ c ∈ s.toList, Unescaped c) :
    StringText (utf8 ("\"" ++ s ++ "\"")) s := by
  have hquote : utf8 "\"" = [0x22] := by decide
  have hstring := StringText.mk (CharsText.plain h)
  rw [String.ofList_toList] at hstring
  rw [utf8_append, utf8_append, hquote]
  exact hstring

/-- Such a text, found by looking at its characters. -/
theorem plain_of_all {s : String}
    (h : s.toList.all (fun c => decide (0x20 ≤ c.toNat) && c != '"' && c != '\\') = true) :
    ∀ c ∈ s.toList, Unescaped c := by
  intro c hc
  have hplain := List.all_eq_true.mp h c hc
  simp only [Bool.and_eq_true, decide_eq_true_eq, bne_iff_ne, ne_eq] at hplain
  exact ⟨hplain.1.1, hplain.1.2, hplain.2⟩

/-- A raw character of a message is in the reply. -/
theorem mem_jsonError (h : hasRaw m = true) :
    ∃ b ∈ utf8 ("\x7b\"error\":\"" ++ jsonEscape m ++ "\"\x7d"), ¬ Visible b := by
  rcases List.any_eq_true.mp h with ⟨c, hc, hraw⟩
  simp only [isRaw, Bool.and_eq_true, decide_eq_true_eq, bne_iff_ne, ne_eq] at hraw
  rcases hraw with ⟨⟨⟨hlow, hline⟩, hreturn⟩, htab⟩
  have hnat : c.toUInt8.toNat = c.toNat := toUInt8_toNat (by omega)
  have hne : ∀ d : Char, c ≠ d → d.toNat < 256 → c.toUInt8 ≠ UInt8.ofNat d.toNat := by
    intro d hd hsmall heq
    have hval := congrArg UInt8.toNat heq
    rw [hnat, UInt8.toNat_ofNat', Nat.mod_eq_of_lt hsmall] at hval
    exact hd (Char.toNat_inj.mp hval)
  refine ⟨c.toUInt8, ?_, ?_⟩
  · have hescaped : utf8 (escaped c) = [c.toUInt8] := by
      have hquote : c ≠ '"' := by
        rintro rfl
        exact absurd hlow (by decide)
      have hslash : c ≠ '\\' := by
        rintro rfl
        exact absurd hlow (by decide)
      have hblank : ¬ (c = '\n' ∨ c = '\r' ∨ c = '\t') := by
        rintro (heq | heq | heq)
        · exact hline heq
        · exact hreturn heq
        · exact htab heq
      rw [escaped, if_neg hquote, if_neg hslash, if_neg hblank]
      have hbytes : utf8 (String.singleton c) = String.utf8EncodeChar c := by simp [utf8]
      rw [hbytes, utf8EncodeChar_of_ascii (by omega)]
    have hmem : c.toUInt8 ∈ utf8 (jsonEscape m) := by
      rw [utf8_jsonEscape, List.mem_flatMap]
      exact ⟨c, hc, by rw [hescaped]; exact List.mem_singleton_self _⟩
    rw [utf8_append, utf8_append]
    exact List.mem_append_left _ (List.mem_append_right _ hmem)
  · rintro (hvisible | heq | heq | heq)
    · omega
    · exact hne '\t' htab (by decide) heq
    · exact hne '\n' hline (by decide) heq
    · exact hne '\r' hreturn (by decide) heq

theorem ws_nil : Ws [] := by
  intro b hb
  cases hb

/-- A reply with a message is JSON exactly when nothing raw is in it. -/
theorem jsonError_replies_iff : RepliesJson (jsonError status m) ↔ hasRaw m = false := by
  rw [jsonError, replies_json_iff]
  constructor
  · rintro ⟨members, hparse⟩
    rw [← Bool.not_eq_true]
    intro hraw
    rcases mem_jsonError hraw with ⟨b, hb, hcontrol⟩
    exact hcontrol (parse_visible hparse b hb)
  · intro h
    rcases jsonEscape_stringText h with ⟨s, hs⟩
    have hkey : StringText (utf8 ("\"" ++ "error" ++ "\"")) "error" :=
      plain_stringText (plain_of_all (by decide))
    refine ⟨[("error", .string s)], parse_complete ⟨[], _, [], ws_nil, .object (.member ws_nil hkey
      ws_nil ws_nil (.string hs) ws_nil), ws_nil, ?_⟩⟩
    have hopen : utf8 "\x7b\"error\":\"" = 0x7b :: (utf8 ("\"" ++ "error" ++ "\"") ++ [0x3a, 0x22]) := by
      decide
    have hquote : utf8 "\"" = [0x22] := by decide
    have hclose : utf8 "\"\x7d" = [0x22, 0x7d] := by decide
    simp only [utf8_append, hopen, hquote, hclose, List.append_assoc, List.cons_append, List.nil_append,
      List.append_nil]

/-! ## Replies without a message -/

/-- Names between quotes, with commas in between. -/
theorem names_items {names : List String} (hne : names ≠ [])
    (hplain : ∀ name ∈ names, ∀ c ∈ name.toList, Unescaped c) :
    Derives rfc levels (.items (names.map .string))
      (utf8 (String.intercalate "," (names.map fun f => "\"" ++ f ++ "\""))) := by
  have hcomma : utf8 "," = [0x2c] := by decide
  induction names with
  | nil => exact (hne rfl).elim
  | cons name names ih =>
    have hname : StringText (utf8 ("\"" ++ name ++ "\"")) name :=
      plain_stringText (hplain name List.mem_cons_self)
    cases names with
    | nil =>
      have hitem := Derives.item ws_nil (.string hname : Derives rfc levels _ _) ws_nil
      rw [List.nil_append, List.append_nil] at hitem
      simpa using hitem
    | cons next names =>
      have hrest := ih (List.cons_ne_nil _ _) fun name hname' =>
        hplain name (List.mem_cons_of_mem _ hname')
      have hitems := Derives.items ws_nil (.string hname : Derives rfc levels _ _) ws_nil hrest
      rw [List.nil_append, List.nil_append] at hitems
      have hjoin : String.intercalate "," ((name :: next :: names).map fun f => "\"" ++ f ++ "\"") =
          "\"" ++ name ++ "\"" ++ "," ++
            String.intercalate "," ((next :: names).map fun f => "\"" ++ f ++ "\"") :=
        String.intercalate_cons_cons
      rw [hjoin, utf8_append, utf8_append, hcomma, List.append_assoc]
      exact hitems

theorem passwordReply_replies : RepliesJson passwordReply := by
  have hkey : StringText (utf8 ("\"" ++ "ok" ++ "\"")) "ok" := plain_stringText (plain_of_all (by decide))
  refine replies_json_iff.mpr ⟨[("ok", .bool true)], parse_complete ⟨[], _, [], ws_nil,
    .object (.member ws_nil hkey ws_nil ws_nil (.bool true) ws_nil), ws_nil, ?_⟩⟩
  decide

/-- The names of the settings that need a restart. -/
theorem restartRequiredFields_plain {old new : Config} :
    ∀ name ∈ restartRequiredFields old new, ∀ c ∈ name.toList, Unescaped c := by
  intro name hname
  have hnames : name = "server.bind" ∨ name = "server.port" ∨ name = "server.worker_threads" ∨
      name = "tls" := by
    simp only [restartRequiredFields, List.mem_append, List.mem_ite_nil_right,
      List.mem_singleton] at hname
    tauto
  rcases hnames with rfl | rfl | rfl | rfl
  · exact plain_of_all (by decide)
  · exact plain_of_all (by decide)
  · exact plain_of_all (by decide)
  · exact plain_of_all (by decide)

theorem putReply_replies {names : List String}
    (hplain : ∀ name ∈ names, ∀ c ∈ name.toList, Unescaped c) : RepliesJson (putReply names) := by
  have hok : StringText (utf8 ("\"" ++ "ok" ++ "\"")) "ok" := plain_stringText (plain_of_all (by decide))
  have hrestart : StringText (utf8 ("\"" ++ "restart_required" ++ "\"")) "restart_required" :=
    plain_stringText (plain_of_all (by decide))
  have hlist : Derives rfc (maxDepth - 1) (.value (.array (names.map .string)))
      (0x5b :: (utf8 (String.intercalate "," (names.map fun f => "\"" ++ f ++ "\"")) ++ [0x5d])) := by
    cases names with
    | nil => exact .emptyArray ws_nil
    | cons name names => exact .array (names_items (List.cons_ne_nil _ _) hplain)
  refine replies_json_iff.mpr ⟨[("ok", .bool true), ("restart_required", .array (names.map .string))],
    parse_complete ⟨[], _, [], ws_nil, .object (.members ws_nil hok ws_nil ws_nil (.bool true) ws_nil
      (.member ws_nil hrestart ws_nil ws_nil hlist ws_nil)), ws_nil, ?_⟩⟩
  have hopen : utf8 "\x7b\"ok\":true,\"restart_required\":[" =
      0x7b :: (utf8 ("\"" ++ "ok" ++ "\"") ++ 0x3a :: (utf8 "true" ++ 0x2c ::
        (utf8 ("\"" ++ "restart_required" ++ "\"") ++ [0x3a, 0x5b]))) := by decide
  have hclose : utf8 "]\x7d" = [0x5d, 0x7d] := by decide
  simp only [utf8_append, hopen, hclose, List.append_assoc, List.cons_append, List.nil_append,
    List.append_nil, if_true]

end Messages

/-! ## Configuration errors -/

section Errors

open JsonValue

variable {α β : Type} {t : Target} {root v obj : JsonValue} {path key reason : String}
  {x : Except ConfigError α} {f : α → Except ConfigError β}

/-- It fails with an error whose text has a raw character. -/
def RawError (x : Except ConfigError α) : Prop := ∃ e, x = .error e ∧ hasRaw e.display = true

theorem rawError_ok (a : α) : ¬ RawError (.ok a : Except ConfigError α) := by
  rintro ⟨e, he, -⟩
  cases he

theorem rawError_error (e : ConfigError) :
    RawError (.error e : Except ConfigError α) ↔ hasRaw e.display = true := by
  constructor
  · rintro ⟨e', he, h⟩
    cases he
    exact h
  · intro h
    exact ⟨e, rfl, h⟩

/-- The first error counts. -/
theorem rawError_bind : RawError (x >>= f) ↔ RawError x ∨ ∃ a, x = .ok a ∧ RawError (f a) := by
  cases x with
  | error e =>
    have hbind : (Except.error e >>= f) = .error e := rfl
    rw [hbind, rawError_error, rawError_error]
    constructor
    · exact .inl
    · rintro (h | ⟨a, ha, -⟩)
      · exact h
      · cases ha
  | ok a =>
    rw [Outcome.except_ok_bind]
    constructor
    · intro h
      exact .inr ⟨a, rfl, h⟩
    · rintro (h | ⟨a', ha, h⟩)
      · exact (rawError_ok a h).elim
      · cases ha
        exact h

theorem not_rawError_bind (hx : ¬ RawError x) (hf : ∀ a, ¬ RawError (f a)) : ¬ RawError (x >>= f) := by
  rw [rawError_bind]
  rintro (h | ⟨a, -, h⟩)
  · exact hx h
  · exact hf a h

theorem hasRaw_wrongType : hasRaw (ConfigError.wrongType path).display = hasRaw path := by
  have hmessage : hasRaw "wrong type for " = false := by decide
  have hdisplay : (ConfigError.wrongType path).display = "wrong type for " ++ path := rfl
  rw [hdisplay, hasRaw_append, hmessage, Bool.false_or]

theorem not_rawError_wrongType (h : hasRaw path = false) :
    ¬ RawError (.error (.wrongType path) : Except ConfigError α) := by
  rw [rawError_error, hasRaw_wrongType, h]
  exact Bool.false_ne_true

theorem not_rawError_invalidValue (h : hasRaw path = false) (h' : hasRaw reason = false) :
    ¬ RawError (.error (.invalidValue path reason) : Except ConfigError α) := by
  have hmessage : hasRaw "invalid " = false := by decide
  have hcolon : hasRaw ": " = false := by decide
  have hdisplay : (ConfigError.invalidValue path reason).display =
      "invalid " ++ path ++ ": " ++ reason := rfl
  rw [rawError_error, hdisplay, hasRaw_append, hasRaw_append, hasRaw_append, hmessage, hcolon, h, h']
  exact Bool.false_ne_true

theorem not_rawError_typed {as : JsonValue → Option α} (h : hasRaw path = false) :
    ¬ RawError (typed as v path) := by
  rw [typed]
  cases as v with
  | some a => exact rawError_ok a
  | none => exact not_rawError_wrongType h

theorem not_rawError_bounded {values : Nat} (h : hasRaw path = false) (h' : hasRaw reason = false) :
    ¬ RawError (bounded values reason v path) := by
  apply not_rawError_bind (not_rawError_typed h)
  intro n
  split
  · exact not_rawError_invalidValue h h'
  · exact rawError_ok n

theorem not_rawError_readSlot {read : JsonValue → String → Except ConfigError α} {slot : α}
    (h : ∀ v, ¬ RawError (read v (path ++ "." ++ key))) : ¬ RawError (readSlot read obj key slot path) := by
  rw [readSlot]
  cases obj.get key with
  | none => exact rawError_ok slot
  | some v => exact h v

theorem not_rawError_readItems (h : hasRaw path = false) (items : List JsonValue) :
    ∀ i, ¬ RawError (readItems path i items) := by
  induction items with
  | nil => exact fun _ => rawError_ok _
  | cons item items ih =>
    intro i
    have hindex : hasRaw (path ++ "[" ++ toString i ++ "]") = false := by
      have hopen : hasRaw "[" = false := by decide
      have hclose : hasRaw "]" = false := by decide
      rw [hasRaw_append, hasRaw_append, hasRaw_append, h, hopen, hclose, hasRaw_toString]
      rfl
    apply not_rawError_bind (not_rawError_typed hindex)
    intro s
    exact not_rawError_bind (ih (i + 1)) fun _ => rawError_ok _

theorem not_rawError_strings {slot : List String} (h : hasRaw (path ++ "." ++ key) = false) :
    ¬ RawError (readSlot readStringArray obj key slot path) :=
  not_rawError_readSlot fun _ => not_rawError_bind (not_rawError_typed h) fun items =>
    not_rawError_readItems h items 0

theorem not_rawError_section {read : JsonValue → α → Except ConfigError α} {slot : α}
    (h : ∀ v, ¬ RawError (read v slot)) : ¬ RawError (readSection read obj key slot) := by
  rw [readSection]
  cases obj.get key with
  | none => exact rawError_ok slot
  | some v => exact h v

/-- A field with a plain path, read by one of the readers of a single value. -/
theorem not_rawError_field {as : JsonValue → Option α} {slot : α}
    (h : hasRaw (path ++ "." ++ key) = false) : ¬ RawError (readSlot (typed as) obj key slot path) :=
  not_rawError_readSlot fun _ => not_rawError_typed h

theorem not_rawError_number {values slot : Nat} (h : hasRaw (path ++ "." ++ key) = false)
    (h' : hasRaw reason = false) : ¬ RawError (readSlot (bounded values reason) obj key slot path) :=
  not_rawError_readSlot fun _ => not_rawError_bounded h h'

theorem not_rawError_readServer {cfg : ServerConfig} : ¬ RawError (readServer t v cfg) :=
  not_rawError_bind (not_rawError_field (by decide)) fun _ =>
  not_rawError_bind (not_rawError_number (by decide) (by decide)) fun _ =>
  not_rawError_bind (not_rawError_number (by decide) (by decide)) fun _ =>
  not_rawError_bind (not_rawError_number (by decide) (by decide)) fun _ =>
  not_rawError_bind (not_rawError_field (by decide)) fun _ =>
  not_rawError_bind (not_rawError_field (by decide)) fun _ =>
  not_rawError_bind (not_rawError_number (by decide) (by decide)) fun _ => rawError_ok _

theorem not_rawError_readStatic {cfg : StaticConfig} : ¬ RawError (readStatic v cfg) :=
  not_rawError_bind (not_rawError_field (by decide)) fun _ =>
  not_rawError_bind (not_rawError_field (by decide)) fun _ =>
  not_rawError_bind (not_rawError_field (by decide)) fun _ =>
  not_rawError_bind (not_rawError_strings (by decide)) fun _ => rawError_ok _

theorem not_rawError_readCompression {cfg : CompressionConfig} : ¬ RawError (readCompression t v cfg) :=
  not_rawError_bind (not_rawError_field (by decide)) fun _ =>
  not_rawError_bind (not_rawError_number (by decide) (by decide)) fun _ => rawError_ok _

theorem not_rawError_readRateLimit {cfg : RateLimitConfig} : ¬ RawError (readRateLimit v cfg) :=
  not_rawError_bind (not_rawError_field (by decide)) fun _ =>
  not_rawError_bind (not_rawError_field (by decide)) fun _ =>
  not_rawError_bind (not_rawError_field (by decide)) fun _ =>
  not_rawError_bind (not_rawError_field (by decide)) fun _ => rawError_ok _

theorem not_rawError_readSecurity {cfg : SecurityConfig} : ¬ RawError (readSecurity v cfg) :=
  not_rawError_bind (not_rawError_field (by decide)) fun _ =>
  not_rawError_bind (not_rawError_section fun _ => not_rawError_readRateLimit) fun _ =>
  not_rawError_bind (not_rawError_strings (by decide)) fun _ => rawError_ok _

theorem not_rawError_readTls {cfg : TlsConfig} : ¬ RawError (readTls v cfg) :=
  not_rawError_bind (not_rawError_field (by decide)) fun _ =>
  not_rawError_bind (not_rawError_field (by decide)) fun _ =>
  not_rawError_bind (not_rawError_field (by decide)) fun _ => rawError_ok _

theorem not_rawError_readAdmin {cfg : AdminConfig} : ¬ RawError (readAdmin v cfg) :=
  not_rawError_bind (not_rawError_field (by decide)) fun _ =>
  not_rawError_bind (not_rawError_field (by decide)) fun _ => rawError_ok _

theorem not_rawError_readLogging {cfg : LoggingConfig} : ¬ RawError (readLogging v cfg) :=
  not_rawError_bind (not_rawError_field (by decide)) fun _ =>
  not_rawError_bind (not_rawError_field (by decide)) fun _ => rawError_ok _

theorem not_rawError_validate (c : Config) : ¬ RawError c.validate := by
  unfold Config.validate
  split
  · exact not_rawError_invalidValue (by decide) (by decide)
  split
  · exact not_rawError_invalidValue (by decide) (by decide)
  split
  · exact not_rawError_invalidValue (by decide) (by decide)
  split
  · exact not_rawError_invalidValue (by decide) (by decide)
  split
  · exact not_rawError_invalidValue (by decide) (by decide)
  split
  · exact not_rawError_invalidValue (by decide) (by decide)
  · exact rawError_ok _

/-- The key of the first member that is no string. -/
def firstNonString (members : List (String × JsonValue)) : Option String :=
  (members.find? fun member => member.2.asStr.isNone).map (·.1)

/-- The error of an object of strings names the first key whose value is none. -/
theorem rawError_readMembers_iff (h : hasRaw path = false) {members : List (String × JsonValue)} :
    RawError (readMembers path members) ↔ ∃ k, firstNonString members = some k ∧ hasRaw k = true := by
  induction members with
  | nil =>
    constructor
    · intro hraw
      exact (rawError_ok _ hraw).elim
    · rintro ⟨k, hk, -⟩
      cases hk
  | cons member members ih =>
    rcases member with ⟨key, v⟩
    rw [readMembers, rawError_bind]
    cases hv : v.asStr with
    | none =>
      have hdot : hasRaw "." = false := by decide
      have hpath : hasRaw (path ++ "." ++ key) = hasRaw key := by
        rw [hasRaw_append, hasRaw_append, h, hdot, Bool.false_or, Bool.false_or]
      have hfirst : firstNonString ((key, v) :: members) = some key := by
        simp [firstNonString, hv]
      have htyped : typed JsonValue.asStr v (path ++ "." ++ key) = .error (.wrongType (path ++ "." ++ key)) := by
        rw [typed, hv]
      rw [htyped, hfirst, rawError_error, hasRaw_wrongType, hpath]
      constructor
      · rintro (hraw | ⟨a, ha, -⟩)
        · exact ⟨key, rfl, hraw⟩
        · cases ha
      · rintro ⟨k, hk, hraw⟩
        cases hk
        exact .inl hraw
    | some s =>
      have hfirst : firstNonString ((key, v) :: members) = firstNonString members := by
        simp [firstNonString, hv]
      have htyped : typed JsonValue.asStr v (path ++ "." ++ key) = .ok s := by
        rw [typed, hv]
      rw [htyped, hfirst, ← ih]
      constructor
      · rintro (hraw | ⟨a, -, hraw⟩)
        · exact (rawError_ok _ hraw).elim
        · rcases rawError_bind.mp hraw with hraw | ⟨b, -, hraw⟩
          · exact hraw
          · exact (rawError_ok _ hraw).elim
      · intro hraw
        exact .inr ⟨s, rfl, rawError_bind.mpr (.inl hraw)⟩

/-- Every value looked up at a documented path other than `mime_overrides` is taken. -/
def SectionsReadable (t : Target) (root : JsonValue) : Prop :=
  ∀ d ∈ documented, d.1 ≠ ["mime_overrides"] → ∀ v, lookup d.1 root = some v → d.2.Readable t v

theorem sectionsReadable_iff : SectionsReadable t root ↔
    ∀ d ∈ records, ∀ v, lookup d.1 root = some v → d.2.Readable t v := by
  have hpaths : ∀ d ∈ records, d ∈ documented ∧ d.1 ≠ ["mime_overrides"] := by decide
  have hrest : ∀ d ∈ documented, d.1 ≠ ["mime_overrides"] → d ∈ records := by decide
  constructor
  · intro h d hd
    exact h d (hpaths d hd).1 (hpaths d hd).2
  · intro h d hd hpath
    exact h d (hrest d hd hpath)

theorem rawError_overrides_iff (slot : List (String × String)) :
    RawError (readSection (fun value _ => readStringMap value "mime_overrides") root
        "mime_overrides" slot) ↔
      ∃ members k, root.get "mime_overrides" = some (.object members) ∧
        firstNonString members = some k ∧ hasRaw k = true := by
  have hplain : hasRaw "mime_overrides" = false := by decide
  have hother : ∀ v, (∀ members, v ≠ .object members) →
      ¬ RawError (readStringMap v "mime_overrides") := by
    intro v hv
    cases v with
    | object members => exact (hv members rfl).elim
    | _ => exact not_rawError_wrongType hplain
  rw [readSection]
  cases hget : root.get "mime_overrides" with
  | none =>
    constructor
    · intro h
      exact (rawError_ok _ h).elim
    · rintro ⟨members, k, hmembers, -⟩
      cases hmembers
  | some v =>
    constructor
    · intro h
      by_cases hobject : ∃ members, v = .object members
      · rcases hobject with ⟨members, rfl⟩
        rcases (rawError_readMembers_iff hplain).mp h with ⟨k, hk, hraw⟩
        exact ⟨members, k, rfl, hk, hraw⟩
      · exact (hother v (fun members hv => hobject ⟨members, hv⟩) h).elim
    · rintro ⟨members, k, hmembers, hk, hraw⟩
      cases hmembers
      exact (rawError_readMembers_iff hplain).mpr ⟨k, hk, hraw⟩

/-- A value whose reading ends at a key with a raw character: the sections are read, and the
first member of `mime_overrides` that is no string has such a key. -/
def NamesRawKey (t : Target) (root : JsonValue) : Prop :=
  SectionsReadable t root ∧ ∃ members k, root.get "mime_overrides" = some (.object members) ∧
    firstNonString members = some k ∧ hasRaw k = true

/-- The sections come first, and none of their errors has a raw character. -/
theorem rawError_readJson_iff : RawError (Config.readJson t root) ↔ NamesRawKey t root := by
  have hfalse : ∀ (a : Config), RawError (.ok a : Except ConfigError Config) ↔ False :=
    fun a => iff_of_false (rawError_ok a) id
  rw [NamesRawKey, sectionsReadable_iff, records_readable_iff, ← rawError_overrides_iff []]
  simp only [Config.readJson_eq, rawError_bind, not_rawError_readServer, not_rawError_readStatic, not_rawError_readCompression,
    not_rawError_readSecurity, not_rawError_readTls, not_rawError_readAdmin,
    not_rawError_readLogging, false_or, hfalse, and_false, exists_false, or_false,
    readServer_eq_ok_iff, readStatic_eq_ok_iff (t := t), readCompression_eq_ok_iff,
    readSecurity_eq_ok_iff (t := t), readTls_eq_ok_iff (t := t), readAdmin_eq_ok_iff (t := t),
    readLogging_eq_ok_iff (t := t), and_assoc, exists_and_left, exists_eq_left]

theorem rawError_fromJson_iff : RawError (Config.fromJson t root) ↔ NamesRawKey t root := by
  rw [Config.fromJson]
  cases hobject : Config.isObject root with
  | false =>
    have hmessage : hasRaw ConfigError.notAnObject.display = false := by decide
    simp only [Bool.not_false, if_true, rawError_error, hmessage]
    constructor
    · intro h
      cases h
    · rintro ⟨-, members, k, hget, -⟩
      rcases get_eq_some hget with ⟨_, rfl, -⟩
      cases hobject
  | true =>
    simp only [Bool.not_true, Bool.false_eq_true, if_false]
    rw [rawError_bind, rawError_readJson_iff]
    constructor
    · rintro (h | ⟨c, -, h⟩)
      · exact h
      · rcases rawError_bind.mp h with h | ⟨_, -, h⟩
        · exact (not_rawError_validate c h).elim
        · exact (rawError_ok c h).elim
    · exact .inl

/-- Which texts are refused with an error that has a raw character. -/
theorem rawError_fromJsonStr_iff {text : String} : RawError (Config.fromJsonStr t text) ↔
    ∃ root, Json.parse text = .ok root ∧ NamesRawKey t root := by
  rw [Config.fromJsonStr]
  cases hparse : Json.parse text with
  | error e =>
    -- a message of the parser, and an offset
    have hinvalid : hasRaw "invalid JSON: " = false := by decide
    have hat : hasRaw " at byte " = false := by decide
    have hkind : hasRaw e.kind.message = false := by
      cases e.kind with
      | _ => decide
    have hdisplay : (ConfigError.json e).display =
        "invalid JSON: " ++ (e.kind.message ++ " at byte " ++ toString e.offset) := rfl
    rw [rawError_error, hdisplay, hasRaw_append, hasRaw_append, hasRaw_append, hinvalid, hat, hkind,
      hasRaw_toString]
    constructor
    · intro h
      cases h
    · rintro ⟨root, hroot, -⟩
      cases hroot
  | ok root =>
    simp only [rawError_fromJson_iff]
    constructor
    · intro h
      exact ⟨root, rfl, h⟩
    · rintro ⟨root', hroot, h⟩
      cases hroot
      exact h

end Errors

/-! ## Requests -/

section Requests

variable {t : Target} {outcome : WriteOutcome} {s : Shared} {request : AdminRequest} {body : Bytes}

/-- What the system says of a write that failed. -/
def WriteOutcome.message : WriteOutcome → Option String
  | .ok => none
  | .notOpened e => some e
  | .failed _ e => some e

/-- A request whose reply has a raw control character in it. -/
inductive Poisoned (t : Target) (outcome : WriteOutcome) (s : Shared) : AdminRequest → Prop
  | key {body : Bytes} {text : String} {root : JsonValue} (htext : fromUtf8 body = some text)
      (hparse : Json.parse text = .ok root) (hkey : NamesRawKey t root) :
      Poisoned t outcome s (.put body)
  | putWrite {body : Bytes} {config : Config} {e : String} (hparse : parsePut t body = .ok config)
      (he : outcome.message = some e) (hraw : hasRaw e = true) : Poisoned t outcome s (.put body)
  | passwordWrite {body : Bytes} {current newPassword e : String} {config : Config}
      (hparse : parsePassword body = .ok (current, newPassword))
      (hverify : verifyPassword s.state.config current newPassword = .ok config)
      (he : outcome.message = some e) (hraw : hasRaw e = true) : Poisoned t outcome s (.password body)

theorem writeError_replies_iff {e : String} : RepliesJson (writeError e) ↔ hasRaw e = false := by
  have hmessage : hasRaw "could not write config: " = false := by decide
  rw [writeError, jsonError_replies_iff, hasRaw_append, hmessage, Bool.false_or]

/-- The end of both handlers: the reply once the file is written, or the error. -/
theorem fsWrite_replies {contents : Bytes} {file : Option Bytes} {reply : Response}
    (hreply : RepliesJson reply) :
    RepliesJson (match (fsWrite outcome contents file).1 with
      | .error e => writeError e
      | .ok () => reply) ↔ ¬ ∃ e, outcome.message = some e ∧ hasRaw e = true := by
  cases outcome with
  | ok =>
    refine iff_of_true hreply ?_
    rintro ⟨e, he, -⟩
    cases he
  | notOpened e =>
    show RepliesJson (writeError e) ↔ _
    rw [writeError_replies_iff, ← Bool.not_eq_true]
    simp [WriteOutcome.message]
  | failed written e =>
    show RepliesJson (writeError e) ↔ _
    rw [writeError_replies_iff, ← Bool.not_eq_true]
    simp [WriteOutcome.message]

theorem parsePut_replies {response : Response} (h : parsePut t body = .error response) :
    RepliesJson response ↔ ¬ Poisoned t outcome s (.put body) := by
  rw [parsePut] at h
  cases htext : fromUtf8 body with
  | none =>
    have hmessage : hasRaw "body is not valid UTF-8" = false := by decide
    rw [htext] at h
    cases h
    refine iff_of_true (jsonError_replies_iff.mpr hmessage) ?_
    intro hpoisoned
    cases hpoisoned with
    | key htext' => rw [htext] at htext'; cases htext'
    | putWrite hparse => rw [parsePut, htext] at hparse; cases hparse
  | some text =>
    rw [htext] at h
    simp only at h
    cases hconfig : Config.fromJsonStr t text with
    | ok config => rw [hconfig] at h; cases h
    | error e =>
      rw [hconfig] at h
      cases h
      have hraw : RawError (Config.fromJsonStr t text) ↔ hasRaw e.display = true := by
        rw [hconfig, rawError_error]
      rw [jsonError_replies_iff, ← Bool.not_eq_true, ← hraw, rawError_fromJsonStr_iff]
      refine not_congr ⟨?_, ?_⟩
      · rintro ⟨root, hparse, hkey⟩
        exact .key htext hparse hkey
      · intro hpoisoned
        cases hpoisoned with
        | key htext' hparse hkey =>
          rw [htext] at htext'
          cases htext'
          exact ⟨_, hparse, hkey⟩
        | putWrite hparse =>
          rw [parsePut, htext] at hparse
          simp only [hconfig] at hparse
          cases hparse

theorem putConfig_replies :
    RepliesJson (putConfig t outcome s body).1 ↔ ¬ Poisoned t outcome s (.put body) := by
  cases hparse : parsePut t body with
  | error response =>
    have hresult : (putConfig t outcome s body).1 = response := by rw [putConfig, hparse]
    rw [hresult]
    exact parsePut_replies hparse
  | ok config =>
    have hresult : (putConfig t outcome s body).1 =
        match (fsWrite outcome config.saved s.file).1 with
        | .error e => writeError e
        | .ok () => putReply (restartRequiredFields s.state.config config) := by
      rw [putConfig, hparse]
      cases outcome <;> rfl
    rw [hresult, fsWrite_replies (putReply_replies restartRequiredFields_plain)]
    refine not_congr ⟨?_, ?_⟩
    · rintro ⟨e, he, hraw⟩
      exact .putWrite hparse he hraw
    · intro hpoisoned
      cases hpoisoned with
      | putWrite _ he hraw => exact ⟨_, he, hraw⟩
      | @key _ text root htext hroot hkey =>
        -- such a body is not a configuration
        rcases rawError_fromJsonStr_iff.mpr ⟨root, hroot, hkey⟩ with ⟨e, he, -⟩
        rw [parsePut, htext] at hparse
        simp only [he] at hparse
        cases hparse

/-- Every message of a refused password is fixed. -/
theorem parsePassword_replies {response : Response} (h : parsePassword body = .error response) :
    RepliesJson response := by
  rw [parsePassword] at h
  split at h
  · cases h
    exact jsonError_replies_iff.mpr (by decide)
  · split at h
    · cases h
      exact jsonError_replies_iff.mpr (by decide)
    · simp only at h
      split at h
      · cases h
        exact jsonError_replies_iff.mpr (by decide)
      · cases h

theorem changePassword_replies :
    RepliesJson (changePassword outcome s body).1 ↔ ¬ Poisoned t outcome s (.password body) := by
  cases hparse : parsePassword body with
  | error response =>
    have hresult : (changePassword outcome s body).1 = response := by rw [changePassword, hparse]
    rw [hresult]
    refine iff_of_true (parsePassword_replies hparse) ?_
    intro hpoisoned
    cases hpoisoned with
    | passwordWrite hparse' => rw [hparse] at hparse'; cases hparse'
  | ok passwords =>
    rcases passwords with ⟨current, newPassword⟩
    cases hverify : verifyPassword s.state.config current newPassword with
    | error response =>
      have hresult : (changePassword outcome s body).1 = response := by
        rw [changePassword, hparse]
        simp only [hverify]
      have hresponse : response = jsonError ⟨401⟩ "current password is incorrect" := by
        rw [verifyPassword] at hverify
        split at hverify
        · exact (Except.error.inj hverify).symm
        · cases hverify
      rw [hresult, hresponse]
      refine iff_of_true (jsonError_replies_iff.mpr (by decide)) ?_
      intro hpoisoned
      cases hpoisoned with
      | passwordWrite hparse' hverify' =>
        rw [hparse] at hparse'
        cases hparse'
        rw [hverify] at hverify'
        cases hverify'
    | ok config =>
      have hresult : (changePassword outcome s body).1 =
          match (fsWrite outcome config.saved s.file).1 with
          | .error e => writeError e
          | .ok () => passwordReply := by
        rw [changePassword, hparse]
        simp only [hverify]
        cases outcome <;> rfl
      rw [hresult, fsWrite_replies passwordReply_replies]
      refine not_congr ⟨?_, ?_⟩
      · rintro ⟨e, he, hraw⟩
        exact .passwordWrite hparse hverify he hraw
      · intro hpoisoned
        cases hpoisoned with
        | passwordWrite _ _ he hraw => exact ⟨_, he, hraw⟩

/-- A reply is JSON unless the request makes it quote a raw control character. -/
theorem serve_replies_iff (t : Target) (outcome : WriteOutcome) (s : Shared)
    (request : AdminRequest) :
    RepliesJson (request.serve t outcome s).1 ↔ ¬ Poisoned t outcome s request := by
  cases request with
  | put body => exact putConfig_replies
  | password body => exact changePassword_replies

/-- A configuration with the key U+0001 among the overrides, and no string there. -/
def controlKeyText : String := "\x7b\"mime_overrides\":\x7b\"\\u0001\":null\x7d\x7d"

def controlKeyPut : Bytes := utf8 controlKeyText

theorem parse_controlKeyText : Json.parse controlKeyText =
    .ok (.object [("mime_overrides", .object [("\x01", .null)])]) := by
  open Json in
  have hcode : Hex4 [0x30, 0x30, 0x30, 0x31] '\x01'.toNat := @Hex4.mk _ _ _ _ 0 0 0 1 rfl rfl rfl rfl
  have hkey : StringText (0x22 :: ([0x5c, 0x75, 0x30, 0x30, 0x30, 0x31] ++ [] ++ [0x22])) "\x01" :=
    .mk (.cons (.unicode hcode) .nil)
  have hname : StringText (utf8 ("\"" ++ "mime_overrides" ++ "\"")) "mime_overrides" :=
    plain_stringText (plain_of_all (by decide))
  refine parse_complete ⟨[], _, [], ws_nil, .object (.member ws_nil hname ws_nil ws_nil
    (.object (.member ws_nil hkey ws_nil ws_nil .null ws_nil)) ws_nil), ws_nil, ?_⟩
  decide

/-- The error names the key as it is. -/
theorem controlKeyPut_not_json :
    ¬ RepliesJson (putConfig ⟨.w64, false⟩ .ok ⟨.new .default, none⟩ controlKeyPut).1 := by
  have hutf8 : fromUtf8 controlKeyPut = some controlKeyText := fromUtf8_utf8 _
  have hconfig : Config.fromJsonStr ⟨.w64, false⟩ controlKeyText =
      .error (.wrongType ("mime_overrides" ++ "." ++ "\x01")) := by
    rw [Config.fromJsonStr, parse_controlKeyText]
    rfl
  have hparse : parsePut ⟨.w64, false⟩ controlKeyPut =
      .error (jsonError ⟨400⟩ (ConfigError.wrongType ("mime_overrides" ++ "." ++ "\x01")).display) := by
    rw [parsePut, hutf8]
    simp only [hconfig]
  rw [putConfig, hparse]
  simp only
  rw [jsonError_replies_iff, hasRaw_wrongType]
  decide

end Requests

end FerroHttp
