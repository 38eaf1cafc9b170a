import FerroHttp.Config.Schema
import FerroHttp.Json.Complete
import FerroHttp.Lib.Rounding

/-!
# Config.Integers — what an integer literal loads as

A literal in an integer field is parsed to a float and converted back, so it loads as the
number of 53 significant bits next to it, or not at all (`asU64_literal`). The field equals
the literal only where this rounding changes nothing (`integer_exact_iff`).

A configuration that holds the literal is a text with a gap for one number (`Form`); what
the other values are does not depend on the number in the gap.
-/

namespace FerroHttp

open Exec Text Json

/-! ## Literals -/

/-- A decimal integer: a sign, perhaps, and digits. -/
structure Literal where
  negative : Bool
  digits : Bytes
  digit : Digits digits

namespace Literal

def text (l : Literal) : Bytes := signText l.negative ++ l.digits

/-- The number without its sign. -/
def magnitude (l : Literal) : Nat := decimal l.digits

def value (l : Literal) : Int := if l.negative then -(l.magnitude : Int) else l.magnitude

/-- The float it is parsed to. -/
def float (l : Literal) : Float := parseF64 l.negative l.digits [] 0

theorem number (l : Literal) : NumberText Digits l.text l.float := by
  have hmk := @NumberText.mk Digits l.negative l.digits [] [] [] 0 l.digit .absent .absent
  rwa [List.append_nil, List.append_nil] at hmk

theorem float_eq (l : Literal) :
    l.float = if l.negative then -Binary64.ofNat l.magnitude else Binary64.ofNat l.magnitude := by
  rw [float, parseF64, List.append_nil]
  rfl

/-- The largest `u64` and the rounded literal, whichever is smaller. -/
def rounded (l : Literal) : Nat := min (Binary64.roundEven l.magnitude) (u64Values - 1)

/-- The float of a number converts back to the rounded number, unless that is larger than
`2 ^ 64`. -/
theorem asU64_ofNat (n : Nat) : (JsonValue.number (Binary64.ofNat n)).asU64 =
    if Binary64.roundEven n ≤ 2 ^ 64 then some (min (Binary64.roundEven n) (u64Values - 1))
    else none := by
  have hmax : u64Values - 1 = 0xFFFFFFFFFFFFFFFF := rfl
  simp only [JsonValue.asU64, Binary64.zero_le_ofNat, true_and, hmax, Binary64.ofNat_le_max_iff]
  split
  · rename_i hle
    rw [if_pos (Binary64.toFloat_toUInt64_ofNat hle), Binary64.toUInt64_ofNat hle]
    rfl
  · rfl

/-- What a literal is read as. -/
theorem asU64_literal (l : Literal) : (JsonValue.number l.float).asU64 =
    if 0 ≤ l.value ∧ Binary64.roundEven l.magnitude ≤ 2 ^ 64 then some l.rounded else none := by
  rw [float_eq]
  cases hsign : l.negative with
  | false =>
    have hvalue : 0 ≤ l.value := by
      rw [value, hsign]
      exact Int.natCast_nonneg _
    simp only [Bool.false_eq_true, if_false, asU64_ofNat, hvalue, true_and, rounded]
  | true =>
    simp only [if_true]
    rcases Nat.eq_zero_or_pos l.magnitude with hzero | hpos
    · -- the negative zero is the zero
      have hvalue : 0 ≤ l.value := by
        rw [value, hsign, hzero]
        decide
      have hround : Binary64.roundEven 0 = 0 := rfl
      rw [if_pos ⟨hvalue, by rw [hzero, hround]; decide⟩, rounded, hzero, hround]
      decide +kernel
    · have hvalue : ¬ 0 ≤ l.value := by
        rw [value, hsign, if_pos rfl]
        omega
      have hneg := Binary64.not_zero_le_neg hpos
      simp only [JsonValue.asU64, hneg, hvalue, false_and, if_false]

end Literal

/-! ## A gap in a configuration -/

/-- An object around one of its members, the first one of its name. -/
structure Frame where
  before : List (String × JsonValue)
  key : String
  after : List (String × JsonValue)
  first : ∀ member ∈ before, member.1 ≠ key

namespace Frame

def fill (frame : Frame) (v : JsonValue) : JsonValue :=
  .object (frame.before ++ (frame.key, v) :: frame.after)

theorem get_fill (frame : Frame) (v : JsonValue) : (frame.fill v).get frame.key = some v := by
  have hbefore : frame.before.find? (fun member => member.1 == frame.key) = none := by
    rw [List.find?_eq_none]
    intro member hmem
    simpa using frame.first member hmem
  simp [fill, JsonValue.get, List.find?_append, hbefore]

/-- Another key finds what it finds whatever fills the gap. -/
theorem get_fill_of_ne {frame : Frame} {key : String} (h : frame.key ≠ key) (v v' : JsonValue) :
    (frame.fill v).get key = (frame.fill v').get key := by
  have hne : (frame.key == key) = false := by simpa using h
  simp [fill, JsonValue.get, List.find?_append, hne]

/-- The value behind all frames. -/
def fillAll (frames : List Frame) (v : JsonValue) : JsonValue := frames.foldr fill v

def path (frames : List Frame) : List String := frames.map key

variable {frames : List Frame}

theorem lookup_fillAll (frames : List Frame) (v : JsonValue) :
    JsonValue.lookup (path frames) (fillAll frames v) = some v := by
  induction frames with
  | nil => rfl
  | cons frame frames ih =>
    show ((frame.fill (fillAll frames v)).get frame.key).bind _ = _
    rw [get_fill]
    exact ih

/-- A number in the gap is not seen from a path that does not lead to it. -/
theorem lookup_fillAll_congr {other : List String} (h : ¬ other <+: path frames) (x y : Float) :
    JsonValue.lookup other (fillAll frames (.number x)) =
      JsonValue.lookup other (fillAll frames (.number y)) := by
  induction frames generalizing other with
  | nil =>
    cases other with
    | nil => exact (h (List.prefix_refl _)).elim
    | cons key other => rfl
  | cons frame frames ih =>
    cases other with
    | nil => exact (h (List.nil_prefix)).elim
    | cons key other =>
      show ((frame.fill _).get key).bind _ = ((frame.fill _).get key).bind _
      by_cases hkey : frame.key = key
      · subst hkey
        rw [get_fill, get_fill]
        refine ih ?_
        intro hleads
        exact h (List.prefix_cons_inj frame.key |>.mpr hleads)
      · rw [get_fill_of_ne hkey]

end Frame

/-- The text of a configuration with a gap for one number. -/
structure Form where
  before : Bytes
  after : Bytes
  frames : List Frame
  document : ∀ text x, NumberText Digits text x →
    Document loose maxDepth (before ++ (text ++ after)) (Frame.fillAll frames (.number x))

/-- The text with a literal in the gap. -/
def Form.text (form : Form) (l : Literal) : Bytes := form.before ++ (l.text ++ form.after)

/-- It loads with some literal. -/
def Form.Valid (form : Form) (t : Target) : Prop :=
  ∃ l input c, utf8 input = form.text l ∧ Config.fromJsonStr t input = .ok c

/-! ## The integer fields -/

/-- A field of a word type. -/
structure IntegerField where
  path : List String
  type : FieldType
  get : Config → Nat

def integerFields : List IntegerField :=
  [⟨["server", "worker_threads"], .usize, fun c => c.server.workerThreads⟩,
    ⟨["server", "max_connections"], .usize, fun c => c.server.maxConnections⟩,
    ⟨["server", "keep_alive_secs"], .u64, fun c => c.server.keepAliveSecs⟩,
    ⟨["server", "read_timeout_secs"], .u64, fun c => c.server.readTimeoutSecs⟩,
    ⟨["server", "request_max_bytes"], .usize, fun c => c.server.requestMaxBytes⟩,
    ⟨["compression", "min_bytes"], .usize, fun c => c.compression.minBytes⟩,
    ⟨["security", "rate_limit", "requests"], .u64, fun c => c.security.rateLimit.requests⟩,
    ⟨["security", "rate_limit", "window_secs"], .u64, fun c => c.security.rateLimit.windowSecs⟩,
    ⟨["security", "rate_limit", "ban_secs"], .u64, fun c => c.security.rateLimit.banSecs⟩]

/-- The number of values of the field's type. -/
def IntegerField.values (field : IntegerField) (t : Target) : Nat :=
  if field.type = .usize then t.modulus else u64Values

section Fields

open JsonValue

variable {t : Target} {root root' : JsonValue} {field : IntegerField}

/-- The list is complete: these are the documented fields of the word types. -/
theorem mem_integerFields_iff {path : List String} {type : FieldType}
    (htype : type = .u64 ∨ type = .usize) : (path, type) ∈ documented ↔
      (path, type) ∈ integerFields.map fun field => (field.path, field.type) := by
  have hfilter : documented.filter (fun d => d.2 = .u64 ∨ d.2 = .usize) =
      integerFields.map fun field => (field.path, field.type) := by decide
  rw [← hfilter, List.mem_filter]
  simp [htype]

/-- A setting of a section is what stands at its path. -/
theorem setting_eq {α : Type} (as : JsonValue → Option α) (path : List String) (key : String)
    (root : JsonValue) (slot : α) : setting as (partAt path root) key slot =
      ((lookup (path ++ [key]) root).bind as).getD slot := by
  rw [lookup_append]
  rfl

theorem part_eq (key : String) (root : JsonValue) : root.part key = partAt [key] root := by
  rw [partAt, lookup_singleton, part]

theorem part_part_eq (key key' : String) (root : JsonValue) :
    (root.part key).part key' = partAt [key, key'] root := by
  have happend : lookup ([key] ++ [key']) root = _ := lookup_append key' [key] root
  rw [List.singleton_append] at happend
  show ((root.part key).get key').getD .null = _
  rw [partAt, happend, part_eq]

/-- A field is set to the number at its path. -/
theorem IntegerField.get_settings (hfield : field ∈ integerFields) {v : JsonValue} {n : Nat}
    (hlookup : lookup field.path root = some v) (hn : v.asU64 = some n) :
    field.get (Config.settings root) = n := by
  have hsetting : ∀ path key slot, lookup (path ++ [key]) root = some v →
      setting JsonValue.asU64 (partAt path root) key slot = n := by
    intro path key slot hpath
    rw [setting_eq, hpath, Option.bind_some, hn]
    rfl
  simp only [integerFields, List.mem_cons, List.not_mem_nil, or_false] at hfield
  rcases hfield with rfl | rfl | rfl | rfl | rfl | rfl | rfl | rfl | rfl
  all_goals
    simp only [Config.settings, serverSettings, compressionSettings, securitySettings,
      rateLimitSettings, part_part_eq]
    try simp only [part_eq]
    exact hsetting _ _ _ hlookup

/-- The paths that validation looks at. -/
def validatedPaths : List (List String) :=
  [["server", "port"], ["server", "bind"], ["static", "root"], ["tls", "enabled"],
    ["tls", "cert_path"], ["tls", "key_path"], ["logging", "level"]]

theorem validate_congr (h : ∀ path ∈ validatedPaths, lookup path root = lookup path root') :
    (Config.settings root).validate = (Config.settings root').validate := by
  have hsetting : ∀ {α : Type} (as : JsonValue → Option α) (key key' : String) (slot : α),
      [key, key'] ∈ validatedPaths →
        setting as (root.part key) key' slot = setting as (root'.part key) key' slot := by
    intro α as key key' slot hmem
    have hpath := h _ hmem
    rw [part_eq, part_eq, setting_eq, setting_eq]
    exact congrArg (fun found => (found.bind as).getD slot) hpath
  have hport : (Config.settings root).server.port = (Config.settings root').server.port :=
    hsetting _ "server" "port" _ (by decide)
  have hbind : (Config.settings root).server.bind = (Config.settings root').server.bind :=
    hsetting _ "server" "bind" _ (by decide)
  have hroot : (Config.settings root).staticFiles.root = (Config.settings root').staticFiles.root :=
    hsetting _ "static" "root" _ (by decide)
  have henabled : (Config.settings root).tls.enabled = (Config.settings root').tls.enabled :=
    hsetting _ "tls" "enabled" _ (by decide)
  have hcert : (Config.settings root).tls.certPath = (Config.settings root').tls.certPath :=
    hsetting _ "tls" "cert_path" _ (by decide)
  have hkey : (Config.settings root).tls.keyPath = (Config.settings root').tls.keyPath :=
    hsetting _ "tls" "key_path" _ (by decide)
  have hlevel : (Config.settings root).logging.level = (Config.settings root').logging.level :=
    hsetting _ "logging" "level" _ (by decide)
  unfold Config.validate
  rw [hport, hbind, hroot, henabled, hcert, hkey, hlevel]

/-- No path that validation looks at leads to an integer field. -/
theorem validated_leads_not (hfield : field ∈ integerFields) {path : List String}
    (hpath : path ∈ validatedPaths) : ¬ path <+: field.path := by
  have hall : ∀ field ∈ integerFields, ∀ path ∈ validatedPaths, ¬ path <+: field.path := by decide
  exact hall field hfield path hpath

/-- Of the documented paths only the field's own and its sections lead to it. -/
theorem documented_leads (hfield : field ∈ integerFields) {d : List String × FieldType}
    (hd : d ∈ documented) (hleads : d.1 <+: field.path) :
    d.2 = .record ∨ d = (field.path, field.type) := by
  have hall : ∀ field ∈ integerFields, ∀ d ∈ documented, d.1 <+: field.path →
      d.2 = .record ∨ d = (field.path, field.type) := by decide
  exact hall field hfield d hd hleads

theorem mem_documented (hfield : field ∈ integerFields) : (field.path, field.type) ∈ documented := by
  have hall : ∀ field ∈ integerFields, (field.path, field.type) ∈ documented := by decide
  exact hall field hfield

theorem asU64_lt {v : JsonValue} {n : Nat} (h : v.asU64 = some n) : n < u64Values := by
  cases v with
  | number x =>
    simp only [asU64] at h
    split at h
    · split at h
      · cases h
        exact x.toUInt64.toNat_lt
      · cases h
    · cases h
  | _ => cases h

/-- The field takes a number of its type. -/
theorem IntegerField.readable_iff (hfield : field ∈ integerFields) {v : JsonValue} :
    field.type.Readable t v ↔ ∃ n < field.values t, v.asU64 = some n := by
  have htypes : ∀ field ∈ integerFields, field.type = .u64 ∨ field.type = .usize := by decide
  rcases htypes field hfield with htype | htype
  · have hvalues : field.values t = u64Values := by
      rw [values, htype]
      rfl
    rw [hvalues, htype]
    constructor
    · rintro ⟨n, hn⟩
      exact ⟨n, asU64_lt hn, hn⟩
    · rintro ⟨n, _, hn⟩
      exact ⟨n, hn⟩
  · have hvalues : field.values t = t.modulus := by
      rw [values, htype]
      rfl
    rw [hvalues, htype]
    exact Iff.rfl

/-- Whatever number stands in the gap: it loads if the field takes it, the rest being
valid. -/
theorem Form.fromJson_eq_ok_iff {form : Form} {x y : Float} {c₀ c : Config}
    (hfield : field ∈ integerFields) (hpath : Frame.path form.frames = field.path)
    (hvalid : Config.fromJson t (Frame.fillAll form.frames (.number y)) = .ok c₀) :
    Config.fromJson t (Frame.fillAll form.frames (.number x)) = .ok c ↔
      field.type.Readable t (.number x) ∧
        c = Config.settings (Frame.fillAll form.frames (.number x)) := by
  rw [Config.fromJson_eq_ok_iff] at hvalid ⊢
  rcases hvalid with ⟨hobject, hreadable, hc₀, hok⟩
  have hlookup := Frame.lookup_fillAll form.frames (.number x)
  rw [hpath] at hlookup
  have hsame : ∀ path, ¬ path <+: field.path →
      lookup path (Frame.fillAll form.frames (.number y)) =
        lookup path (Frame.fillAll form.frames (.number x)) := by
    intro path hleads
    rw [← hpath] at hleads
    exact Frame.lookup_fillAll_congr hleads y x
  have hsettings := validate_congr fun path hmem => hsame path (validated_leads_not hfield hmem)
  constructor
  · rintro ⟨-, hread, hc, -⟩
    exact ⟨hread _ (mem_documented hfield) _ hlookup, hc⟩
  · rintro ⟨hread, rfl⟩
    refine ⟨?_, ?_, rfl, ?_⟩
    · -- both are objects, or the gap is the whole value
      cases hframes : form.frames with
      | nil =>
        rw [hframes] at hobject
        cases hobject
      | cons frame frames => rfl
    · intro d hd v hv
      by_cases hleads : d.1 <+: field.path
      · rcases documented_leads hfield hd hleads with hrecord | rfl
        · rw [hrecord]
          trivial
        · rw [hlookup] at hv
          cases hv
          exact hread
      · rw [← hsame d.1 hleads] at hv
        exact hreadable d hd v hv
    · rw [← hsettings, ← hc₀]
      exact hok

/-! ## The literal in the field -/

/-- The text loads, if it does, with the literal as the field's value, and it is rejected
if the literal is larger than the type's maximum. -/
structure LoadedExactly (t : Target) (field : IntegerField) (input : String) (l : Literal) :
    Prop where
  exact : ∀ c, Config.fromJsonStr t input = .ok c → (field.get c : Int) = l.value
  rejected : (field.values t : Int) ≤ l.value → ∃ e, Config.fromJsonStr t input = .error e

/-- The literal is negative, or rounding leaves it as it is, or the rounded number is too
large for a `u64` or for the field. -/
def Literal.Safe (l : Literal) (t : Target) (field : IntegerField) : Prop :=
  l.value < 0 ∨ l.rounded = l.magnitude ∨ 2 ^ 64 < Binary64.roundEven l.magnitude ∨
    field.values t ≤ l.rounded

/-- How the text with the literal loads. -/
theorem Form.fromJsonStr_eq_ok_iff {form : Form} {l : Literal} {input : String} {c : Config}
    (hfield : field ∈ integerFields) (hpath : Frame.path form.frames = field.path)
    (hvalid : form.Valid t) (hinput : utf8 input = form.text l) :
    Config.fromJsonStr t input = .ok c ↔
      (0 ≤ l.value ∧ Binary64.roundEven l.magnitude ≤ 2 ^ 64 ∧ l.rounded < field.values t) ∧
        c = Config.settings (Frame.fillAll form.frames (.number l.float)) := by
  have hload : ∀ (l : Literal) (input : String), utf8 input = form.text l →
      Config.fromJsonStr t input =
        Config.fromJson t (Frame.fillAll form.frames (.number l.float)) := by
    intro l input hinput
    have hdocument := form.document l.text l.float l.number
    rw [← Form.text, ← hinput] at hdocument
    rw [Config.fromJsonStr, hdocument.parse_ok]
  rcases hvalid with ⟨l₀, input₀, c₀, hinput₀, hok⟩
  rw [hload l₀ input₀ hinput₀] at hok
  rw [hload l input hinput, Form.fromJson_eq_ok_iff hfield hpath hok,
    IntegerField.readable_iff hfield, l.asU64_literal]
  refine and_congr_left fun _ => ?_
  constructor
  · rintro ⟨n, hn, hread⟩
    split at hread
    · rename_i hrange
      cases hread
      exact ⟨hrange.1, hrange.2, hn⟩
    · cases hread
  · rintro ⟨hsign, hround, hlt⟩
    exact ⟨l.rounded, hlt, if_pos ⟨hsign, hround⟩⟩

/-- Exactly when an integer field is loaded exactly or rejected. -/
theorem integer_exact_iff {form : Form} {l : Literal} {input : String}
    (hfield : field ∈ integerFields) (hpath : Frame.path form.frames = field.path)
    (hvalid : form.Valid t) (hinput : utf8 input = form.text l) :
    LoadedExactly t field input l ↔ l.Safe t field := by
  have hiff := fun c => Form.fromJsonStr_eq_ok_iff (c := c) hfield hpath hvalid hinput
  have hget : 0 ≤ l.value → Binary64.roundEven l.magnitude ≤ 2 ^ 64 →
      field.get (Config.settings (Frame.fillAll form.frames (.number l.float))) = l.rounded := by
    intro hsign hround
    have hlookup := Frame.lookup_fillAll form.frames (.number l.float)
    rw [hpath] at hlookup
    exact IntegerField.get_settings hfield hlookup (l.asU64_literal.trans (if_pos ⟨hsign, hround⟩))
  have hmagnitude : 0 ≤ l.value → l.value = l.magnitude := by
    intro hsign
    unfold Literal.value at hsign ⊢
    split at hsign
    · rw [if_pos ‹_›]
      omega
    · rw [if_neg ‹_›]
  constructor
  · intro hexact
    by_contra hsafe
    simp only [Literal.Safe, not_or, Int.not_lt, Nat.not_lt, Nat.not_le] at hsafe
    rcases hsafe with ⟨hsign, hne, hround, hlt⟩
    have hfield := hexact.exact _ ((hiff _).mpr ⟨⟨hsign, hround, hlt⟩, rfl⟩)
    rw [hget hsign hround, hmagnitude hsign] at hfield
    exact hne (Int.ofNat_inj.mp hfield)
  · intro hsafe
    have hexact : ∀ c, Config.fromJsonStr t input = .ok c →
        (field.get c : Int) = l.value ∧ field.get c < field.values t := by
      intro c hok
      rcases (hiff c).mp hok with ⟨⟨hsign, hround, hlt⟩, rfl⟩
      rw [hget hsign hround, hmagnitude hsign]
      refine ⟨?_, hlt⟩
      rcases hsafe with hneg | hsame | hlarge | hfull
      · omega
      · rw [hsame]
      · omega
      · omega
    refine ⟨fun c hok => (hexact c hok).1, ?_⟩
    intro hlarge
    cases hload : Config.fromJsonStr t input with
    | error e => exact ⟨e, rfl⟩
    | ok c =>
      have hc := hexact c hload
      omega

end Fields

/-! ## A setting that is changed -/

section KeepAlive

/-- A configuration that sets one field. -/
def keepAliveForm : Form where
  before := utf8 "\x7b\"server\":\x7b\"keep_alive_secs\":"
  after := utf8 "\x7d\x7d"
  frames := [⟨[], "server", [], by simp⟩, ⟨[], "keep_alive_secs", [], by simp⟩]
  document := by
    intro text x hnumber
    have hnone : Ws [] := by simp [Ws]
    have hserver : CharsText (utf8 "server") "server".toList := .plain (by simp [Unescaped])
    have hkey : CharsText (utf8 "keep_alive_secs") "keep_alive_secs".toList :=
      .plain (by simp [Unescaped])
    refine ⟨[], _, [], hnone, .object (.member hnone (.mk hserver) hnone hnone
      (.object (.member hnone (.mk hkey) hnone hnone (.number hnumber) hnone)) hnone), hnone, ?_⟩
    have hopen : utf8 "\x7b\"server\":\x7b\"keep_alive_secs\":" =
        0x7b :: 0x22 :: (utf8 "server" ++ 0x22 :: 0x3a :: 0x7b :: 0x22 ::
          (utf8 "keep_alive_secs" ++ [0x22, 0x3a])) := by decide
    have hclose : utf8 "\x7d\x7d" = [0x7d, 0x7d] := by decide
    rw [hopen, hclose]
    simp

def keepAliveField : IntegerField :=
  ⟨["server", "keep_alive_secs"], .u64, fun c => c.server.keepAliveSecs⟩

theorem keepAliveField_mem : keepAliveField ∈ integerFields := by
  simp [integerFields, keepAliveField]

/-- The literal `15`. -/
def fifteen : Literal := ⟨false, [0x31, 0x35], ⟨by decide, by simp [isAsciiDigit]⟩⟩

/-- The literal `9007199254740993`, which needs 54 bits. -/
def oddLarge : Literal :=
  ⟨false, utf8 "9007199254740993", ⟨by decide, List.all_eq_true.mp (by decide)⟩⟩

theorem keepAliveForm_valid : keepAliveForm.Valid ⟨.w64, false⟩ := by
  have hinput : utf8 "\x7b\"server\":\x7b\"keep_alive_secs\":15\x7d\x7d" =
      keepAliveForm.text fifteen := by decide
  have hdocument := keepAliveForm.document fifteen.text fifteen.float fifteen.number
  rw [← Form.text, ← hinput] at hdocument
  have hread : (JsonValue.number fifteen.float).asU64 = some 15 := by
    rw [fifteen.asU64_literal]
    decide
  refine ⟨fifteen, _, Config.settings (Frame.fillAll keepAliveForm.frames (.number fifteen.float)),
    hinput, ?_⟩
  rw [Config.fromJsonStr, hdocument.parse_ok]
  refine Config.fromJson_eq_ok_iff.mpr ⟨rfl, ?_, rfl, rfl⟩
  intro d hd v hv
  -- only the section and the field are there
  have hpaths : ∀ d ∈ documented, d = (["server"], .record) ∨
      d = (["server", "keep_alive_secs"], .u64) ∨
      (JsonValue.lookup d.1 (Frame.fillAll keepAliveForm.frames (.number fifteen.float))).isNone =
        true := by decide
  rcases hpaths d hd with rfl | rfl | hnone
  · trivial
  · cases hv
    exact ⟨15, hread⟩
  · rw [hv] at hnone
    cases hnone

theorem fifteen_exact : LoadedExactly ⟨.w64, false⟩ keepAliveField
    "\x7b\"server\":\x7b\"keep_alive_secs\":15\x7d\x7d" fifteen :=
  (integer_exact_iff keepAliveField_mem rfl keepAliveForm_valid (by decide)).mpr
    (.inr (.inl (by decide)))

/-- `2 ^ 53 + 1` is loaded as `2 ^ 53`. -/
theorem oddLarge_not_exact : ¬ LoadedExactly ⟨.w64, false⟩ keepAliveField
    "\x7b\"server\":\x7b\"keep_alive_secs\":9007199254740993\x7d\x7d" oddLarge := by
  intro hexact
  have hinput : utf8 "\x7b\"server\":\x7b\"keep_alive_secs\":9007199254740993\x7d\x7d" =
      keepAliveForm.text oddLarge := by decide
  have hrounded : oddLarge.rounded = 9007199254740992 := by decide
  have hok := (Form.fromJsonStr_eq_ok_iff keepAliveField_mem rfl keepAliveForm_valid hinput).mpr
    ⟨⟨by decide, by decide, by decide⟩, rfl⟩
  have hlookup := Frame.lookup_fillAll keepAliveForm.frames (.number oddLarge.float)
  have hread := oddLarge.asU64_literal.trans (if_pos ⟨by decide, by decide⟩)
  have hget := IntegerField.get_settings keepAliveField_mem hlookup hread
  have hfield := hexact.exact _ hok
  rw [hget, hrounded] at hfield
  exact absurd hfield (by decide)

end KeepAlive

end FerroHttp
