import FerroHttp.Config

/-!
# Config.Schema — what the reader accepts

The documented schema as data, and the reader measured against it. `fromJson_eq_ok_iff`
says which values are accepted: every documented path that the lookup finds holds a value
its reader takes, and the settings with their defaults are valid. The schema asks for more
(`Mistyped`): a section is an object, also where a repeated key hides it.
-/

namespace FerroHttp

open Exec

/-! ## Paths -/

namespace JsonValue

/-- Follow a path, at each key through the first member of that name. -/
def lookup : List String → JsonValue → Option JsonValue
  | [], value => some value
  | key :: path, value => (value.get key).bind (lookup path)

/-- The value stands at the path, perhaps behind an earlier member of the same name. -/
def Occurs (v : JsonValue) : List String → JsonValue → Prop
  | [], value => value = v
  | key :: path, value => ∃ members w, value = .object members ∧ (key, w) ∈ members ∧
      Occurs v path w

/-- The section at a key; a missing one has no members. -/
def part (value : JsonValue) (key : String) : JsonValue := (value.get key).getD .null

def partAt (path : List String) (value : JsonValue) : JsonValue := (lookup path value).getD .null

section Paths

variable {v value : JsonValue} {key : String} {path : List String}

theorem get_eq_some (h : value.get key = some v) :
    ∃ members, value = .object members ∧ (key, v) ∈ members := by
  cases value with
  | object members =>
    simp only [get, Option.map_eq_some_iff] at h
    rcases h with ⟨member, hfind, rfl⟩
    have hkey := List.find?_some hfind
    rw [beq_iff_eq] at hkey
    refine ⟨members, rfl, ?_⟩
    rw [← hkey]
    exact List.mem_of_find?_eq_some hfind
  | _ => cases h

theorem lookup_singleton (key : String) (value : JsonValue) :
    lookup [key] value = value.get key := by
  rw [lookup]
  cases value.get key <;> rfl

/-- The last key of a path is looked up in the section before it. -/
theorem lookup_append (key : String) : ∀ path value,
    lookup (path ++ [key]) value = (partAt path value).get key
  | [], value => lookup_singleton key value
  | k :: path, value => by
    rw [List.cons_append, partAt, lookup, lookup]
    cases hget : value.get k with
    | none => rfl
    | some w => exact lookup_append key path w

end Paths

end JsonValue

/-! ## The schema -/

/-- The types of the documented fields; `texts` is an object of strings. -/
inductive FieldType where
  | bool
  | string
  | u16
  | usize
  | u64
  | strings
  | texts
  | record
deriving DecidableEq, Repr

namespace FieldType

/-- The value has the JSON type of the field. -/
def Fits : FieldType → JsonValue → Prop
  | .bool, v => ∃ b, v = .bool b
  | .string, v => ∃ s, v = .string s
  | .u16, v => ∃ n, v = .number n
  | .usize, v => ∃ n, v = .number n
  | .u64, v => ∃ n, v = .number n
  | .strings, v => ∃ items : List String, v = .array (items.map .string)
  | .texts, v => ∃ pairs : List (String × String),
      v = .object (pairs.map fun pair => (pair.1, .string pair.2))
  | .record, v => ∃ members, v = .object members

/-- The reader of the field takes the value; a section is read whatever it is. -/
def Readable (t : Target) : FieldType → JsonValue → Prop
  | .u16, v => ∃ n < 0x10000, v.asU64 = some n
  | .usize, v => ∃ n < t.modulus, v.asU64 = some n
  | .u64, v => ∃ n, v.asU64 = some n
  | .record, _ => True
  | type, v => type.Fits v

end FieldType

def serverFields : List (String × FieldType) :=
  [("bind", .string), ("port", .u16), ("worker_threads", .usize), ("max_connections", .usize),
    ("keep_alive_secs", .u64), ("read_timeout_secs", .u64), ("request_max_bytes", .usize)]

def staticFields : List (String × FieldType) :=
  [("root", .string), ("follow_symlinks", .bool), ("directory_listing", .bool),
    ("index_files", .strings)]

def compressionFields : List (String × FieldType) := [("gzip", .bool), ("min_bytes", .usize)]

def rateLimitFields : List (String × FieldType) :=
  [("enabled", .bool), ("requests", .u64), ("window_secs", .u64), ("ban_secs", .u64)]

def securityFields : List (String × FieldType) :=
  [("enable_security_headers", .bool), ("blocked_patterns", .strings)]

def tlsFields : List (String × FieldType) :=
  [("enabled", .bool), ("cert_path", .string), ("key_path", .string)]

def adminFields : List (String × FieldType) :=
  [("username", .string), ("password_sha256", .string)]

def loggingFields : List (String × FieldType) := [("level", .string), ("access_log", .bool)]

/-- A section and its fields. -/
def recordAt (path : List String) (fields : List (String × FieldType)) :
    List (List String × FieldType) :=
  (path, .record) :: fields.map fun field => (path ++ [field.1], field.2)

/-- Every documented path with its type. -/
def documented : List (List String × FieldType) :=
  recordAt ["server"] serverFields ++ recordAt ["static"] staticFields ++
  recordAt ["compression"] compressionFields ++ recordAt ["security"] securityFields ++
  recordAt ["security", "rate_limit"] rateLimitFields ++ recordAt ["tls"] tlsFields ++
  recordAt ["admin"] adminFields ++ recordAt ["logging"] loggingFields ++
  [(["mime_overrides"], .texts)]

/-! ## What a value sets -/

/-- What a member sets a slot to. -/
def setting {α : Type} (as : JsonValue → Option α) (obj : JsonValue) (key : String) (slot : α) :
    α := ((obj.get key).bind as).getD slot

/-- The strings of an array of strings. -/
def JsonValue.asStrings (v : JsonValue) : Option (List String) :=
  v.asArray.bind fun items => items.mapM asStr

/-- The pairs of an object of strings. -/
def JsonValue.asTexts : JsonValue → Option (List (String × String))
  | .object members => members.mapM fun member => member.2.asStr.map (member.1, ·)
  | _ => none

def serverSettings (value : JsonValue) (cfg : ServerConfig) : ServerConfig :=
  ⟨setting JsonValue.asStr value "bind" cfg.bind,
    setting JsonValue.asU64 value "port" cfg.port,
    setting JsonValue.asU64 value "worker_threads" cfg.workerThreads,
    setting JsonValue.asU64 value "max_connections" cfg.maxConnections,
    setting JsonValue.asU64 value "keep_alive_secs" cfg.keepAliveSecs,
    setting JsonValue.asU64 value "read_timeout_secs" cfg.readTimeoutSecs,
    setting JsonValue.asU64 value "request_max_bytes" cfg.requestMaxBytes⟩

def staticSettings (value : JsonValue) (cfg : StaticConfig) : StaticConfig :=
  ⟨setting JsonValue.asStr value "root" cfg.root,
    setting JsonValue.asStrings value "index_files" cfg.indexFiles,
    setting JsonValue.asBool value "follow_symlinks" cfg.followSymlinks,
    setting JsonValue.asBool value "directory_listing" cfg.directoryListing⟩

def compressionSettings (value : JsonValue) (cfg : CompressionConfig) : CompressionConfig :=
  ⟨setting JsonValue.asBool value "gzip" cfg.gzip,
    setting JsonValue.asU64 value "min_bytes" cfg.minBytes⟩

def rateLimitSettings (value : JsonValue) (cfg : RateLimitConfig) : RateLimitConfig :=
  ⟨setting JsonValue.asBool value "enabled" cfg.enabled,
    setting JsonValue.asU64 value "requests" cfg.requests,
    setting JsonValue.asU64 value "window_secs" cfg.windowSecs,
    setting JsonValue.asU64 value "ban_secs" cfg.banSecs⟩

def securitySettings (value : JsonValue) (cfg : SecurityConfig) : SecurityConfig :=
  ⟨setting JsonValue.asBool value "enable_security_headers" cfg.enableSecurityHeaders,
    rateLimitSettings (value.part "rate_limit") cfg.rateLimit,
    setting JsonValue.asStrings value "blocked_patterns" cfg.blockedPatterns⟩

def tlsSettings (value : JsonValue) (tls : TlsConfig) : TlsConfig :=
  ⟨setting JsonValue.asBool value "enabled" tls.enabled,
    setting JsonValue.asStr value "cert_path" tls.certPath,
    setting JsonValue.asStr value "key_path" tls.keyPath⟩

def adminSettings (value : JsonValue) (admin : AdminConfig) : AdminConfig :=
  ⟨setting JsonValue.asStr value "username" admin.username,
    setting JsonValue.asStr value "password_sha256" admin.passwordSha256⟩

def loggingSettings (value : JsonValue) (logging : LoggingConfig) : LoggingConfig :=
  ⟨setting JsonValue.asStr value "level" logging.level,
    setting JsonValue.asBool value "access_log" logging.accessLog⟩

/-- The settings of a value, with the defaults for what it lacks. -/
def Config.settings (root : JsonValue) : Config :=
  ⟨serverSettings (root.part "server") .default, staticSettings (root.part "static") .default,
    compressionSettings (root.part "compression") .default,
    securitySettings (root.part "security") .default, tlsSettings (root.part "tls") .default,
    adminSettings (root.part "admin") .default, loggingSettings (root.part "logging") .default,
    setting JsonValue.asTexts root "mime_overrides" []⟩

/-! ## The readers -/

section Readers

variable {t : Target} {α : Type} {value v : JsonValue} {key path : String}
  {fields : List (String × FieldType)}

/-- The member of the field, if there is one, is taken by its reader. -/
def Held (t : Target) (value : JsonValue) (field : String × FieldType) : Prop :=
  ∀ v, value.get field.1 = some v → field.2.Readable t v

theorem typed_eq_ok_iff {as : JsonValue → Option α} {a : α} :
    typed as v path = .ok a ↔ as v = some a := by
  rw [typed]
  cases as v <;> simp

theorem bounded_eq_ok_iff {values n : Nat} {reason : String} :
    bounded values reason v path = .ok n ↔ n < values ∧ v.asU64 = some n := by
  simp only [bounded, Outcome.except_bind_eq_ok, typed_eq_ok_iff]
  constructor
  · rintro ⟨m, hm, hif⟩
    split at hif
    · cases hif
    · cases hif
      exact ⟨by omega, hm⟩
  · rintro ⟨hlt, hn⟩
    exact ⟨n, hn, if_neg (by omega)⟩

theorem readItems_eq_ok_iff {items : List JsonValue} {ss : List String} : ∀ {i},
    readItems path i items = .ok ss ↔ items.mapM JsonValue.asStr = some ss := by
  induction items generalizing ss with
  | nil => intro i; simp [readItems]
  | cons item items ih =>
    intro i
    simp only [readItems, Outcome.except_bind_eq_ok, typed_eq_ok_iff, ih, List.mapM_cons,
      Option.bind_eq_bind, Option.bind_eq_some_iff, Option.pure_def, Except.ok.injEq,
      Option.some.injEq]

theorem readStringArray_eq_ok_iff {ss : List String} :
    readStringArray v path = .ok ss ↔ v.asStrings = some ss := by
  simp only [readStringArray, JsonValue.asStrings, Outcome.except_bind_eq_ok, typed_eq_ok_iff,
    readItems_eq_ok_iff, Option.bind_eq_some_iff]

theorem readMembers_eq_ok_iff {members : List (String × JsonValue)}
    {pairs : List (String × String)} : readMembers path members = .ok pairs ↔
      members.mapM (fun member => member.2.asStr.map (member.1, ·)) = some pairs := by
  induction members generalizing pairs with
  | nil => simp [readMembers]
  | cons member members ih =>
    simp only [readMembers, Outcome.except_bind_eq_ok, typed_eq_ok_iff, ih, List.mapM_cons,
      Option.bind_eq_bind, Option.bind_eq_some_iff, Option.pure_def, Except.ok.injEq,
      Option.some.injEq, Option.map_eq_some_iff]
    simp

theorem readStringMap_eq_ok_iff {pairs : List (String × String)} :
    readStringMap v path = .ok pairs ↔ v.asTexts = some pairs := by
  cases v <;> simp [readStringMap, JsonValue.asTexts, readMembers_eq_ok_iff]

theorem mapM_asStr_eq_some_iff {items : List JsonValue} {ss : List String} :
    items.mapM JsonValue.asStr = some ss ↔ items = ss.map .string := by
  induction items generalizing ss with
  | nil => cases ss <;> simp
  | cons item items ih =>
    simp only [List.mapM_cons, Option.bind_eq_bind, Option.bind_eq_some_iff, Option.pure_def,
      Option.some.injEq, ih]
    constructor
    · rintro ⟨s, hs, ss', rfl, rfl⟩
      cases item <;> cases hs
      rfl
    · intro h
      cases ss with
      | nil => cases h
      | cons s ss =>
        rw [List.map_cons, List.cons.injEq] at h
        exact ⟨s, by rw [h.1]; rfl, ss, h.2, rfl⟩

theorem mapM_asTexts_eq_some_iff {members : List (String × JsonValue)}
    {pairs : List (String × String)} :
    members.mapM (fun member => member.2.asStr.map (member.1, ·)) = some pairs ↔
      members = pairs.map fun pair => (pair.1, .string pair.2) := by
  induction members generalizing pairs with
  | nil => cases pairs <;> simp
  | cons member members ih =>
    simp only [List.mapM_cons, Option.bind_eq_bind, Option.bind_eq_some_iff, Option.pure_def,
      Option.some.injEq, Option.map_eq_some_iff, ih]
    constructor
    · rintro ⟨_, ⟨s, hs, rfl⟩, pairs', rfl, rfl⟩
      rcases member with ⟨key, v⟩
      cases v <;> cases hs
      rfl
    · intro h
      cases pairs with
      | nil => cases h
      | cons pair pairs =>
        rw [List.map_cons, List.cons.injEq] at h
        exact ⟨pair, ⟨pair.2, by rw [h.1]; rfl, by rw [h.1]⟩, pairs, h.2, rfl⟩

theorem asStrings_eq_some_iff {ss : List String} :
    v.asStrings = some ss ↔ v = .array (ss.map .string) := by
  simp only [JsonValue.asStrings, Option.bind_eq_some_iff, mapM_asStr_eq_some_iff]
  cases v <;> simp [JsonValue.asArray]

theorem asTexts_eq_some_iff {pairs : List (String × String)} :
    v.asTexts = some pairs ↔ v = .object (pairs.map fun pair => (pair.1, .string pair.2)) := by
  cases v <;> simp [JsonValue.asTexts, mapM_asTexts_eq_some_iff]

/-- A slot is read when its member is taken, and set to the setting. -/
theorem readSlot_eq_ok_iff {read : JsonValue → String → Except ConfigError α}
    {as : JsonValue → Option α} {type : FieldType} {slot a : α}
    (hread : ∀ {v path a}, read v path = .ok a ↔ type.Readable t v ∧ as v = some a)
    (hsome : ∀ {v}, type.Readable t v → ∃ a, as v = some a) :
    readSlot read value key slot path = .ok a ↔
      Held t value (key, type) ∧ a = setting as value key slot := by
  simp only [readSlot, Held, setting]
  cases hget : value.get key with
  | none =>
    -- the slot keeps its value
    simp [eq_comm]
  | some v =>
    simp only [hread, Option.some.injEq, forall_eq', Option.bind_some]
    constructor
    · rintro ⟨hreadable, ha⟩
      exact ⟨hreadable, by rw [ha]; rfl⟩
    · rintro ⟨hreadable, rfl⟩
      rcases hsome hreadable with ⟨b, hb⟩
      exact ⟨hreadable, by rw [hb]; rfl⟩

theorem readBool_eq_ok_iff {slot a : Bool} : readBool value key slot path = .ok a ↔
    Held t value (key, .bool) ∧ a = setting JsonValue.asBool value key slot := by
  apply readSlot_eq_ok_iff
  · intro v path a
    rw [typed_eq_ok_iff, iff_and_self]
    intro h
    cases v <;> cases h
    exact ⟨a, rfl⟩
  · rintro v ⟨b, rfl⟩
    exact ⟨b, rfl⟩

theorem readString_eq_ok_iff {slot a : String} : readString value key slot path = .ok a ↔
    Held t value (key, .string) ∧ a = setting JsonValue.asStr value key slot := by
  apply readSlot_eq_ok_iff
  · intro v path a
    rw [typed_eq_ok_iff, iff_and_self]
    intro h
    cases v <;> cases h
    exact ⟨a, rfl⟩
  · rintro v ⟨s, rfl⟩
    exact ⟨s, rfl⟩

theorem readU64_eq_ok_iff {slot a : Nat} : readU64 value key slot path = .ok a ↔
    Held t value (key, .u64) ∧ a = setting JsonValue.asU64 value key slot := by
  apply readSlot_eq_ok_iff
  · intro v path a
    rw [typed_eq_ok_iff, iff_and_self]
    exact fun h => ⟨a, h⟩
  · exact id

/-- An integer of a narrower type is read when it fits. -/
theorem readBounded_eq_ok_iff {values : Nat} {reason : String} {type : FieldType} {slot a : Nat}
    (htype : ∀ v, type.Readable t v ↔ ∃ n < values, v.asU64 = some n) :
    readSlot (bounded values reason) value key slot path = .ok a ↔
      Held t value (key, type) ∧ a = setting JsonValue.asU64 value key slot := by
  apply readSlot_eq_ok_iff
  · intro v path a
    rw [bounded_eq_ok_iff, htype]
    constructor
    · exact fun ⟨hlt, h⟩ => ⟨⟨a, hlt, h⟩, h⟩
    · -- the number that fits is the number that is read
      rintro ⟨⟨n, hlt, hn⟩, h⟩
      cases hn.symm.trans h
      exact ⟨hlt, h⟩
  · intro v hreadable
    rcases (htype v).mp hreadable with ⟨n, _, h⟩
    exact ⟨n, h⟩

theorem readUsize_eq_ok_iff {slot a : Nat} : readUsize t value key slot path = .ok a ↔
    Held t value (key, .usize) ∧ a = setting JsonValue.asU64 value key slot :=
  readBounded_eq_ok_iff fun _ => Iff.rfl

theorem readU16_eq_ok_iff {slot a : Nat} : readU16 value key slot path = .ok a ↔
    Held t value (key, .u16) ∧ a = setting JsonValue.asU64 value key slot :=
  readBounded_eq_ok_iff fun _ => Iff.rfl

theorem readStrings_eq_ok_iff {slot a : List String} :
    readSlot readStringArray value key slot path = .ok a ↔
      Held t value (key, .strings) ∧ a = setting JsonValue.asStrings value key slot := by
  apply readSlot_eq_ok_iff
  · intro v path a
    rw [readStringArray_eq_ok_iff, iff_and_self]
    exact fun h => ⟨a, asStrings_eq_some_iff.mp h⟩
  · exact fun ⟨items, h⟩ => ⟨items, asStrings_eq_some_iff.mpr h⟩

theorem readTexts_eq_ok_iff {slot a : List (String × String)} :
    readSection (fun v _ => readStringMap v path) value key slot = .ok a ↔
      Held t value (key, .texts) ∧ a = setting JsonValue.asTexts value key slot := by
  show readSlot (fun v _ => readStringMap v path) value key slot path = .ok a ↔ _
  apply readSlot_eq_ok_iff
  · intro v path a
    rw [readStringMap_eq_ok_iff, iff_and_self]
    exact fun h => ⟨a, asTexts_eq_some_iff.mp h⟩
  · exact fun ⟨pairs, h⟩ => ⟨pairs, asTexts_eq_some_iff.mpr h⟩

/-- A missing section is read like one without members. -/
theorem readSection_eq {read : JsonValue → α → Except ConfigError α} {slot : α}
    (hnull : read .null slot = .ok slot) :
    readSection read value key slot = read (value.part key) slot := by
  rw [readSection, JsonValue.part]
  cases value.get key with
  | none => exact hnull.symm
  | some v => rfl

/-- The fields of a section are held. -/
def Holds (t : Target) (fields : List (String × FieldType)) (value : JsonValue) : Prop :=
  ∀ field ∈ fields, Held t value field

@[simp]
theorem holds_nil : Holds t [] value := by
  intro field h
  cases h

@[simp]
theorem holds_cons {field : String × FieldType} :
    Holds t (field :: fields) value ↔ Held t value field ∧ Holds t fields value :=
  List.forall_mem_cons

theorem readServer_eq_ok_iff {cfg c : ServerConfig} : readServer t value cfg = .ok c ↔
    Holds t serverFields value ∧ c = serverSettings value cfg := by
  simp only [readServer, Outcome.except_bind_eq_ok, readString_eq_ok_iff (t := t),
    readU16_eq_ok_iff (t := t), readUsize_eq_ok_iff, readU64_eq_ok_iff (t := t), and_assoc,
    exists_and_left, exists_eq_left, Except.ok.injEq]
  simp only [serverFields, holds_cons, holds_nil, true_and, and_assoc, serverSettings, eq_comm]

theorem readStatic_eq_ok_iff {cfg c : StaticConfig} : readStatic value cfg = .ok c ↔
    Holds t staticFields value ∧ c = staticSettings value cfg := by
  simp only [readStatic, Outcome.except_bind_eq_ok, readString_eq_ok_iff (t := t),
    readBool_eq_ok_iff (t := t), readStrings_eq_ok_iff (t := t), and_assoc,
    exists_and_left, exists_eq_left, Except.ok.injEq]
  simp only [staticFields, holds_cons, holds_nil, true_and, and_assoc, staticSettings, eq_comm]

theorem readCompression_eq_ok_iff {cfg c : CompressionConfig} :
    readCompression t value cfg = .ok c ↔
      Holds t compressionFields value ∧ c = compressionSettings value cfg := by
  simp only [readCompression, Outcome.except_bind_eq_ok, readBool_eq_ok_iff (t := t),
    readUsize_eq_ok_iff, and_assoc, exists_and_left, exists_eq_left, Except.ok.injEq]
  simp only [compressionFields, holds_cons, holds_nil, true_and, and_assoc, compressionSettings, eq_comm]

theorem readRateLimit_eq_ok_iff {cfg c : RateLimitConfig} : readRateLimit value cfg = .ok c ↔
    Holds t rateLimitFields value ∧ c = rateLimitSettings value cfg := by
  simp only [readRateLimit, Outcome.except_bind_eq_ok, readBool_eq_ok_iff (t := t),
    readU64_eq_ok_iff (t := t), and_assoc, exists_and_left, exists_eq_left, Except.ok.injEq]
  simp only [rateLimitFields, holds_cons, holds_nil, true_and, and_assoc, rateLimitSettings, eq_comm]

/-- The section `rate_limit` is read in the middle of its parent. -/
theorem readSecurity_eq_ok_iff {cfg c : SecurityConfig} : readSecurity value cfg = .ok c ↔
    Holds t securityFields value ∧ Holds t rateLimitFields (value.part "rate_limit") ∧
      c = securitySettings value cfg := by
  have hsection : readSection readRateLimit value "rate_limit" cfg.rateLimit =
      readRateLimit (value.part "rate_limit") cfg.rateLimit := readSection_eq rfl
  simp only [readSecurity, Outcome.except_bind_eq_ok, readBool_eq_ok_iff (t := t), hsection,
    readRateLimit_eq_ok_iff (t := t), readStrings_eq_ok_iff (t := t), and_assoc, exists_and_left,
    exists_eq_left, Except.ok.injEq]
  -- the section comes before `blocked_patterns`, after them in the schema
  simp only [securityFields, holds_cons, holds_nil, true_and, and_assoc, securitySettings, eq_comm]
  constructor
  · rintro ⟨hheaders, hrate, hblocked, hc⟩
    exact ⟨hheaders, hblocked, hrate, hc⟩
  · rintro ⟨hheaders, hblocked, hrate, hc⟩
    exact ⟨hheaders, hrate, hblocked, hc⟩

theorem readTls_eq_ok_iff {cfg c : TlsConfig} : readTls value cfg = .ok c ↔
    Holds t tlsFields value ∧ c = tlsSettings value cfg := by
  simp only [readTls, Outcome.except_bind_eq_ok, readString_eq_ok_iff (t := t),
    readBool_eq_ok_iff (t := t), and_assoc, exists_and_left, exists_eq_left, Except.ok.injEq]
  simp only [tlsFields, holds_cons, holds_nil, true_and, and_assoc, tlsSettings, eq_comm]

theorem readAdmin_eq_ok_iff {cfg c : AdminConfig} : readAdmin value cfg = .ok c ↔
    Holds t adminFields value ∧ c = adminSettings value cfg := by
  simp only [readAdmin, Outcome.except_bind_eq_ok, readString_eq_ok_iff (t := t), and_assoc,
    exists_and_left, exists_eq_left, Except.ok.injEq]
  simp only [adminFields, holds_cons, holds_nil, true_and, and_assoc, adminSettings, eq_comm]

theorem readLogging_eq_ok_iff {cfg c : LoggingConfig} : readLogging value cfg = .ok c ↔
    Holds t loggingFields value ∧ c = loggingSettings value cfg := by
  simp only [readLogging, Outcome.except_bind_eq_ok, readString_eq_ok_iff (t := t),
    readBool_eq_ok_iff (t := t), and_assoc, exists_and_left, exists_eq_left, Except.ok.injEq]
  simp only [loggingFields, holds_cons, holds_nil, true_and, and_assoc, loggingSettings, eq_comm]

end Readers

/-! ## The whole object -/

section Documents

open JsonValue

variable {t : Target} {root : JsonValue} {c : Config}

/-- Every value that the lookup finds at a documented path is taken by its reader. -/
def Readable (t : Target) (root : JsonValue) : Prop :=
  ∀ d ∈ documented, ∀ v, lookup d.1 root = some v → d.2.Readable t v

theorem readable_recordAt (path : List String) (fields : List (String × FieldType)) :
    (∀ d ∈ recordAt path fields, ∀ v, lookup d.1 root = some v → d.2.Readable t v) ↔
      Holds t fields (partAt path root) := by
  simp only [recordAt, List.forall_mem_cons, List.forall_mem_map, lookup_append, Holds, Held]
  constructor
  · exact fun h field hfield => h.2 field hfield
  · exact fun h => ⟨fun _ _ => trivial, fun field hfield => h field hfield⟩

/-- The documented sections with their fields. -/
def records : List (List String × FieldType) :=
  recordAt ["server"] serverFields ++ recordAt ["static"] staticFields ++
  recordAt ["compression"] compressionFields ++ recordAt ["security"] securityFields ++
  recordAt ["security", "rate_limit"] rateLimitFields ++ recordAt ["tls"] tlsFields ++
  recordAt ["admin"] adminFields ++ recordAt ["logging"] loggingFields

/-- The sections by their paths are the sections that the readers are given. -/
theorem records_readable_iff :
    (∀ d ∈ records, ∀ v, lookup d.1 root = some v → d.2.Readable t v) ↔
    Holds t serverFields (root.part "server") ∧ Holds t staticFields (root.part "static") ∧
    Holds t compressionFields (root.part "compression") ∧
    Holds t securityFields (root.part "security") ∧
    Holds t rateLimitFields ((root.part "security").part "rate_limit") ∧
    Holds t tlsFields (root.part "tls") ∧ Holds t adminFields (root.part "admin") ∧
    Holds t loggingFields (root.part "logging") := by
  have hpart : ∀ key, partAt [key] root = root.part key := by
    intro key
    rw [partAt, lookup_singleton, part]
  have hrate : partAt ["security", "rate_limit"] root =
      (root.part "security").part "rate_limit" := by
    have happend : lookup ["security", "rate_limit"] root = _ :=
      lookup_append "rate_limit" ["security"] root
    rw [partAt, happend, hpart]
    rfl
  simp only [records, List.forall_mem_append, readable_recordAt, hpart, hrate, and_assoc]

theorem readable_iff : Readable t root ↔
    Holds t serverFields (root.part "server") ∧ Holds t staticFields (root.part "static") ∧
    Holds t compressionFields (root.part "compression") ∧
    Holds t securityFields (root.part "security") ∧
    Holds t rateLimitFields ((root.part "security").part "rate_limit") ∧
    Holds t tlsFields (root.part "tls") ∧ Holds t adminFields (root.part "admin") ∧
    Holds t loggingFields (root.part "logging") ∧ Held t root ("mime_overrides", .texts) := by
  have hsplit : documented = records ++ [(["mime_overrides"], .texts)] := rfl
  simp only [Readable, hsplit, List.forall_mem_append, records_readable_iff, List.forall_mem_cons,
    List.not_mem_nil, false_implies, implies_true, and_true, and_assoc, lookup_singleton, Held]

/-- Every section is read from what stands in its place. -/
theorem Config.readJson_eq : readJson t root = (do
    let server ← readServer t (root.part "server") .default
    let staticFiles ← readStatic (root.part "static") .default
    let compression ← readCompression t (root.part "compression") .default
    let security ← readSecurity (root.part "security") .default
    let tls ← readTls (root.part "tls") .default
    let admin ← readAdmin (root.part "admin") .default
    let logging ← readLogging (root.part "logging") .default
    let mimeOverrides ← readSection (fun value _ => readStringMap value "mime_overrides") root
      "mime_overrides" []
    .ok ⟨server, staticFiles, compression, security, tls, admin, logging, mimeOverrides⟩) := by
  have hserver : readSection (readServer t) root "server" .default =
      readServer t (root.part "server") .default := readSection_eq rfl
  have hstatic : readSection readStatic root "static" .default =
      readStatic (root.part "static") .default := readSection_eq rfl
  have hcompression : readSection (readCompression t) root "compression" .default =
      readCompression t (root.part "compression") .default := readSection_eq rfl
  have hsecurity : readSection readSecurity root "security" .default =
      readSecurity (root.part "security") .default := readSection_eq rfl
  have htls : readSection readTls root "tls" .default = readTls (root.part "tls") .default :=
    readSection_eq rfl
  have hadmin : readSection readAdmin root "admin" .default =
      readAdmin (root.part "admin") .default := readSection_eq rfl
  have hlogging : readSection readLogging root "logging" .default =
      readLogging (root.part "logging") .default := readSection_eq rfl
  simp only [readJson, hserver, hstatic, hcompression, hsecurity, htls, hadmin, hlogging]

/-- The reader takes an object exactly when it takes every value it looks up. -/
theorem Config.readJson_eq_ok_iff :
    readJson t root = .ok c ↔ Readable t root ∧ c = settings root := by
  simp only [readJson_eq, Outcome.except_bind_eq_ok, readServer_eq_ok_iff,
    readStatic_eq_ok_iff (t := t), readCompression_eq_ok_iff, readSecurity_eq_ok_iff (t := t),
    readTls_eq_ok_iff (t := t), readAdmin_eq_ok_iff (t := t), readLogging_eq_ok_iff (t := t),
    readTexts_eq_ok_iff (t := t), and_assoc, exists_and_left, exists_eq_left, Except.ok.injEq]
  simp only [readable_iff, and_assoc, settings, eq_comm]

/-- Which values are accepted, and as what. -/
theorem Config.fromJson_eq_ok_iff : fromJson t root = .ok c ↔
    isObject root = true ∧ Readable t root ∧ c = settings root ∧ c.validate = .ok () := by
  rw [fromJson]
  cases hobject : isObject root with
  | false => simp
  | true =>
    simp only [Bool.not_true, Bool.false_eq_true, if_false, Outcome.except_bind_eq_ok,
      readJson_eq_ok_iff, Except.ok.injEq]
    constructor
    · -- validation gives nothing back, it only lets the settings pass
      rintro ⟨c', ⟨hread, hc⟩, _, hvalid, rfl⟩
      exact ⟨trivial, hread, hc, hvalid⟩
    · rintro ⟨-, hread, hc, hvalid⟩
      exact ⟨c, ⟨hread, hc⟩, (), hvalid, rfl⟩

/-! ## Wrong types -/

/-- A documented section or field is there with a value of another JSON type. -/
def Mistyped (root : JsonValue) : Prop :=
  ∃ d ∈ documented, ∃ v, v.Occurs d.1 root ∧ ¬ d.2.Fits v

/-- Such a value that no reader looks at: it stands for a section, which is only searched
for its members, or an earlier member of the same name is found instead. -/
def Unseen (root : JsonValue) : Prop :=
  ∃ d ∈ documented, ∃ v, v.Occurs d.1 root ∧ ¬ d.2.Fits v ∧
    (d.2 = .record ∨ lookup d.1 root ≠ some v)

/-- There is something to reject: a value that is looked up and not taken by its reader,
or invalid settings. -/
def Rejected (t : Target) (root : JsonValue) : Prop :=
  (∃ d ∈ documented, ∃ v, lookup d.1 root = some v ∧ ¬ d.2.Readable t v) ∨
    (Config.settings root).validate ≠ .ok ()

/-- A reader takes no value of another JSON type. -/
theorem FieldType.Readable.fits {type : FieldType} {v : JsonValue} (htype : type ≠ .record)
    (h : type.Readable t v) : type.Fits v := by
  have hnumber : ∀ n, v.asU64 = some n → ∃ x, v = .number x := by
    intro n hn
    cases v with
    | number x => exact ⟨x, rfl⟩
    | _ => cases hn
  cases type with
  | u16 =>
    -- in range or not, only a number converts
    rcases h with ⟨n, _, hn⟩
    exact hnumber n hn
  | usize =>
    rcases h with ⟨n, _, hn⟩
    exact hnumber n hn
  | u64 =>
    rcases h with ⟨n, hn⟩
    exact hnumber n hn
  | record => exact (htype rfl).elim
  | _ => exact h

theorem Config.fromJson_eq_error_iff :
    (∃ e, fromJson t root = .error e) ↔ isObject root = false ∨ Rejected t root := by
  have hok : (∃ e, fromJson t root = .error e) ↔ ¬ ∃ c, fromJson t root = .ok c := by
    cases fromJson t root <;> simp
  simp only [hok, fromJson_eq_ok_iff, Rejected, Readable]
  grind

theorem isObject_of_occurs {v : JsonValue} {d : List String × FieldType} (hd : d ∈ documented)
    (h : v.Occurs d.1 root) : Config.isObject root = true := by
  have hne : ∀ d ∈ documented, d.1 ≠ [] := by decide
  cases hpath : d.1 with
  | nil => exact (hne d hd hpath).elim
  | cons key path =>
    rw [hpath] at h
    rcases h with ⟨members, w, rfl, _, _⟩
    rfl

/-- A mistyped object is rejected, unless the readers look past every mistyped value and find
nothing else to reject. -/
theorem Config.mistyped_error_iff (t : Target) (root : JsonValue) :
    (Mistyped root → ∃ e, fromJson t root = .error e) ↔ (Unseen root → Rejected t root) := by
  rw [fromJson_eq_error_iff]
  constructor
  · rintro h ⟨d, hd, v, hoccurs, hfits, _⟩
    rcases h ⟨d, hd, v, hoccurs, hfits⟩ with hobject | hrejected
    · rw [isObject_of_occurs hd hoccurs] at hobject
      cases hobject
    · exact hrejected
  · rintro h ⟨d, hd, v, hoccurs, hfits⟩
    right
    by_cases hseen : d.2 ≠ .record ∧ lookup d.1 root = some v
    · -- its reader gets this very value
      left
      exact ⟨d, hd, v, hseen.2, fun hreadable => hfits (hreadable.fits hseen.1)⟩
    · apply h
      refine ⟨d, hd, v, hoccurs, hfits, ?_⟩
      by_contra hcon
      exact hseen ⟨fun hrecord => hcon (.inl hrecord), by_contra fun hne => hcon (.inr hne)⟩

/-- A section that is a string is taken for a missing one. -/
theorem Config.not_mistyped_error : ¬ ∀ (t : Target) (root : JsonValue), isObject root = true →
    Mistyped root → ∃ e, fromJson t root = .error e := by
  intro h
  -- `get` finds no member in a string, so the section keeps its defaults
  have hmistyped : Mistyped (.object [("tls", .string "on")]) := by
    refine ⟨(["tls"], .record), by decide, .string "on", ⟨_, _, rfl, List.mem_singleton_self _, rfl⟩,
      ?_⟩
    rintro ⟨members, hmembers⟩
    cases hmembers
  have hok : fromJson ⟨.w64, false⟩ (.object [("tls", .string "on")]) = .ok .default := rfl
  rcases h ⟨.w64, false⟩ _ rfl hmistyped with ⟨e, herror⟩
  rw [hok] at herror
  cases herror

end Documents

end FerroHttp
