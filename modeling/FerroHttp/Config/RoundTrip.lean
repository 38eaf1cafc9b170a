import FerroHttp.Json.Writing

/-!
# Config.RoundTrip — what is written is what is read

The writer of a configuration is tied to the rules for written texts section by section
(`write_eq`), which gives the value the parser returns for any configuration
(`parse_toJsonString`). The reader inverts that value on numbers that a float holds.

`Whole` numbers are those: all up to `2 ^ 53`, and every number the reader returns.
-/

namespace FerroHttp

open Exec Text Json

/-! ## Numbers -/

/-- A number that is read back from its own float. -/
def Whole (n : Nat) : Prop := JsonValue.asU64 (.number (Binary64.ofNat n)) = some n

/-- A float holds every number up to `2 ^ 53`. -/
theorem whole_of_le {n : Nat} (h : n ≤ 2 ^ 53) : Whole n := by
  rcases Binary64.ofNat_exact h with ⟨hlow, hhigh, htrunc, hbeq⟩
  have hnat : (UInt64.ofNat n).toNat = n := by
    rw [UInt64.toNat_ofNat']
    exact Nat.mod_eq_of_lt (by omega)
  have hback : ((UInt64.ofNat n).toFloat == Binary64.ofNat n) = true := by
    rw [Binary64.toFloat_eq, hnat]
    exact hbeq
  have hbounds : Binary64.ofNat 0 ≤ Binary64.ofNat n ∧
      Binary64.ofNat n ≤ Binary64.ofNat (u64Values - 1) := ⟨hlow, hhigh⟩
  -- the two comparisons of the source succeed, and the number is its own truncation
  simp only [Whole, JsonValue.asU64, if_pos hbounds, htrunc, if_pos hback, hnat]

/-! ## The written members -/

namespace Json

variable {levels : Nat} {key s : String}

/-- A string is escaped between its quotes. -/
def Member.ofString (key s : String) : Member :=
  .plain key ("\"" ++ escapeJson s ++ "\"") (.string s)

/-- A number is written in decimal; its value is the float that is nearest to it. -/
def Member.ofNat (key : String) (n : Nat) : Member :=
  .plain key (toString n) (.number (Binary64.ofNat n))

/-- A switch is one of two words. -/
def Member.ofBool (key : String) (b : Bool) : Member := .plain key (toString b) (.bool b)

/-- A list of strings stands on one line. -/
def Member.ofStrings (key : String) (items : List String) : Member :=
  .plain key (jsonStringArray items) (.array (items.map .string))

/-- The members of an object as the parser returns them. -/
def members (entries : List Member) : List (String × JsonValue) :=
  entries.map fun e => (e.key, e.value)

/-- A key that needs no escapes is written as it is. -/
theorem quoted_plain (h : escapeJson key = key) : Quoted (utf8 ("\"" ++ key ++ "\"")) key := by
  have hq := quoted_escapeJson key
  rw [h] at hq
  exact hq

/-- The parser undoes the escapes. -/
theorem spelled_ofString (h : escapeJson key = key) (s : String) :
    (Member.ofString key s).Spelled levels :=
  ⟨quoted_plain h, (quoted_escapeJson s).spells⟩

/-- The parser rounds the digits to the same float. -/
theorem spelled_ofNat (h : escapeJson key = key) (n : Nat) : (Member.ofNat key n).Spelled levels :=
  ⟨quoted_plain h, spells_nat n⟩

theorem spelled_ofBool (h : escapeJson key = key) (b : Bool) :
    (Member.ofBool key b).Spelled levels :=
  ⟨quoted_plain h, spells_bool b⟩

/-- The writer of arrays puts a comma and a blank between the items. -/
theorem jsonStringArray_eq (items : List String) : jsonStringArray items =
    "[" ++ itemList (items.map fun s => ("\"" ++ escapeJson s ++ "\"", .string s)) := by
  rw [jsonStringArray, String.append_assoc]
  congr 1
  -- the last item is followed by the bracket, the others by a comma
  induction items with
  | nil => rfl
  | cons s items ih =>
    cases items with
    | nil => rfl
    | cons s' items =>
      rw [List.map_cons] at ih
      rw [List.map_cons, List.map_cons, String.intercalate_cons_cons, String.append_assoc, ih]
      rfl

/-- An array needs one level more than its items. -/
theorem spelled_ofStrings (h : escapeJson key = key) (items : List String) :
    (Member.ofStrings key items).Spelled (levels + 1) := by
  refine ⟨quoted_plain h, ?_⟩
  have hitems : ∀ item ∈ items.map fun s => ("\"" ++ escapeJson s ++ "\"", JsonValue.string s),
      Spells levels (utf8 item.1) item.2 := by
    intro item hmem
    rcases List.mem_map.mp hmem with ⟨s, _, rfl⟩
    exact (quoted_escapeJson s).spells
  have hspells := spells_itemList hitems
  rw [← jsonStringArray_eq, List.map_map] at hspells
  exact hspells

end Json

/-! ## The written sections -/

/-- The fields of a section, in the order in which they are written. -/
def ServerConfig.entries (c : ServerConfig) : List Member :=
  [.ofString "bind" c.bind, .ofNat "port" c.port, .ofNat "worker_threads" c.workerThreads,
    .ofNat "max_connections" c.maxConnections, .ofNat "keep_alive_secs" c.keepAliveSecs,
    .ofNat "read_timeout_secs" c.readTimeoutSecs, .ofNat "request_max_bytes" c.requestMaxBytes]

def StaticConfig.entries (c : StaticConfig) : List Member :=
  [.ofString "root" c.root, .ofStrings "index_files" c.indexFiles,
    .ofBool "follow_symlinks" c.followSymlinks, .ofBool "directory_listing" c.directoryListing]

def CompressionConfig.entries (c : CompressionConfig) : List Member :=
  [.ofBool "gzip" c.gzip, .ofNat "min_bytes" c.minBytes]

/-- The limiter is a section inside a section. -/
def RateLimitConfig.entries (c : RateLimitConfig) : List Member :=
  [.ofBool "enabled" c.enabled, .ofNat "requests" c.requests, .ofNat "window_secs" c.windowSecs,
    .ofNat "ban_secs" c.banSecs]

/-- A member that is itself an object. -/
def Json.Member.ofEntries (key indent close : String) (entries : List Member) : Member :=
  .plain key (objectText indent close entries) (.object (members entries))

/-- It is indented further than the fields around it. -/
def SecurityConfig.entries (c : SecurityConfig) : List Member :=
  [.ofBool "enable_security_headers" c.enableSecurityHeaders,
    .ofEntries "rate_limit" "      " "    " c.rateLimit.entries,
    .ofStrings "blocked_patterns" c.blockedPatterns]

def TlsConfig.entries (c : TlsConfig) : List Member :=
  [.ofBool "enabled" c.enabled, .ofString "cert_path" c.certPath, .ofString "key_path" c.keyPath]

/-- The hash of the password is saved, the password is nowhere. -/
def AdminConfig.entries (c : AdminConfig) : List Member :=
  [.ofString "username" c.username, .ofString "password_sha256" c.passwordSha256]

def LoggingConfig.entries (c : LoggingConfig) : List Member :=
  [.ofString "level" c.level, .ofBool "access_log" c.accessLog]

/-- The pairs of `mime_overrides`; the keys are escaped as well. -/
def mimeEntries (pairs : List (String × String)) : List Member :=
  pairs.map fun pair => ⟨escapeJson pair.1, pair.1, "\"" ++ escapeJson pair.2 ++ "\"", .string pair.2⟩

/-- The sections, and last the overrides of media types, whose keys are not fixed. -/
def Config.entries (c : Config) : List Member :=
  [.ofEntries "server" "    " "  " c.server.entries,
    .ofEntries "static" "    " "  " c.staticFiles.entries,
    .ofEntries "compression" "    " "  " c.compression.entries,
    .ofEntries "security" "    " "  " c.security.entries,
    .ofEntries "tls" "    " "  " c.tls.entries,
    .ofEntries "admin" "    " "  " c.admin.entries,
    .ofEntries "logging" "    " "  " c.logging.entries,
    .plain "mime_overrides" (jsonStringObject c.mimeOverrides)
      (.object (members (mimeEntries c.mimeOverrides)))]

section Layout

-- the layout is compared character by character
set_option maxRecDepth 8000

/-- A section is written as an object with its fields on lines of their own. -/
theorem ServerConfig.write_eq (c : ServerConfig) :
    c.write = "  \"server\": " ++ objectText "    " "  " c.entries ++ ",\n" := by
  unfold write
  apply String.toList_inj.mp
  simp [entries, objectText, memberLines, Member.line, Member.ofString, Member.ofNat, Member.plain]

/-- The index files are an array on the line of their key. -/
theorem StaticConfig.write_eq (c : StaticConfig) :
    c.write = "  \"static\": " ++ objectText "    " "  " c.entries ++ ",\n" := by
  unfold write
  apply String.toList_inj.mp
  simp [entries, objectText, memberLines, Member.line, Member.ofString, Member.ofStrings,
    Member.ofBool, Member.plain]

theorem CompressionConfig.write_eq (c : CompressionConfig) :
    c.write = "  \"compression\": " ++ objectText "    " "  " c.entries ++ ",\n" := by
  unfold write
  apply String.toList_inj.mp
  simp [entries, objectText, memberLines, Member.line, Member.ofNat, Member.ofBool, Member.plain]

theorem RateLimitConfig.write_eq (c : RateLimitConfig) :
    c.write = "    \"rate_limit\": " ++ objectText "      " "    " c.entries ++ ",\n" := by
  unfold write
  apply String.toList_inj.mp
  simp [entries, objectText, memberLines, Member.line, Member.ofNat, Member.ofBool, Member.plain]

/-- The section inside is laid out first. -/
theorem SecurityConfig.write_eq (c : SecurityConfig) :
    c.write = "  \"security\": " ++ objectText "    " "  " c.entries ++ ",\n" := by
  unfold write
  rw [c.rateLimit.write_eq]
  apply String.toList_inj.mp
  simp [entries, Member.ofEntries, Member.ofStrings, Member.ofBool, Member.plain,
    objectText.eq_def "    ", memberLines, Member.line]

theorem TlsConfig.write_eq (c : TlsConfig) :
    c.write = "  \"tls\": " ++ objectText "    " "  " c.entries ++ ",\n" := by
  unfold write
  apply String.toList_inj.mp
  simp [entries, objectText, memberLines, Member.line, Member.ofString, Member.ofBool, Member.plain]

theorem AdminConfig.write_eq (c : AdminConfig) :
    c.write = "  \"admin\": " ++ objectText "    " "  " c.entries ++ ",\n" := by
  unfold write
  apply String.toList_inj.mp
  simp [entries, objectText, memberLines, Member.line, Member.ofString, Member.plain]

theorem LoggingConfig.write_eq (c : LoggingConfig) :
    c.write = "  \"logging\": " ++ objectText "    " "  " c.entries ++ ",\n" := by
  unfold write
  apply String.toList_inj.mp
  simp [entries, objectText, memberLines, Member.line, Member.ofString, Member.ofBool, Member.plain]

/-- A map of strings is laid out like a section, unless it is empty. -/
theorem jsonStringObject_eq {pairs : List (String × String)} (hne : pairs ≠ []) :
    jsonStringObject pairs = objectText "    " "  " (mimeEntries pairs) := by
  have hlines : String.intercalate "," (pairs.map fun pair =>
      "\n    \"" ++ escapeJson pair.1 ++ "\": \"" ++ escapeJson pair.2 ++ "\"") ++ "\n  \x7d" =
      memberLines "    " "  " (mimeEntries pairs) := by
    -- the induction is on the pairs, the last one closes the object
    induction pairs with
    | nil => exact (hne rfl).elim
    | cons pair pairs ih =>
      cases pairs with
      | nil =>
        apply String.toList_inj.mp
        simp [mimeEntries, memberLines, Member.line]
      | cons pair' pairs =>
        have htail := ih (by simp)
        rw [List.map_cons] at htail
        rw [List.map_cons, List.map_cons, String.intercalate_cons_cons, String.append_assoc, htail]
        apply String.toList_inj.mp
        simp [mimeEntries, memberLines, Member.line]
  rw [jsonStringObject, if_neg (by simpa using hne), String.append_assoc, hlines]
  rfl

/-- A configuration is written as an object of its sections. -/
theorem Config.toJsonString_eq (c : Config) :
    c.toJsonString = objectText "  " "" c.entries ++ "\n" := by
  unfold toJsonString
  rw [c.server.write_eq, c.staticFiles.write_eq, c.compression.write_eq, c.security.write_eq,
    c.tls.write_eq, c.admin.write_eq, c.logging.write_eq]
  apply String.toList_inj.mp
  simp [entries, Member.ofEntries, Member.plain, objectText.eq_def "  ", memberLines, Member.line]

end Layout

/-! ## The value of a written configuration -/

section Spelled

variable {levels : Nat}

/-- An object needs one level more than its members. -/
theorem spelled_ofEntries {key indent close : String} {entries : List Member}
    (hkey : escapeJson key = key) (hindent : Blank indent) (hclose : Blank close)
    (hne : entries ≠ []) (h : ∀ e ∈ entries, e.Spelled levels) :
    (Member.ofEntries key indent close entries).Spelled (levels + 1) :=
  ⟨quoted_plain hkey, spells_objectText hindent hclose hne h⟩

/-- No key of a section needs escapes, so every field is spelled as it is written. -/
theorem ServerConfig.spelled (c : ServerConfig) : ∀ e ∈ c.entries, e.Spelled levels := by
  simp only [entries, List.forall_mem_cons, List.not_mem_nil, false_implies, implies_true, and_true]
  exact ⟨spelled_ofString (by decide) _, spelled_ofNat (by decide) _, spelled_ofNat (by decide) _,
    spelled_ofNat (by decide) _, spelled_ofNat (by decide) _, spelled_ofNat (by decide) _,
    spelled_ofNat (by decide) _⟩

/-- The index files need a level. -/
theorem StaticConfig.spelled (c : StaticConfig) : ∀ e ∈ c.entries, e.Spelled (levels + 1) := by
  simp only [entries, List.forall_mem_cons, List.not_mem_nil, false_implies, implies_true, and_true]
  exact ⟨spelled_ofString (by decide) _, spelled_ofStrings (by decide) _,
    spelled_ofBool (by decide) _, spelled_ofBool (by decide) _⟩

theorem CompressionConfig.spelled (c : CompressionConfig) :
    ∀ e ∈ c.entries, e.Spelled levels := by
  simp only [entries, List.forall_mem_cons, List.not_mem_nil, false_implies, implies_true, and_true]
  exact ⟨spelled_ofBool (by decide) _, spelled_ofNat (by decide) _⟩

theorem RateLimitConfig.spelled (c : RateLimitConfig) : ∀ e ∈ c.entries, e.Spelled levels := by
  simp only [entries, List.forall_mem_cons, List.not_mem_nil, false_implies, implies_true, and_true]
  exact ⟨spelled_ofBool (by decide) _, spelled_ofNat (by decide) _, spelled_ofNat (by decide) _,
    spelled_ofNat (by decide) _⟩

/-- And so do the limiter and the patterns. -/
theorem SecurityConfig.spelled (c : SecurityConfig) :
    ∀ e ∈ c.entries, e.Spelled (levels + 1) := by
  simp only [entries, List.forall_mem_cons, List.not_mem_nil, false_implies, implies_true, and_true]
  exact ⟨spelled_ofBool (by decide) _,
    spelled_ofEntries (by decide) (by decide) (by decide) (List.cons_ne_nil _ _)
      c.rateLimit.spelled,
    spelled_ofStrings (by decide) _⟩

theorem TlsConfig.spelled (c : TlsConfig) : ∀ e ∈ c.entries, e.Spelled levels := by
  simp only [entries, List.forall_mem_cons, List.not_mem_nil, false_implies, implies_true, and_true]
  exact ⟨spelled_ofBool (by decide) _, spelled_ofString (by decide) _,
    spelled_ofString (by decide) _⟩

theorem AdminConfig.spelled (c : AdminConfig) : ∀ e ∈ c.entries, e.Spelled levels := by
  simp only [entries, List.forall_mem_cons, List.not_mem_nil, false_implies, implies_true, and_true]
  exact ⟨spelled_ofString (by decide) _, spelled_ofString (by decide) _⟩

theorem LoggingConfig.spelled (c : LoggingConfig) : ∀ e ∈ c.entries, e.Spelled levels := by
  simp only [entries, List.forall_mem_cons, List.not_mem_nil, false_implies, implies_true, and_true]
  exact ⟨spelled_ofString (by decide) _, spelled_ofBool (by decide) _⟩

/-- Here keys may need escapes, too. -/
theorem spelled_mimeEntries (pairs : List (String × String)) :
    ∀ e ∈ mimeEntries pairs, e.Spelled levels := by
  intro e he
  rcases List.mem_map.mp he with ⟨pair, _, rfl⟩
  exact ⟨quoted_escapeJson pair.1, (quoted_escapeJson pair.2).spells⟩

/-- A map reads back as its pairs. -/
theorem spells_jsonStringObject (pairs : List (String × String)) :
    Spells (levels + 1) (utf8 (jsonStringObject pairs)) (.object (members (mimeEntries pairs))) := by
  cases pairs with
  | nil =>
    -- an empty map is written without line breaks
    intro n rest _
    have htext : utf8 (jsonStringObject []) = [0x7b, 0x7d] := by decide
    rw [htext]
    rfl
  | cons pair pairs =>
    rw [jsonStringObject_eq (List.cons_ne_nil _ _)]
    exact spells_objectText (by decide) (by decide) (List.cons_ne_nil _ _)
      (spelled_mimeEntries _)

/-- Three levels are enough for a configuration, its own braces included. -/
theorem Config.spelled (c : Config) : ∀ e ∈ c.entries, e.Spelled (levels + 2) := by
  have hmime : escapeJson "mime_overrides" = "mime_overrides" := by decide
  have hsection : ∀ {key : String} {entries : List Member}, escapeJson key = key → entries ≠ [] →
      (∀ e ∈ entries, e.Spelled (levels + 1)) →
      (Member.ofEntries key "    " "  " entries).Spelled (levels + 2) :=
    fun hkey hne h => spelled_ofEntries hkey (by decide) (by decide) hne h
  simp only [entries, List.forall_mem_cons, List.not_mem_nil, false_implies, implies_true, and_true]
  exact ⟨hsection (by decide) (List.cons_ne_nil _ _) c.server.spelled,
    hsection (by decide) (List.cons_ne_nil _ _) c.staticFiles.spelled,
    hsection (by decide) (List.cons_ne_nil _ _) c.compression.spelled,
    hsection (by decide) (List.cons_ne_nil _ _) c.security.spelled,
    hsection (by decide) (List.cons_ne_nil _ _) c.tls.spelled,
    hsection (by decide) (List.cons_ne_nil _ _) c.admin.spelled,
    hsection (by decide) (List.cons_ne_nil _ _) c.logging.spelled,
    ⟨quoted_plain hmime, spells_jsonStringObject _⟩⟩

/-- The value of a written configuration. -/
def Config.toJson (c : Config) : JsonValue := .object (members c.entries)

/-- The parser accepts every written configuration. -/
theorem Config.parse_toJsonString (c : Config) : Json.parse c.toJsonString = .ok c.toJson := by
  rw [c.toJsonString_eq]
  exact parse_of_spells
    (spells_objectText (by decide) (by decide) (List.cons_ne_nil _ _) c.spelled)
    (by decide) (ends_cons (by decide))

end Spelled

/-! ## Reading it back -/

/-- The numbers of a configuration. -/
def Config.numbers (c : Config) : List Nat :=
  [c.server.port, c.server.workerThreads, c.server.maxConnections, c.server.keepAliveSecs,
    c.server.readTimeoutSecs, c.server.requestMaxBytes, c.compression.minBytes,
    c.security.rateLimit.requests, c.security.rateLimit.windowSecs, c.security.rateLimit.banSecs]

/-- The numbers fit the types of their fields, as far as these are narrower than `u64`. -/
structure Config.InRange (t : Target) (c : Config) : Prop where
  port : c.server.port < 0x10000
  workerThreads : c.server.workerThreads < t.modulus
  maxConnections : c.server.maxConnections < t.modulus
  requestMaxBytes : c.server.requestMaxBytes < t.modulus
  minBytes : c.compression.minBytes < t.modulus

section Reading

variable {t : Target} {path : String} {α : Type} {v : JsonValue}

section Members

variable {obj : JsonValue} {key : String} {n values : Nat}

/-- A string that is there replaces the default. -/
theorem readString_of_get {s slot : String} (h : obj.get key = some (.string s)) :
    readString obj key slot path = .ok s := by
  rw [readString, readSlot, h]
  rfl

/-- And so does a switch. -/
theorem readBool_of_get {b slot : Bool} (h : obj.get key = some (.bool b)) :
    readBool obj key slot path = .ok b := by
  rw [readBool, readSlot, h]
  rfl

/-- A whole number has the type that its field asks for. -/
theorem typed_whole (h : Whole n) :
    typed JsonValue.asU64 (.number (Binary64.ofNat n)) path = .ok n := by
  rw [typed, h]

theorem readU64_of_get {slot : Nat} (hwhole : Whole n)
    (h : obj.get key = some (.number (Binary64.ofNat n))) :
    readU64 obj key slot path = .ok n := by
  rw [readU64, readSlot, h]
  exact typed_whole hwhole

/-- And it passes the check of its bound, if it is below it. -/
theorem bounded_whole {reason : String} (hwhole : Whole n) (h : n < values) :
    bounded values reason (.number (Binary64.ofNat n)) path = .ok n := by
  rw [bounded, typed_whole hwhole, Outcome.except_ok_bind, if_neg (by omega)]

/-- A field of the width of the machine. -/
theorem readUsize_of_get {slot : Nat} (hwhole : Whole n) (hlt : n < t.modulus)
    (h : obj.get key = some (.number (Binary64.ofNat n))) :
    readUsize t obj key slot path = .ok n := by
  rw [readUsize, readSlot, h]
  exact bounded_whole hwhole hlt

/-- The port, of sixteen bits. -/
theorem readU16_of_get {slot : Nat} (hwhole : Whole n) (hlt : n < 0x10000)
    (h : obj.get key = some (.number (Binary64.ofNat n))) :
    readU16 obj key slot path = .ok n := by
  rw [readU16, readSlot, h]
  exact bounded_whole hwhole hlt

/-- The index of an item is for error messages only. -/
theorem readItems_strings (path : String) (items : List String) : ∀ i,
    readItems path i (items.map .string) = .ok items := by
  induction items with
  | nil => intro i; rfl
  | cons s items ih =>
    intro i
    simp only [List.map_cons, readItems, typed, JsonValue.asStr, ih]
    rfl

theorem readStrings_of_get {items slot : List String}
    (h : obj.get key = some (.array (items.map .string))) :
    readSlot readStringArray obj key slot path = .ok items := by
  rw [readSlot, h]
  exact readItems_strings _ items 0

/-- The pairs come back in their order. -/
theorem readMembers_mimeEntries (path : String) (pairs : List (String × String)) :
    readMembers path (members (mimeEntries pairs)) = .ok pairs := by
  induction pairs with
  | nil => rfl
  | cons pair pairs ih =>
    simp only [mimeEntries, members, List.map_map, List.map_cons, Function.comp_def] at ih ⊢
    simp only [readMembers, typed, JsonValue.asStr, ih]
    rfl

/-- A section that is there is read over its defaults. -/
theorem readSection_of_get {read : JsonValue → α → Except ConfigError α} {slot a : α}
    (h : obj.get key = some v) (hread : read v slot = .ok a) :
    readSection read obj key slot = .ok a := by
  rw [readSection, h]
  exact hread

end Members

/-- Every field of the section is found under its key, whatever the defaults were. -/
theorem readServer_entries {c cfg : ServerConfig} (hport : c.port < 0x10000)
    (hworkers : c.workerThreads < t.modulus) (hconns : c.maxConnections < t.modulus)
    (hmax : c.requestMaxBytes < t.modulus)
    (hwhole : ∀ n ∈ [c.port, c.workerThreads, c.maxConnections, c.keepAliveSecs,
      c.readTimeoutSecs, c.requestMaxBytes], Whole n) :
    readServer t (.object (members c.entries)) cfg = .ok c := by
  simp only [List.forall_mem_cons] at hwhole
  -- field by field, in the order of the reader
  rcases hwhole with ⟨hport', hworkers', hconns', hkeep, htimeout, hmax', _⟩
  refine Outcome.except_bind_ok (readString_of_get rfl) ?_
  refine Outcome.except_bind_ok (readU16_of_get hport' hport rfl) ?_
  refine Outcome.except_bind_ok (readUsize_of_get hworkers' hworkers rfl) ?_
  refine Outcome.except_bind_ok (readUsize_of_get hconns' hconns rfl) ?_
  refine Outcome.except_bind_ok (readU64_of_get hkeep rfl) ?_
  refine Outcome.except_bind_ok (readU64_of_get htimeout rfl) ?_
  exact Outcome.except_bind_ok (readUsize_of_get hmax' hmax rfl) rfl

theorem readStatic_entries {c cfg : StaticConfig} :
    readStatic (.object (members c.entries)) cfg = .ok c := by
  refine Outcome.except_bind_ok (readString_of_get rfl) ?_
  refine Outcome.except_bind_ok (readBool_of_get rfl) ?_
  refine Outcome.except_bind_ok (readBool_of_get rfl) ?_
  exact Outcome.except_bind_ok (readStrings_of_get rfl) rfl

/-- The only number here has the width of the machine. -/
theorem readCompression_entries {c cfg : CompressionConfig} (hmin : c.minBytes < t.modulus)
    (hwhole : Whole c.minBytes) :
    readCompression t (.object (members c.entries)) cfg = .ok c := by
  refine Outcome.except_bind_ok (readBool_of_get rfl) ?_
  exact Outcome.except_bind_ok (readUsize_of_get hwhole hmin rfl) rfl

theorem readRateLimit_entries {c cfg : RateLimitConfig}
    (hwhole : ∀ n ∈ [c.requests, c.windowSecs, c.banSecs], Whole n) :
    readRateLimit (.object (members c.entries)) cfg = .ok c := by
  simp only [List.forall_mem_cons] at hwhole
  rcases hwhole with ⟨hrequests, hwindow, hban, _⟩
  refine Outcome.except_bind_ok (readBool_of_get rfl) ?_
  refine Outcome.except_bind_ok (readU64_of_get hrequests rfl) ?_
  refine Outcome.except_bind_ok (readU64_of_get hwindow rfl) ?_
  exact Outcome.except_bind_ok (readU64_of_get hban rfl) rfl

/-- The limiter comes before the patterns. -/
theorem readSecurity_entries {c cfg : SecurityConfig}
    (hwhole : ∀ n ∈ [c.rateLimit.requests, c.rateLimit.windowSecs, c.rateLimit.banSecs],
      Whole n) :
    readSecurity (.object (members c.entries)) cfg = .ok c := by
  refine Outcome.except_bind_ok (readBool_of_get rfl) ?_
  refine Outcome.except_bind_ok (readSection_of_get rfl (readRateLimit_entries hwhole)) ?_
  exact Outcome.except_bind_ok (readStrings_of_get rfl) rfl

theorem readTls_entries {c cfg : TlsConfig} : readTls (.object (members c.entries)) cfg = .ok c := by
  refine Outcome.except_bind_ok (readBool_of_get rfl) ?_
  refine Outcome.except_bind_ok (readString_of_get rfl) ?_
  exact Outcome.except_bind_ok (readString_of_get rfl) rfl

theorem readAdmin_entries {c cfg : AdminConfig} :
    readAdmin (.object (members c.entries)) cfg = .ok c := by
  refine Outcome.except_bind_ok (readString_of_get rfl) ?_
  exact Outcome.except_bind_ok (readString_of_get rfl) rfl

theorem readLogging_entries {c cfg : LoggingConfig} :
    readLogging (.object (members c.entries)) cfg = .ok c := by
  refine Outcome.except_bind_ok (readString_of_get rfl) ?_
  exact Outcome.except_bind_ok (readBool_of_get rfl) rfl

/-- The schema reader inverts the writer's value. -/
theorem Config.readJson_toJson {c : Config} (hrange : c.InRange t)
    (hwhole : ∀ n ∈ c.numbers, Whole n) : readJson t c.toJson = .ok c := by
  simp only [numbers, List.forall_mem_cons, List.not_mem_nil, false_implies, implies_true,
    and_true] at hwhole
  rcases hwhole with ⟨hport, hworkers, hconns, hkeep, htimeout, hmax, hmin, hrequests, hwindow,
    hban⟩
  have hserver : readServer t (.object (members c.server.entries)) .default = .ok c.server := by
    apply readServer_entries hrange.port hrange.workerThreads hrange.maxConnections
      hrange.requestMaxBytes
    simp [hport, hworkers, hconns, hkeep, htimeout, hmax]
  have hsecurity : readSecurity (.object (members c.security.entries)) .default =
      .ok c.security := by
    apply readSecurity_entries
    simp [hrequests, hwindow, hban]
  -- section by section; only two of them have numbers that may be out of range
  refine Outcome.except_bind_ok (readSection_of_get rfl hserver) ?_
  refine Outcome.except_bind_ok (readSection_of_get rfl readStatic_entries) ?_
  refine Outcome.except_bind_ok
    (readSection_of_get rfl (readCompression_entries hrange.minBytes hmin)) ?_
  refine Outcome.except_bind_ok (readSection_of_get rfl hsecurity) ?_
  refine Outcome.except_bind_ok (readSection_of_get rfl readTls_entries) ?_
  refine Outcome.except_bind_ok (readSection_of_get rfl readAdmin_entries) ?_
  refine Outcome.except_bind_ok (readSection_of_get rfl readLogging_entries) ?_
  exact Outcome.except_bind_ok (readSection_of_get rfl (readMembers_mimeEntries _ _)) rfl

/-- Loading a saved configuration, when every number is read back from its float. -/
theorem Config.load_toJsonString {c : Config} (hvalid : c.validate = .ok ())
    (hrange : c.InRange t) (hwhole : ∀ n ∈ c.numbers, Whole n) :
    fromJsonStr t c.toJsonString = .ok c := by
  -- the text parses to an object, so the schema reader decides
  simp only [fromJsonStr, c.parse_toJsonString, fromJson]
  show (readJson t c.toJson >>= fun c => c.validate >>= fun _ => .ok c) = .ok c
  rw [readJson_toJson hrange hwhole, Outcome.except_ok_bind, hvalid]
  rfl

end Reading

/-- A valid configuration with numbers up to `2 ^ 53` is what is loaded from its text. -/
theorem Config.fromJsonStr_toJsonString (t : Target) (c : Config) (hvalid : c.validate = .ok ())
    (hrange : c.InRange t) (hnumbers : ∀ n ∈ c.numbers, n ≤ 2 ^ 53) :
    fromJsonStr t c.toJsonString = .ok c :=
  Config.load_toJsonString hvalid hrange fun n hn => whole_of_le (hnumbers n hn)

/-- The default configuration, with a root directory that needs escapes. -/
theorem Config.fromJsonStr_toJsonString_quoted :
    fromJsonStr ⟨.w64, true⟩ { Config.default with
      staticFiles := { StaticConfig.default with root := "a\"b\\c\n😀" } }.toJsonString =
    .ok { Config.default with
      staticFiles := { StaticConfig.default with root := "a\"b\\c\n😀" } } :=
  Config.fromJsonStr_toJsonString _ _ (by decide) ⟨by decide, by decide, by decide, by decide,
    by decide⟩ (by decide)

end FerroHttp
