import FerroHttp.Http.Date
import FerroHttp.Http.Mime
import FerroHttp.Http.Response

/-!
# StaticFiles — static file serving

Path safety is lexical: percent-decode, then reject `..`, backslashes and control
bytes. The asset source is arbitrary.
-/

namespace FerroHttp

open Text

/-- A loaded static asset, with its modification time if the source has one. -/
structure Asset where
  bytes : Bytes
  mtime : Option Nat
deriving DecidableEq, Repr

/-- Supplies assets for relative paths; `existsAt` is the probe without the bytes. -/
structure AssetSource where
  load : String → Option Asset
  existsAt : String → Bool

/-! ## Paths -/

def hexDigitValue (b : UInt8) : Option UInt8 :=
  if 0x30 ≤ b && b ≤ 0x39 then some (b - 0x30)
  else if 0x61 ≤ b && b ≤ 0x66 then some (b - 0x61 + 10)
  else if 0x41 ≤ b && b ≤ 0x46 then some (b - 0x41 + 10)
  else none

/-- Decode the `%XX` escapes of a byte string. -/
def percentDecodeBytes : Bytes → Option Bytes
  | [] => some []
  | b :: rest =>
    if b == 0x25 then
      match rest with
      | hi :: lo :: rest => do
        let hi ← hexDigitValue hi
        let lo ← hexDigitValue lo
        let out ← percentDecodeBytes rest
        some ((hi * 16 + lo) :: out)
      | _ => none
    else do
      let out ← percentDecodeBytes rest
      some (b :: out)

/-- Decode `%XX` escapes; `none` on a malformed escape or on what is not UTF-8. -/
def percentDecode (input : String) : Option String := do
  fromUtf8 (← percentDecodeBytes (utf8 input))

/-- A segment with a control byte or a backslash. -/
def isBadSegment (segment : String) : Bool := (utf8 segment).any fun b => b < 0x20 || b == 0x5c

/-- Empty and `.` segments are dropped, `..` and bad ones refuse the path. -/
def sanitizeSegments : List String → Option (List String)
  | [] => some []
  | segment :: rest =>
    if segment = "" ∨ segment = "." then sanitizeSegments rest
    else if segment = ".." then none
    else if isBadSegment segment then none
    else (sanitizeSegments rest).map (segment :: ·)

/-- The safe segments of a decoded path. -/
def sanitize (decoded : String) : Option (List String) := sanitizeSegments (split '/' decoded)

/-- The relative paths to try, in order. -/
def candidatePaths (path : String) (indexFiles : List String) : Option (List String) := do
  let decoded ← percentDecode path
  let segments ← sanitize decoded
  let base := String.intercalate "/" segments
  let isDirectory := segments.isEmpty || decoded.toList.getLast? == some '/'
  if isDirectory then
    some (indexFiles.map fun index => if base.isEmpty then index else base ++ "/" ++ index)
  else some [base]

/-! ## Responses -/

/-- A strong validator from the asset's length and modification time. -/
def etag (len mtime : Nat) : String := "\"" ++ hex len ++ "-" ++ hex mtime ++ "\""

/-- The validators of an asset that has a modification time. -/
def withValidators (asset : Asset) (response : Response) : Response :=
  match asset.mtime with
  | some mtime => (response.withHeader "Last-Modified" (httpDate mtime)).withHeader "ETag"
      (etag asset.bytes.length mtime)
  | none => response

/-- The `200` for an asset. -/
def fileResponse (name : String) (asset : Asset) (mimeOverrides : List (String × String)) :
    Response :=
  let response := ((Response.new ⟨200⟩).withHeader "Content-Type"
    (mimeFor name mimeOverrides)).withHeader "Accept-Ranges" "bytes"
  { withValidators asset response with body := asset.bytes }

/-- The first candidate that the source has, with its name. -/
def firstAsset (assets : AssetSource) : List String → Option (String × Asset)
  | [] => none
  | candidate :: rest =>
    match assets.load candidate with
    | some asset => some (candidate, asset)
    | none => firstAsset assets rest

/-- Serve the asset a request path addresses. -/
def serveStatic (path : String) (indexFiles : List String) (assets : AssetSource)
    (mimeOverrides : List (String × String)) : Option Response := do
  let candidates ← candidatePaths path indexFiles
  let (name, asset) ← firstAsset assets candidates
  some (fileResponse name asset mimeOverrides)

/-- Whether the path resolves to an existing asset. -/
def staticExists (path : String) (indexFiles : List String) (assets : AssetSource) : Bool :=
  match candidatePaths path indexFiles with
  | some candidates => candidates.any assets.existsAt
  | none => false

end FerroHttp
