import FerroHttp.Lib.Text

/-!
# Http.Mime — extension-to-MIME resolution

The configured overrides win over the built-in table.
-/

namespace FerroHttp

open Text

def builtinMime (ext : String) : String :=
  match lowercase ext with
  | "html" | "htm" => "text/html; charset=utf-8"
  | "css" => "text/css; charset=utf-8"
  | "js" | "mjs" => "text/javascript; charset=utf-8"
  | "json" => "application/json"
  | "txt" => "text/plain; charset=utf-8"
  | "csv" => "text/csv; charset=utf-8"
  | "xml" => "application/xml"
  | "svg" => "image/svg+xml"
  | "png" => "image/png"
  | "jpg" | "jpeg" => "image/jpeg"
  | "gif" => "image/gif"
  | "webp" => "image/webp"
  | "ico" => "image/x-icon"
  | "woff" => "font/woff"
  | "woff2" => "font/woff2"
  | "ttf" => "font/ttf"
  | "pdf" => "application/pdf"
  | "zip" => "application/zip"
  | "gz" => "application/gzip"
  | "wasm" => "application/wasm"
  | "mp4" => "video/mp4"
  | "mp3" => "audio/mpeg"
  | _ => "application/octet-stream"

/-- The MIME type of a file name; overrides are keyed by dotted extension. -/
def mimeFor (name : String) (overrides : List (String × String)) : String :=
  let dotted := fromLast '.' name
  let chosen :=
    if dotted = "" then none
    else overrides.find? fun o => eqIgnoreAsciiCase (utf8 o.1) (utf8 dotted)
  match chosen with
  | some o => o.2
  | none => builtinMime ((stripPrefix "." dotted).getD "")

end FerroHttp
