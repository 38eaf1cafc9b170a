import FerroHttp.Lib.Exec
import FerroHttp.Lib.Search
import FerroHttp.Lib.Numeral
import FerroHttp.Lib.Text
import FerroHttp.Lib.Percent
import FerroHttp.Lib.Split
import FerroHttp.Lib.Decimal
import FerroHttp.Lib.Gregorian
import FerroHttp.Lib.Proleptic
import FerroHttp.Lib.Binary64
import FerroHttp.Lib.Rounding
import FerroHttp.Lib.Interleave
import FerroHttp.Lib.Adders
import FerroHttp.Lib.Table
import FerroHttp.Lib.FileTree
import FerroHttp.Http.Message
import FerroHttp.Http.Request
import FerroHttp.Http.Date
import FerroHttp.Http.Mime
import FerroHttp.Http.Response
import FerroHttp.Http.Conditional
import FerroHttp.Http.EntityTags
import FerroHttp.Http.Ranges
import FerroHttp.Http.RangeForms
import FerroHttp.Http.Resumption
import FerroHttp.Http.Calendar
import FerroHttp.Http.UnixTime
import FerroHttp.Http.DateReading
import FerroHttp.Http.Target
import FerroHttp.Parser.Lines
import FerroHttp.Parser.Chunks
import FerroHttp.Parser.Verdict
import FerroHttp.Parser.Grammar
import FerroHttp.Parser.Buffering
import FerroHttp.Parser.Framing
import FerroHttp.Parser.Permanence
import FerroHttp.Parser.Safety
import FerroHttp.Parser.Soundness
import FerroHttp.Parser.Expectations
import FerroHttp.Parser.Injection
import FerroHttp.Parser.ChunkEncoding
import FerroHttp.Parser.Rendering
import FerroHttp.Conn
import FerroHttp.Conn.Session
import FerroHttp.Conn.Responses
import FerroHttp.Conn.Persistence
import FerroHttp.Conn.Interim
import FerroHttp.Embedded
import FerroHttp.Embedded.Close
import FerroHttp.Conn.Progress
import FerroHttp.Transport
import FerroHttp.Transport.Output
import FerroHttp.Conn.Refusal
import FerroHttp.Transport.EndOfStream
import FerroHttp.Transport.EventLoop
import FerroHttp.Transport.Lifecycle
import FerroHttp.Transport.Refinement
import FerroHttp.Transport.Tls
import FerroHttp.Embedded.HalfClose
import FerroHttp.Embedded.ServeLoop
import FerroHttp.Router
import FerroHttp.Router.Matching
import FerroHttp.Security
import FerroHttp.Security.Reference
import FerroHttp.Security.Isolation
import FerroHttp.Security.FewPeers
import FerroHttp.Security.RateBound
import FerroHttp.Security.Promise
import FerroHttp.StaticFiles
import FerroHttp.StaticFiles.Containment
import FerroHttp.StaticFiles.FsAssets
import FerroHttp.StaticFiles.Tree
import FerroHttp.Compress
import FerroHttp.Compress.Gzip
import FerroHttp.App
import FerroHttp.App.PartialContent
import FerroHttp.App.Discovery
import FerroHttp.App.Revalidation
import FerroHttp.App.Validators
import FerroHttp.App.HeadMirror
import FerroHttp.App.Answers
import FerroHttp.App.Files
import FerroHttp.App.Compression
import FerroHttp.Embedded.StaticRouter
import FerroHttp.Json
import FerroHttp.Json.Total
import FerroHttp.Json.Reading
import FerroHttp.Json.Writing
import FerroHttp.Json.Complete
import FerroHttp.Json.Strict
import FerroHttp.Json.LeadingZeros
import FerroHttp.Json.Visible
import FerroHttp.Json.Parser
import FerroHttp.Json.Positions
import FerroHttp.Json.Bounds
import FerroHttp.Config
import FerroHttp.Config.RoundTrip
import FerroHttp.Config.Schema
import FerroHttp.Config.Integers
import FerroHttp.Config.Saving
import FerroHttp.Startup
import FerroHttp.App.Queries
import FerroHttp.App.AccessLog
import FerroHttp.Server
import FerroHttp.Embedded.Firmware
import FerroHttp.WebUi.Sha256
import FerroHttp.WebUi.Admin
import FerroHttp.WebUi.Reload
import FerroHttp.WebUi.Agreement
import FerroHttp.WebUi.Serial
import FerroHttp.WebUi.Replies
import FerroHttp.Lib.Base64
import FerroHttp.Lib.Bits
import FerroHttp.Lib.Sha2
import FerroHttp.Lib.Crc
import FerroHttp.Lib.Cursor
import FerroHttp.WebUi.BasicAuth
import FerroHttp.WebUi.Digest
import FerroHttp.App.Probing
import FerroHttp.WebUi.Stats
import FerroHttp.WebUi.Service
