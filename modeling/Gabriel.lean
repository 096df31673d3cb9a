import Gabriel.Lib.Text
import Gabriel.Lib.SortedMap
import Gabriel.Lib.Utf8
import Gabriel.Lib.FormUrlencoded
import Gabriel.Lib.UrlText
import Gabriel.Lib.Visit
import Gabriel.Lib.Template
import Gabriel.Lib.Fallible
import Gabriel.Lib.Orbit
import Gabriel.Lib.LastWrite
import Gabriel.Lib.Replace
import Gabriel.Lib.ReplaceOrder
import Gabriel.Lib.Markup
import Gabriel.Core.Numbers
import Gabriel.Core.Model
import Gabriel.Core.Vars
import Gabriel.Core.Redactor
import Gabriel.Core.Sse
import Gabriel.Core.Json
import Gabriel.Core.Jsonpath
import Gabriel.Core.Capture
import Gabriel.Engine.Session
import Gabriel.Engine.Body
import Gabriel.Engine.Captures
import Gabriel.Engine.Http
import Gabriel.Engine.Executor
import Gabriel.Engine.Stream
import Gabriel.Engine.Websocket
import Gabriel.Engine.Assertion
import Gabriel.Proxy.Store
import Gabriel.Proxy.Relay
import Gabriel.Proxy.Serve
import Gabriel.Proxy.Processes
import Gabriel.Cli.RequestPath
import Gabriel.Cli.Collection
import Gabriel.Cli.Run
import Gabriel.Cli.Promote
import Gabriel.Cli.Login
import Gabriel.Cli.Output
import Gabriel.Cli.Live
import Gabriel.Cli.Report
import Gabriel.Cli.Support
import Gabriel.Proofs.FieldMap
import Gabriel.Proofs.Vars
import Gabriel.Proofs.PercentDecode
import Gabriel.Proofs.Promote
import Gabriel.Proofs.PromoteBody
import Gabriel.Proofs.PromoteUrl
import Gabriel.Proofs.Captures
import Gabriel.Proofs.Session
import Gabriel.Proofs.Jar
import Gabriel.Proofs.IpLiteral
import Gabriel.Proofs.IsoText
import Gabriel.Proofs.InstantParts
import Gabriel.Proofs.InstantZones
import Gabriel.Proofs.InstantText
import Gabriel.Proofs.Store
import Gabriel.Proofs.TornLog
import Gabriel.Proofs.Preparation
import Gabriel.Proofs.Chain
import Gabriel.Proofs.Redirects
import Gabriel.Proofs.Report
import Gabriel.Proofs.SessionCookies
import Gabriel.Proofs.HopCookies
import Gabriel.Proofs.Tokens
import Gabriel.Proofs.Consent
import Gabriel.Proofs.PromoteRun
import Gabriel.Proofs.PromoteDone
import Gabriel.Proofs.AllOrNothing
import Gabriel.Proofs.Overwrite
import Gabriel.Proofs.Retarget
import Gabriel.Proofs.RequestPath
import Gabriel.Proofs.VaultNames
import Gabriel.Proofs.Redactor
import Gabriel.Proofs.OutputSecrets
import Gabriel.Proofs.OutputCuts
import Gabriel.Proofs.HeaderMasks
import Gabriel.Proofs.Live
import Gabriel.Proofs.JunitTree
import Gabriel.Proofs.JunitDocument
import Gabriel.Proofs.HtmlPage
import Gabriel.Proofs.ReportSecrets
import Gabriel.Proofs.Scope
import Gabriel.Proofs.Destination
import Gabriel.Proofs.HandedBack
import Gabriel.Proofs.GivenCookies
import Gabriel.Proofs.Writers
import Gabriel.Proofs.Unlinked
import Gabriel.Engine.SessionFile
import Gabriel.Proofs.SessionFile
import Gabriel.Cli.KeptSessions
import Gabriel.Proofs.KeptSessions
import Gabriel.Proofs.OneOfEach
import Gabriel.Core.Instant
import Gabriel.Lib.Calendar
import Gabriel.Lib.MachineInt
import Gabriel.Proofs.Instant
import Gabriel.Lib.FileWrite
import Gabriel.Vault.Store
import Gabriel.Cli.Bundle
import Gabriel.Cli.CaptureSummary
import Gabriel.Cli.HarExport
import Gabriel.Engine.Callback
import Gabriel.Proofs.HarExport
import Gabriel.Proofs.CaptureSummary
import Gabriel.Proofs.Callback
import Gabriel.Proofs.VaultFault
import Gabriel.Proofs.Bundle
import Gabriel.Lib.EventStream
import Gabriel.Proofs.SseChunks
import Gabriel.Proofs.SseMessages
import Gabriel.Proofs.Resolve
import Gabriel.Proofs.UsedSecrets
import Gabriel.Proofs.ResolveMap
import Gabriel.Engine.ClientPool
import Gabriel.Proofs.ClientPool
import Gabriel.Lib.Shell
import Gabriel.Lib.Curl
import Gabriel.Lib.Http
import Gabriel.Proofs.Codegen
import Gabriel.Proofs.CurlRequest
import Gabriel.Lib.Ansi
import Gabriel.Proofs.TerminalOutput
import Gabriel.Cli.Inspect
import Gabriel.Proofs.TerminalLeaks
import Gabriel.Cli.Ledger
import Gabriel.Proofs.Ledger
import Gabriel.Proofs.Handshake
import Gabriel.Proofs.PromotedCredentials
import Gabriel.Proofs.SseFinish
import Gabriel.Proofs.StreamLimits
import Gabriel.Lib.Entries
import Gabriel.Core.JsonEq
import Gabriel.Core.Diff
import Gabriel.Proofs.Diff
import Gabriel.Engine.ResponseDiff
import Gabriel.Proofs.HeaderValues
import Gabriel.Proofs.ResponseDiff
import Gabriel.Proofs.Jsonpath
import Gabriel.Proofs.PathText
import Gabriel.Proofs.DiffPaths
import Gabriel.Proofs.Assertion
import Gabriel.Proofs.Collection
import Gabriel.Engine.Oauth
import Gabriel.Proofs.Decoders
import Gabriel.Proofs.AuthorizeUrl
import Gabriel.Proofs.HarForm
import Gabriel.Proofs.CaptureById
import Gabriel.Proofs.CallbackReads
import Gabriel.Proofs.JwtExpiry
import Gabriel.Proofs.Lifetimes
import Gabriel.Proofs.FindToken
import Gabriel.Lib.StableSort
import Gabriel.Lib.Base64
import Gabriel.Proofs.HarRoundTrip
import Gabriel.Proofs.HarSizes
import Gabriel.Proofs.HarCookies
import Gabriel.Proofs.CivilDays
import Gabriel.Proofs.FreshPaths
import Gabriel.Lib.Scan
import Gabriel.Cli.Scrub
import Gabriel.Proofs.Scrub
import Gabriel.Proofs.ScrubMarks
import Gabriel.Lib.JsonText
import Gabriel.Cli.ErrorLog
import Gabriel.Proofs.ErrorLog
import Gabriel.Cli.CrashReport
import Gabriel.Proofs.CrashReport
import Gabriel.Cli.RedactToml
import Gabriel.Proofs.RedactToml
import Gabriel.Proofs.ScrubValue
import Gabriel.Proofs.Labelled
import Gabriel.Proofs.WireSecrets
import Gabriel.Proxy.Ca
import Gabriel.Proofs.Authority
import Gabriel.Engine.OauthFlow
import Gabriel.Proofs.SignIn
import Gabriel.Proofs.Recorded
import Gabriel.Cli.Discover
import Gabriel.Proofs.Discover
