import HttpNu.Library.MultiMap
import HttpNu.Library.EventStream
import HttpNu.Library.Channel
import HttpNu.Library.Runs
import HttpNu.Library.Debounce
import HttpNu.Library.Log
import HttpNu.Library.Codec
import HttpNu.Library.Broadcast
import HttpNu.Library.Memo
import HttpNu.Library.DatedStore
import HttpNu.Library.Html
import HttpNu.Library.Template
import HttpNu.Library.UriReference
import HttpNu.Library.FormUrlEncoded
import HttpNu.Text
import HttpNu.Http
import HttpNu.Value
import HttpNu.Request.Address
import HttpNu.Request.TrustedIp
import HttpNu.Request.RequestValue
import HttpNu.Response
import HttpNu.JsonEncoding
import HttpNu.Logging
import HttpNu.Worker
import HttpNu.Compression
import HttpNu.Engine
import HttpNu.Serve
import HttpNu.Store.TopicWatch
import HttpNu.Bus
import HttpNu.Commands.Sse
import HttpNu.Commands.Md
import HttpNu.Commands.Templates
import HttpNu.Commands.TemplateCache
import HttpNu.Stdlib.Html
import HttpNu.Stdlib.HtmlTemplate
import HttpNu.Stdlib.HtmlFlow
import HttpNu.Stdlib.Router
import HttpNu.Stdlib.MountRedirect
import HttpNu.Stdlib.Cookies
import HttpNu.Handler.StreamBody
import HttpNu.Handler.BodyClient
import HttpNu.Handler.BodyFlow
import HttpNu.Handler.NormalResponse
import HttpNu.Handler.ContentCoding
import HttpNu.Handler.Handle
import HttpNu.Handler.AccessLog
import HttpNu.Handler.Answer
import HttpNu.Handler.ProxyTarget
import HttpNu.Request.TrustChain
import HttpNu.Serve.StdinSource
import HttpNu.Serve.Shutdown
import HttpNu.Serve.FileSource
import HttpNu.Serve.Lifecycle
import HttpNu.Compression.PollNext
import HttpNu.Handler.ContentType
import HttpNu.Handler.HeaderOrder
import HttpNu.Handler.Status
import HttpNu.Library.JsString
import HttpNu.Library.StartTag
import HttpNu.Library.ScriptElement
import HttpNu.Bus.Glob
import HttpNu.Bus.Recv
import HttpNu.Commands.SseDecode
import HttpNu.Handler.LiveEvents
import HttpNu.Stdlib.Datastar
import HttpNu.Stdlib.DatastarScript
import HttpNu.Stdlib.ScriptAttributes
import HttpNu.Stdlib.PathMatches
import HttpNu.Stdlib.Route
import HttpNu.Commands.ReverseProxy
import HttpNu.Handler.ProxyUpload
import HttpNu.Handler.Echo
import HttpNu.Handler.ProxyHeaders
import HttpNu.Handler.StaticPath
import HttpNu.Handler.ProxyChain
import HttpNu.Handler.HeaderLines
import HttpNu.Stdlib.CookieSet
import HttpNu.Stdlib.CookieText
import HttpNu.Stdlib.CookieSession
import HttpNu.Commands.TemplateThreads
import HttpNu.Handler.JsonLines
import HttpNu.Logging.Events
import HttpNu.Logging.Human
import HttpNu.Logging.Truncate
import HttpNu.Logging.Ledger
import HttpNu.Logging.InFlight
import HttpNu.Logging.Lines
import HttpNu.Handler.LogTrail
import HttpNu.Logging.TokenBucket
import HttpNu.Logging.Jsonl
