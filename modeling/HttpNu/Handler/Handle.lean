import HttpNu.Compression
import HttpNu.Handler.NormalResponse
import HttpNu.Request.TrustedIp

/-! `handle`: from a request to a response, with the access events on the way. -/

namespace HttpNu.Handler

open Text Library Http Request Response Worker Logging

/-- What an `await` gives, unless the future is dropped there. -/
inductive Awaited (α : Type) where
  | ready (value : α)
  | aborted

structure Parts where
  version : Str
  method : Str
  uri : Uri
  headers : HeaderMap

structure AppConfig (Net : Type) where
  trustedProxies : List Net
  datastar : Bool

structure StaticRequest where
  uri : Uri
  method : Str
  headers : HeaderMap

/-- A response of `ServeDir`, and how the collecting of its body ends. -/
structure StaticResponse where
  status : UInt16
  headers : HeaderMap
  collected : Awaited (Except Str Bytes)

structure ProxyRequest where
  uri : Uri
  method : Str
  headers : HeaderMap
  body : Bytes

/-- What the handler calls outside the repository; errors are their texts. -/
structure World (Net : Type) where
  rendering : Rendering
  contains : Net → IpAddr → Bool
  decodeAccept : List Http.HeaderValue → Option Compression.AcceptEncoding
  compressFull : Bytes → Except Str Bytes
  encoder : Encoder
  parseQuery : Str → List (Str × Str)
  serializeQuery : List (Str × Str) → Str
  parseUri : Str → Except Str Uri
  joinPath : Str → Str → Str
  serveDir : Str → Option Str → StaticRequest → Awaited (Except Str StaticResponse)
  forward : ProxyRequest → Awaited (Except Str (UInt16 × HeaderMap))
  datastarJs : Bytes
  datastarJsBrotli : Bytes

/-- How the evaluation goes for a request: the run of the closure, and whether the client is gone first. -/
structure Evaluation where
  run : RequestParts → ClosureRun
  clonePanics : Bool
  room : Option Nat
  aborted : Bool

inductive LoggedBody where
  | normal (body : InnerBody)
  | full (bytes : Bytes)
  | upstream

inductive ReplyBody where
  | logging (inner : LoggedBody) (guard : RequestGuard)
  | plain (bytes : Bytes)

structure Reply where
  status : UInt16
  headers : HeaderMap
  body : ReplyBody

inductive Ended where
  | ok (reply : Reply)
  | err (text : Str)
  | panic
  | aborted

inductive Handled where
  | responded (reply : Reply)
  | panicked
  | aborted

def datastarJsPath : Str := "/datastar@1.0.1.js".toList

def javascriptValue : Http.HeaderValue := ⟨utf8 "application/javascript".toList, by decide⟩
def immutableValue : Http.HeaderValue := ⟨utf8 "public, max-age=31536000, immutable".toList, by decide⟩

variable {Net : Type} (W : World Net)

def requestOf (config : AppConfig Net) (addr : Option (IpAddr × UInt16)) (parts : Parts) : RequestParts where
  proto := parts.version
  method := parts.method
  authority := parts.uri.authority
  remoteIp := addr.map Prod.fst
  remotePort := addr.map Prod.snd
  trustedIp := resolveTrustedIp W.contains parts.headers (addr.map Prod.fst) config.trustedProxies
  headers := parts.headers
  uri := parts.uri
  path := parts.uri.path
  query := (parts.uri.query.map W.parseQuery).getD []

def datastarResponse (guard : RequestGuard) (headers : HeaderMap) : List Event × Ended :=
  let headerMap := (MultiMap.empty.insert contentType javascriptValue).insert cacheControl immutableValue
  let (headerMap, bytes) :=
    if Compression.acceptsBrotli W.decodeAccept headers then
      ((headerMap.insert contentEncoding brValue).insert vary acceptEncodingValue, W.datastarJsBrotli)
    else (headerMap, W.datastarJs)
  ([.response guard.requestId 200 headerMap], .ok ⟨200, headerMap, .logging (.full bytes) guard⟩)

def normalResponse (guard : RequestGuard) (bodyResult : Except Str PipelineResult) (useBrotli : Bool) :
    List Event × Ended :=
  match bodyResult with
  | .error err => ([], .err err)
  | .ok result =>
    match buildNormalResponse W.compressFull result useBrotli guard.requestId with
    | (events, .ok response) =>
        (events, .ok ⟨response.status, response.headers, .logging (.normal response.body) guard⟩)
    | (events, .err err) => (events, .err err)
    | (events, .panic) => (events, .panic)

def staticResponse (guard : RequestGuard) (parts : Parts) (root path : Str) (fallback : Option Str) :
    List Event × Ended :=
  match W.parseUri ('/' :: path) with
  | .error _ => ([], .panic)
  | .ok uri =>
    match W.serveDir root (fallback.map (W.joinPath root)) ⟨uri, parts.method, parts.headers⟩ with
    | .aborted => ([], .aborted)
    | .ready (.error err) => ([], .err err)
    | .ready (.ok res) =>
      let logged := [.response guard.requestId res.status res.headers]
      match res.collected with
      | .aborted => (logged, .aborted)
      | .ready (.error err) => (logged, .err err)
      | .ready (.ok bytes) => (logged, .ok ⟨res.status, res.headers, .logging (.full bytes) guard⟩)

def stripPrefix (stripped s : Str) : Option Str := if stripped <+: s then some (s.drop stripped.length) else none

def proxyPath (uri : Uri) (stripped : Option Str) : Str :=
  let path := (stripped.bind (fun p => stripPrefix p uri.path)).getD uri.path
  if path.head? = some '/' then path else '/' :: path

def targetUri (targetUrl : Str) (uri : Uri) (stripped : Option Str) (query : Option (List (Str × Str))) : Str :=
  let queryString :=
    match query with
    | some customQuery => W.serializeQuery customQuery
    | none => uri.query.getD []
  if queryString = [] then targetUrl ++ proxyPath uri stripped
  else targetUrl ++ proxyPath uri stripped ++ '?' :: queryString

def withLength (requestBody : Bytes) (headerMap : HeaderMap) : Except Str HeaderMap :=
  if requestBody ≠ [] ∨ headerMap.containsKey contentLength then do
    return headerMap.insert contentLength (← parseHeaderValue (toString requestBody.length).toList)
  else .ok headerMap

def addCustomHeaders : Headers → HeaderMap → Except Str HeaderMap := putHeaders (fun _ => false)

def withHost (targetUrl : Str) (preserveHost : Bool) (headerMap : HeaderMap) : Except Str HeaderMap :=
  if preserveHost then .ok headerMap
  else
    match (W.parseUri targetUrl).toOption.bind Uri.authority with
    | some authority => do return headerMap.insert host (← parseHeaderValue authority)
    | none => .ok headerMap

def proxyRequest (parts : Parts) (targetUrl : Str) (headers : Headers) (preserveHost : Bool)
    (stripped : Option Str) (requestBody : Bytes) (query : Option (List (Str × Str))) :
    Except Str ProxyRequest := do
  let uri ← W.parseUri (targetUri W targetUrl parts.uri stripped query)
  let headerMap ← withLength requestBody parts.headers
  let headerMap ← addCustomHeaders headers headerMap
  let headerMap ← withHost W targetUrl preserveHost headerMap
  return ⟨uri, parts.method, headerMap, requestBody⟩

def proxyResponse (guard : RequestGuard) (request : Except Str ProxyRequest) : List Event × Ended :=
  match request with
  | .error err => ([], .err err)
  | .ok request =>
    match W.forward request with
    | .aborted => ([], .aborted)
    | .ready (.ok (status, headers)) =>
      ([.response guard.requestId status headers],
        .ok ⟨status, headers, .logging .upstream guard⟩)
    | .ready (.error _) =>
      ([.response guard.requestId 502 .empty],
        .ok ⟨502, .empty, .logging (.full (utf8 "Bad Gateway".toList)) guard⟩)

def channelClosed : Str := "channel closed".toList

/-- What `join!` gives: the special response if one was sent, and the tuple of the body. -/
def joined (t : Thread) : Option Response × Except Str PipelineResult :=
  (t.metaCh.value?,
    match t.bodyCh.value? with
    | some result => .ok result
    | none => .error channelClosed)

lemma joined_spawnEvalThread (R : Rendering) (clonePanics : Bool) (run : ClosureRun) (room : Option Nat) :
    joined (spawnEvalThread R clonePanics run room) =
      (firstSpecial clonePanics run, (sentTuple R clonePanics run).elim (.error channelClosed) .ok) := by
  obtain ⟨hmeta, hbody⟩ := spawnEvalThread_channels R clonePanics run room
  rw [joined, hmeta, hbody]
  cases firstSpecial clonePanics run <;> cases sentTuple R clonePanics run <;> rfl

def respondWith (guard : RequestGuard) (parts : Parts) (special : Option Response)
    (bodyResult : Except Str PipelineResult) : List Event × Ended :=
  match special.map Response.bodyType with
  | some .normal | none =>
    normalResponse W guard bodyResult (Compression.acceptsBrotli W.decodeAccept parts.headers)
  | some (.static root path fallback) => staticResponse W guard parts root path fallback
  | some (.reverseProxy targetUrl headers preserveHost stripped requestBody query) =>
    proxyResponse W guard (proxyRequest W parts targetUrl headers preserveHost stripped requestBody query)

/-- A guard that no body took is dropped with the future. -/
def dropGuard (guard : RequestGuard) : List Event × Ended → List Event × Ended
  | (events, .ok reply) => (events, .ok reply)
  | (events, ended) => (events ++ guard.drop, ended)

def handleInner (config : AppConfig Net) (addr : Option (IpAddr × UInt16)) (parts : Parts)
    (evaluation : Evaluation) (requestId : Nat) : List Event × Ended :=
  let guard := RequestGuard.new requestId
  let request := requestOf W config addr parts
  let (events, ended) := dropGuard guard <|
    if config.datastar && request.path = datastarJsPath then datastarResponse W guard parts.headers
    else if evaluation.aborted then ([], .aborted)
    else
      let (special, bodyResult) := joined
        (spawnEvalThread W.rendering evaluation.clonePanics (evaluation.run request) evaluation.room)
      respondWith W guard parts special bodyResult
  (.request requestId request :: events, ended)

/-- The reply to an error, outside the guard. -/
def errorReply (err : Str) : Reply := ⟨500, .empty, .plain (utf8 ("Script error: ".toList ++ err))⟩

def handle (config : AppConfig Net) (addr : Option (IpAddr × UInt16)) (parts : Parts)
    (evaluation : Evaluation) (requestId : Nat) : List Event × Handled :=
  match handleInner W config addr parts evaluation requestId with
  | (events, .ok reply) => (events, .responded reply)
  | (events, .err err) => (events, .responded (errorReply err))
  | (events, .panic) => (events, .panicked)
  | (events, .aborted) => (events, .aborted)

end HttpNu.Handler
