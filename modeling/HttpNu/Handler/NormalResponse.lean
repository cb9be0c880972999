import HttpNu.Handler.StreamBody
import HttpNu.Logging
import HttpNu.Worker

/-! `build_normal_response`: the status, the headers and the body of a handler's output. -/

namespace HttpNu.Handler

open Text Library Http Response Worker Logging

inductive Built (α : Type) where
  | ok (value : α)
  | err (text : Str)
  | panic

/-- The body before it is wrapped: bytes, or a stream as its two flags say. -/
inductive InnerBody where
  | empty
  | full (bytes : Bytes)
  | stream (isSse useBrotli : Bool)

structure NormalResponse where
  status : UInt16
  headers : HeaderMap
  body : InnerBody

/-- `to_lowercase`, as far as it matters for the names it is compared with. -/
def toLowercase (s : Str) : Str := s.map Char.toLower

def brValue : Http.HeaderValue := ⟨utf8 br, by decide⟩
def acceptEncodingValue : Http.HeaderValue := ⟨utf8 acceptEncoding, by decide⟩
def noCacheValue : Http.HeaderValue := ⟨utf8 "no-cache".toList, by decide⟩
def keepAliveValue : Http.HeaderValue := ⟨utf8 "keep-alive".toList, by decide⟩

def responseStatus (status : Option UInt16) (body : ResponseTransport) : UInt16 :=
  match status, body with
  | some s, _ => s
  | none, .empty => 204
  | none, _ => 200

def getHeader (headers : Headers) (k : Str) : Option Response.HeaderValue :=
  (headers.find? (fun e => e.1 = k)).map Prod.snd

def explicitContentType (headers : Headers) : Option Str :=
  match (getHeader headers "content-type".toList).or (getHeader headers "Content-Type".toList) with
  | some (.single s) => some s
  | some (.multiple v) => v.head?
  | none => none

def responseContentType (result : PipelineResult) : Option Str :=
  ((explicitContentType result.2.1.headers).or result.1).or
    (if result.2.2 = .empty then none else some "text/html; charset=utf-8".toList)

def isEventStream (contentType : Option Str) : Bool := contentType = some "text/event-stream".toList

def invalidHeaderName : Str := "invalid HTTP header name".toList

def invalidHeaderValue : Str := "failed to parse header value".toList

def parseHeaderValue (s : Str) : Except Str Http.HeaderValue :=
  match HeaderValue.fromStr s with
  | some value => .ok value
  | none => .error invalidHeaderValue

def parseHeaderName (k : Str) : Except Str Str :=
  match headerName k with
  | some name => .ok name
  | none => .error invalidHeaderName

def setContentType (contentType : Option Str) : Except Str HeaderMap :=
  match contentType with
  | none => .ok .empty
  | some ct => do return MultiMap.empty.insert Http.contentType (← parseHeaderValue ct)

def baseHeaders (useBrotli isSse : Bool) (headerMap : HeaderMap) : HeaderMap :=
  let headerMap :=
    if useBrotli then (headerMap.insert contentEncoding brValue).insert vary acceptEncodingValue
    else headerMap
  if isSse then (headerMap.insert cacheControl noCacheValue).insert connection keepAliveValue
  else headerMap

/-- One string replaces the values of its header; the strings of a list are added, invalid ones left out. -/
def putHeader (headerMap : HeaderMap) (name : Str) : Response.HeaderValue → Except Str HeaderMap
  | .single s => do return headerMap.insert name (← parseHeaderValue s)
  | .multiple values =>
    .ok ((values.filterMap HeaderValue.fromStr).foldl (fun m value => m.append name value) headerMap)

def putHeaders (leftOut : Str → Bool) : Headers → HeaderMap → Except Str HeaderMap
  | [], headerMap => .ok headerMap
  | (k, v) :: rest, headerMap =>
    if leftOut k then putHeaders leftOut rest headerMap
    else do
      let name ← parseHeaderName k
      putHeaders leftOut rest (← putHeader headerMap name v)

def isContentType (k : Str) : Bool := toLowercase k = "content-type".toList

def addHeaders : Headers → HeaderMap → Except Str HeaderMap := putHeaders isContentType

def responseHeaders (result : PipelineResult) (useBrotli : Bool) : Except Str HeaderMap := do
  let contentType := responseContentType result
  let headerMap ← setContentType contentType
  addHeaders result.2.1.headers (baseHeaders useBrotli (isEventStream contentType) headerMap)

variable (compressFull : Bytes → Except Str Bytes)

def responseBody (result : PipelineResult) (useBrotli : Bool) : Except Str InnerBody :=
  match result.2.2 with
  | .empty => .ok .empty
  | .full bytes => if useBrotli then (compressFull bytes).map .full else .ok (.full bytes)
  | .stream => .ok (.stream (isEventStream (responseContentType result)) useBrotli)

def validStatus (status : UInt16) : Bool := 100 ≤ status && status < 1000

/-- The events logged, and the response; `headers_mut().unwrap()` panics on an invalid status. -/
def buildNormalResponse (result : PipelineResult) (useBrotli : Bool) (requestId : Nat) :
    List Event × Built NormalResponse :=
  let status := responseStatus result.2.1.status result.2.2
  match responseHeaders result useBrotli with
  | .error err => ([], .err err)
  | .ok headerMap =>
    let logged := [.response requestId status headerMap]
    if validStatus status then
      match responseBody compressFull result useBrotli with
      | .error err => (logged, .err err)
      | .ok body => (logged, .ok ⟨status, headerMap, body⟩)
    else (logged, .panic)

variable {compressFull} {result : PipelineResult} {useBrotli : Bool} {requestId : Nat}

lemma buildNormalResponse_ok {logged : List Event} {response : NormalResponse}
    (h : buildNormalResponse compressFull result useBrotli requestId = (logged, .ok response)) :
    responseHeaders result useBrotli = .ok response.headers ∧ validStatus response.status = true ∧
      response.status = responseStatus result.2.1.status result.2.2 ∧
      responseBody compressFull result useBrotli = .ok response.body ∧
      logged = [.response requestId response.status response.headers] := by
  simp only [buildNormalResponse] at h
  split at h
  · cases h
  · rename_i headerMap hheaders
    split at h
    · rename_i hstatus
      split at h
      · cases h
      · rename_i body hbody
        cases h
        exact ⟨hheaders, hstatus, rfl, hbody, rfl⟩
    · cases h

lemma buildNormalResponse_eq {headerMap : HeaderMap} {body : InnerBody}
    (hh : responseHeaders result useBrotli = .ok headerMap)
    (hs : validStatus (responseStatus result.2.1.status result.2.2) = true)
    (hb : responseBody compressFull result useBrotli = .ok body) :
    buildNormalResponse compressFull result useBrotli requestId =
      ([.response requestId (responseStatus result.2.1.status result.2.2) headerMap],
        .ok ⟨responseStatus result.2.1.status result.2.2, headerMap, body⟩) := by
  simp only [buildNormalResponse, hh, hs, hb, if_true]

end HttpNu.Handler
