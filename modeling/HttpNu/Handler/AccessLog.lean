import HttpNu.Handler.Handle

/-! The access events of one request, from its arrival to the drop of its body. -/

namespace HttpNu.Handler

open Text Library Http Response Worker Logging Compression

/-- The polls of a body of known bytes: one frame with them, if there are any, then the end. -/
def fullPolls (bytes : Bytes) (n : Nat) : List FramePoll :=
  let frames := if bytes = [] then [] else [FramePoll.frame (.data bytes)]
  (frames ++ List.replicate n FramePoll.done).take n

def framePoll : Output → FramePoll
  | .data frame => .frame (.data frame)
  | .error => .error
  | .done => .done
  | .pending => .pending

/-- What the polls of a built body may return before it is dropped. -/
def InnerBody.Gives (enc : Encoder) (polls : List FramePoll) : InnerBody → Prop
  | .empty => ∃ n, polls = fullPolls [] n
  | .full bytes => ∃ n, polls = fullPolls bytes n
  | .stream isSse useBrotli => ∃ acts s,
    run (StreamBody.step enc isSse) (StreamBody.init useBrotli) acts = some s ∧ polls = s.outputs.map framePoll

def ReplyBody.Gives (enc : Encoder) (polls : List FramePoll) : ReplyBody → Prop
  | .logging (.normal body) _ => body.Gives enc polls
  | .logging (.full bytes) _ => ∃ n, polls = fullPolls bytes n
  | .logging .upstream _ => True
  | .plain bytes => ∃ n, polls = fullPolls bytes n

def ReplyBody.dropped (polls : List FramePoll) : ReplyBody → List Event
  | .logging _ guard => (polls.foldl RequestGuard.poll guard).drop
  | .plain _ => []

def dataLength (polls : List FramePoll) : Nat := (polls.map FramePoll.dataLen).sum

def Phases (requestId : Nat) (status : UInt16) (bytes : Nat) (events : List Event) : Prop :=
  ∃ request headers, events = [.request requestId request, .response requestId status headers,
    .complete requestId bytes]

variable {Net : Type} (W : World Net)

/-- A response is returned, and however far its body is read, the events are the three phases: with its status
and with the length of the data that was read. -/
def Lifecycle (requestId : Nat) (handled : List Event × Handled) : Prop :=
  ∃ reply, handled.2 = .responded reply ∧ ∀ polls, reply.body.Gives W.encoder polls →
    Phases requestId reply.status (dataLength polls) (handled.1 ++ reply.body.dropped polls)

def ValidEntry (leftOut : Str → Bool) (e : Str × Response.HeaderValue) : Prop :=
  leftOut e.1 = false → (headerName e.1).isSome ∧
    match e.2 with
    | .single s => (HeaderValue.fromStr s).isSome
    | .multiple _ => True

def ValidHeaders (leftOut : Str → Bool) (headers : Headers) : Prop := ∀ e ∈ headers, ValidEntry leftOut e

def NormalServed (bodyResult : Except Str PipelineResult) (useBrotli : Bool) : Prop :=
  ∃ result, bodyResult = .ok result ∧
    (∀ ct ∈ responseContentType result, (HeaderValue.fromStr ct).isSome) ∧
    ValidHeaders isContentType result.2.1.headers ∧
    validStatus (responseStatus result.2.1.status result.2.2) = true ∧
    (useBrotli = true → ∀ bytes, result.2.2 = .full bytes → ∃ coded, W.compressFull bytes = .ok coded)

def StaticServed (parts : Parts) (root path : Str) (fallback : Option Str) : Prop :=
  ∃ uri res bytes, W.parseUri ('/' :: path) = .ok uri ∧
    W.serveDir root (fallback.map (W.joinPath root)) ⟨uri, parts.method, parts.headers⟩ = .ready (.ok res) ∧
    res.collected = .ready (.ok bytes)

def ProxyServed (parts : Parts) (targetUrl : Str) (headers : Headers) (preserveHost : Bool) (stripped : Option Str)
    (requestBody : Bytes) (query : Option (List (Str × Str))) : Prop :=
  (∃ uri, W.parseUri (targetUri W targetUrl parts.uri stripped query) = .ok uri) ∧
    ValidHeaders (fun _ => false) headers ∧
    (preserveHost = false → ∀ authority ∈ (W.parseUri targetUrl).toOption.bind Uri.authority,
      (HeaderValue.fromStr authority).isSome) ∧
    ∀ built, proxyRequest W parts targetUrl headers preserveHost stripped requestBody query = .ok built →
      ∃ answer, W.forward built = .ready answer

def ResponseServed (parts : Parts) (special : Option Response) (bodyResult : Except Str PipelineResult) : Prop :=
  match special.map Response.bodyType with
  | some .normal | none =>
    NormalServed W bodyResult (acceptsBrotli W.decodeAccept parts.headers)
  | some (.static root path fallback) => StaticServed W parts root path fallback
  | some (.reverseProxy targetUrl headers preserveHost stripped requestBody query) =>
    ProxyServed W parts targetUrl headers preserveHost stripped requestBody query

def Served (config : AppConfig Net) (addr : Option (Request.IpAddr × UInt16)) (parts : Parts)
    (evaluation : Evaluation) : Prop :=
  (config.datastar = true ∧ parts.uri.path = datastarJsPath) ∨
    (evaluation.aborted = false ∧
      let run := evaluation.run (requestOf W config addr parts)
      ResponseServed W parts (firstSpecial evaluation.clonePanics run)
        ((sentTuple W.rendering evaluation.clonePanics run).elim (.error channelClosed) .ok))

/-- A branch that returns a response has logged it, and its body holds the guard. -/
def WellLogged (guard : RequestGuard) : List Event × Ended → Prop
  | (events, .ok reply) => events = [.response guard.requestId reply.status reply.headers] ∧
    ∃ inner, reply.body = .logging inner guard
  | _ => True

lemma foldl_poll (polls : List FramePoll) (guard : RequestGuard) :
    polls.foldl RequestGuard.poll guard = ⟨guard.requestId, guard.bytesSent + dataLength polls⟩ := by
  induction polls generalizing guard with
  | nil => rfl
  | cons polled polls ih =>
    rw [List.foldl_cons, ih]
    cases polled with
    | frame f => cases f <;> simp [RequestGuard.poll, dataLength, FramePoll.dataLen, Frame.dataLen, Nat.add_assoc]
    | _ => simp [RequestGuard.poll, dataLength, FramePoll.dataLen]

lemma putHeader_ok_iff (m : HeaderMap) (name : Str) (v : Response.HeaderValue) :
    (∃ m', putHeader m name v = .ok m') ↔
      match v with
      | .single s => (HeaderValue.fromStr s).isSome
      | .multiple _ => True := by
  cases v with
  | single s =>
    cases hs : HeaderValue.fromStr s with
    | none => simp [putHeader, parseHeaderValue, hs, bind, Except.bind]
    | some value => simp [putHeader, parseHeaderValue, hs, bind, Except.bind, pure, Except.pure]
  | multiple values => simp [putHeader]

lemma putHeaders_ok_iff (leftOut : Str → Bool) (headers : Headers) (m : HeaderMap) :
    (∃ m', putHeaders leftOut headers m = .ok m') ↔ ValidHeaders leftOut headers := by
  induction headers generalizing m with
  | nil => simp [putHeaders, ValidHeaders]
  | cons e rest ih =>
    obtain ⟨k, v⟩ := e
    have hcons : ValidHeaders leftOut ((k, v) :: rest) ↔
      ValidEntry leftOut (k, v) ∧ ValidHeaders leftOut rest := by
      simp [ValidHeaders]
    rw [hcons, putHeaders]
    by_cases hk : leftOut k = true
    · rw [if_pos hk, ih]
      simp [ValidEntry, hk]
    · rw [if_neg hk]
      have hentry : ∀ name, ValidEntry leftOut (k, v) ↔
        (headerName k).isSome ∧ ∃ m', putHeader m name v = .ok m' := by
        intro name
        rw [putHeader_ok_iff]
        simp [ValidEntry, hk]
      cases hname : headerName k with
      | none => simp [hentry k, parseHeaderName, hname, bind, Except.bind]
      | some name =>
        rw [hentry name, hname, parseHeaderName, hname]
        cases hput : putHeader m name v with
        | error err => simp [hput, bind, Except.bind]
        | ok m₁ => simpa [hput, bind, Except.bind] using ih m₁

lemma addHeaders_ok_iff (headers : Headers) (m : HeaderMap) :
    (∃ m', addHeaders headers m = .ok m') ↔ ValidHeaders isContentType headers :=
  putHeaders_ok_iff isContentType headers m

lemma responseHeaders_ok_iff (result : PipelineResult) (useBrotli : Bool) :
    (∃ m, responseHeaders result useBrotli = .ok m) ↔
      (∀ ct ∈ responseContentType result, (HeaderValue.fromStr ct).isSome) ∧
        ValidHeaders isContentType result.2.1.headers := by
  rw [responseHeaders]
  generalize responseContentType result = contentType
  cases contentType with
  | none => simpa [setContentType, bind, Except.bind] using addHeaders_ok_iff _ _
  | some ct =>
    cases hct : HeaderValue.fromStr ct with
    | none => simp [setContentType, parseHeaderValue, hct, bind, Except.bind]
    | some value =>
      simpa [setContentType, parseHeaderValue, hct, bind, Except.bind, pure, Except.pure] using
        addHeaders_ok_iff _ _

lemma responseBody_ok_iff {compressFull : Bytes → Except Str Bytes} (result : PipelineResult) (useBrotli : Bool) :
    (∃ body, responseBody compressFull result useBrotli = .ok body) ↔
      (useBrotli = true → ∀ bytes, result.2.2 = .full bytes → ∃ coded, compressFull bytes = .ok coded) := by
  rw [responseBody]
  cases result.2.2 with
  | empty => simp
  | full bytes =>
    cases useBrotli with
    | false => simp
    | true => cases hc : compressFull bytes <;> simp [hc, Except.map]
  | stream => simp

lemma normalResponse_ok_iff (guard : RequestGuard) (bodyResult : Except Str PipelineResult) (useBrotli : Bool) :
    (∃ reply, (normalResponse W guard bodyResult useBrotli).2 = .ok reply) ↔
      NormalServed W bodyResult useBrotli := by
  cases bodyResult with
  | error err => simp [normalResponse, NormalServed]
  | ok result =>
    have hserved : NormalServed W (.ok result) useBrotli ↔
        (∃ m, responseHeaders result useBrotli = .ok m) ∧
          validStatus (responseStatus result.2.1.status result.2.2) = true ∧
          ∃ body, responseBody W.compressFull result useBrotli = .ok body := by
      rw [responseHeaders_ok_iff, responseBody_ok_iff, NormalServed]
      simp only [Except.ok.injEq, exists_eq_left', and_assoc]
    rw [hserved, normalResponse]
    constructor
    · intro h
      cases hb : buildNormalResponse W.compressFull result useBrotli guard.requestId with
      | mk events built =>
        rw [hb] at h
        cases built with
        | ok response =>
          obtain ⟨hheaders, hstatus, heq, hbody, _⟩ := buildNormalResponse_ok hb
          exact ⟨⟨_, hheaders⟩, heq ▸ hstatus, _, hbody⟩
        | err err => simp at h
        | panic => simp at h
    · rintro ⟨⟨m, hheaders⟩, hstatus, body, hbody⟩
      simp only [buildNormalResponse_eq hheaders hstatus hbody]
      exact ⟨_, rfl⟩

lemma staticResponse_ok_iff (guard : RequestGuard) (parts : Parts) (root path : Str) (fallback : Option Str) :
    (∃ reply, (staticResponse W guard parts root path fallback).2 = .ok reply) ↔
      StaticServed W parts root path fallback := by
  rw [staticResponse, StaticServed]
  cases W.parseUri ('/' :: path) with
  | error err => simp
  | ok uri =>
    simp only [Except.ok.injEq, exists_and_left, exists_eq_left']
    cases W.serveDir root (fallback.map (W.joinPath root)) ⟨uri, parts.method, parts.headers⟩ with
    | aborted => simp
    | ready answer =>
      cases answer with
      | error err => simp
      | ok res =>
        simp only [Awaited.ready.injEq, Except.ok.injEq, exists_eq_left']
        cases res.collected with
        | aborted => simp
        | ready collected => cases collected <;> simp

lemma proxyResponse_ok_iff (guard : RequestGuard) (request : Except Str ProxyRequest) :
    (∃ reply, (proxyResponse W guard request).2 = .ok reply) ↔
      ∃ built answer, request = .ok built ∧ W.forward built = .ready answer := by
  cases request with
  | error err => simp [proxyResponse]
  | ok built =>
    simp only [proxyResponse, Except.ok.injEq, exists_and_left, exists_eq_left']
    cases W.forward built with
    | aborted => simp
    | ready answer => cases answer <;> simp

lemma isHeaderByte_of_isDigit {c : Char} (h : c.isDigit = true) :
    (String.utf8EncodeChar c).all isHeaderByte = true := by
  simp only [Char.isDigit, ge_iff_le, Bool.and_eq_true, decide_eq_true_eq, UInt32.le_iff_toNat_le] at h
  have hzero : '0'.val.toNat = 48 := rfl
  have hnine : '9'.val.toNat = 57 := rfl
  have hsize : c.utf8Size = 1 := by
    rw [Char.utf8Size_eq_one_iff, UInt32.le_iff_toNat_le]
    exact h.2.trans (by decide)
  have hbyte : c.val.toUInt8.toNat = c.val.toNat := by
    rw [UInt32.toNat_toUInt8]
    omega
  have hlow : (32 : UInt8) ≤ c.val.toUInt8 := by
    rw [UInt8.le_iff_toNat_le, hbyte]
    exact (show 32 ≤ 48 by decide).trans h.1
  have hdel : c.val.toUInt8 ≠ 127 := by
    intro he
    have hnat : c.val.toNat = 127 := hbyte ▸ congrArg UInt8.toNat he
    omega
  rw [String.utf8EncodeChar_eq_singleton hsize]
  simp only [List.all_cons, List.all_nil, Bool.and_true, isHeaderByte, hlow, decide_true, ne_eq, hdel,
    not_false_eq_true, Bool.true_or]

lemma fromStr_digits (n : Nat) : (HeaderValue.fromStr (toString n).toList).isSome := by
  have hdigit : ∀ c ∈ (toString n).toList, (String.utf8EncodeChar c).all isHeaderByte = true := by
    intro c hc
    rw [Nat.toString_eq_repr, Nat.toList_repr] at hc
    exact isHeaderByte_of_isDigit (Nat.isDigit_of_mem_toDigits (by decide) (by decide) hc)
  have hall : (utf8 (toString n).toList).all isHeaderByte = true := by
    rw [utf8, List.all_flatMap]
    exact List.all_eq_true.mpr hdigit
  rw [HeaderValue.fromStr, dif_pos hall]
  rfl

lemma withLength_ok (requestBody : Bytes) (headerMap : HeaderMap) :
    ∃ m, withLength requestBody headerMap = .ok m := by
  obtain ⟨value, hv⟩ := Option.isSome_iff_exists.mp (fromStr_digits requestBody.length)
  rw [withLength]
  split
  · exact ⟨_, by rw [parseHeaderValue, hv]; rfl⟩
  · exact ⟨_, rfl⟩

lemma proxyRequest_ok_iff (parts : Parts) (targetUrl : Str) (headers : Headers) (preserveHost : Bool)
    (stripped : Option Str) (requestBody : Bytes) (query : Option (List (Str × Str))) :
    (∃ built, proxyRequest W parts targetUrl headers preserveHost stripped requestBody query = .ok built) ↔
      (∃ uri, W.parseUri (targetUri W targetUrl parts.uri stripped query) = .ok uri) ∧
        ValidHeaders (fun _ => false) headers ∧
        (preserveHost = false → ∀ authority ∈ (W.parseUri targetUrl).toOption.bind Uri.authority,
          (HeaderValue.fromStr authority).isSome) := by
  have hhost : ∀ m, (∃ m', withHost W targetUrl preserveHost m = .ok m') ↔
      (preserveHost = false → ∀ authority ∈ (W.parseUri targetUrl).toOption.bind Uri.authority,
        (HeaderValue.fromStr authority).isSome) := by
    intro m
    rw [withHost]
    cases preserveHost with
    | true => simp
    | false =>
      cases (W.parseUri targetUrl).toOption.bind Uri.authority with
      | none => simp
      | some authority =>
        cases ha : HeaderValue.fromStr authority <;>
          simp [parseHeaderValue, ha, bind, Except.bind, pure, Except.pure]
  obtain ⟨m, hm⟩ := withLength_ok requestBody parts.headers
  have hcustom := putHeaders_ok_iff (fun _ => false) headers m
  rw [proxyRequest, ← hcustom]
  cases huri : W.parseUri (targetUri W targetUrl parts.uri stripped query) with
  | error err => simp [bind, Except.bind]
  | ok uri =>
    cases hput : putHeaders (fun _ => false) headers m with
    | error err => simp [hm, addCustomHeaders, hput, bind, Except.bind]
    | ok m₁ =>
      rw [← hhost m₁]
      cases hh : withHost W targetUrl preserveHost m₁ <;>
        simp [hm, addCustomHeaders, hput, hh, bind, Except.bind, pure, Except.pure]

variable {W} {guard : RequestGuard}

lemma datastarResponse_wellLogged (headers : HeaderMap) : WellLogged guard (datastarResponse W guard headers) := by
  rw [datastarResponse]
  exact ⟨rfl, _, rfl⟩

lemma normalResponse_wellLogged (bodyResult : Except Str PipelineResult) (useBrotli : Bool) :
    WellLogged guard (normalResponse W guard bodyResult useBrotli) := by
  cases bodyResult with
  | error err => trivial
  | ok result =>
    rw [normalResponse]
    cases hb : buildNormalResponse W.compressFull result useBrotli guard.requestId with
    | mk events built =>
      cases built with
      | ok response =>
        obtain ⟨_, _, _, _, hevents⟩ := buildNormalResponse_ok hb
        exact ⟨hevents, _, rfl⟩
      | err err => trivial
      | panic => trivial

lemma staticResponse_wellLogged (parts : Parts) (root path : Str) (fallback : Option Str) :
    WellLogged guard (staticResponse W guard parts root path fallback) := by
  rw [staticResponse]
  split
  · trivial
  · split
    · trivial
    · trivial
    · dsimp only
      split
      · trivial
      · trivial
      · exact ⟨rfl, _, rfl⟩

lemma proxyResponse_wellLogged (request : Except Str ProxyRequest) :
    WellLogged guard (proxyResponse W guard request) := by
  cases request with
  | error err => trivial
  | ok built =>
    rw [proxyResponse]
    split
    · trivial
    · exact ⟨rfl, _, rfl⟩
    · exact ⟨rfl, _, rfl⟩

lemma proxyServed_iff (parts : Parts) (targetUrl : Str) (headers : Headers) (preserveHost : Bool)
    (stripped : Option Str) (requestBody : Bytes) (query : Option (List (Str × Str))) :
    ProxyServed W parts targetUrl headers preserveHost stripped requestBody query ↔
      ∃ built answer, proxyRequest W parts targetUrl headers preserveHost stripped requestBody query = .ok built ∧
        W.forward built = .ready answer := by
  have hbuilt := proxyRequest_ok_iff W parts targetUrl headers preserveHost stripped requestBody query
  constructor
  · rintro ⟨huri, hheaders, hhost, hforward⟩
    obtain ⟨built, hb⟩ := hbuilt.mpr ⟨huri, hheaders, hhost⟩
    obtain ⟨answer, ha⟩ := hforward built hb
    exact ⟨built, answer, hb, ha⟩
  · rintro ⟨built, answer, hb, ha⟩
    obtain ⟨huri, hheaders, hhost⟩ := hbuilt.mp ⟨built, hb⟩
    refine ⟨huri, hheaders, hhost, fun other ho => ⟨answer, ?_⟩⟩
    rw [← Except.ok.inj (hb.symm.trans ho)]
    exact ha

lemma respondWith_wellLogged (parts : Parts) (special : Option Response) (bodyResult : Except Str PipelineResult) :
    WellLogged guard (respondWith W guard parts special bodyResult) := by
  rw [respondWith]
  split
  · exact normalResponse_wellLogged _ _
  · exact normalResponse_wellLogged _ _
  · exact staticResponse_wellLogged _ _ _ _
  · exact proxyResponse_wellLogged _

lemma respondWith_ok_iff (parts : Parts) (special : Option Response) (bodyResult : Except Str PipelineResult) :
    (∃ reply, (respondWith W guard parts special bodyResult).2 = .ok reply) ↔
      ResponseServed W parts special bodyResult := by
  simp only [respondWith, ResponseServed]
  cases special.map Response.bodyType with
  | none => exact normalResponse_ok_iff W guard _ _
  | some bodyType =>
    cases bodyType with
    | normal => exact normalResponse_ok_iff W guard _ _
    | static root path fallback => exact staticResponse_ok_iff W guard parts root path fallback
    | reverseProxy targetUrl headers preserveHost stripped requestBody query =>
      exact (proxyResponse_ok_iff W guard _).trans (proxyServed_iff ..).symm

def dispatch (W : World Net) (config : AppConfig Net) (addr : Option (Request.IpAddr × UInt16))
    (parts : Parts) (evaluation : Evaluation) (guard : RequestGuard) : List Event × Ended :=
  if config.datastar && parts.uri.path = datastarJsPath then datastarResponse W guard parts.headers
  else if evaluation.aborted then ([], .aborted)
  else
    let (special, bodyResult) := joined (spawnEvalThread W.rendering evaluation.clonePanics
      (evaluation.run (requestOf W config addr parts)) evaluation.room)
    respondWith W guard parts special bodyResult

variable {config : AppConfig Net} {addr : Option (Request.IpAddr × UInt16)} {parts : Parts}
  {evaluation : Evaluation}

lemma dispatch_eq (hroute : ¬ (config.datastar = true ∧ parts.uri.path = datastarJsPath))
    (haborted : evaluation.aborted = false) :
    dispatch W config addr parts evaluation guard =
      respondWith W guard parts
      (firstSpecial evaluation.clonePanics (evaluation.run (requestOf W config addr parts)))
        ((sentTuple W.rendering evaluation.clonePanics (evaluation.run (requestOf W config addr parts))).elim
          (.error channelClosed) .ok) := by
  rw [dispatch, if_neg (by simpa using hroute), if_neg (by simp [haborted]), joined_spawnEvalThread]

lemma dispatch_wellLogged : WellLogged guard (dispatch W config addr parts evaluation guard) := by
  rw [dispatch]
  split
  · exact datastarResponse_wellLogged _
  · split
    · trivial
    · exact respondWith_wellLogged _ _ _

lemma dispatch_ok_iff (guard : RequestGuard) :
    (∃ reply, (dispatch W config addr parts evaluation guard).2 = .ok reply) ↔
      Served W config addr parts evaluation := by
  rw [Served]
  by_cases hroute : config.datastar = true ∧ parts.uri.path = datastarJsPath
  · rw [dispatch, if_pos (by simpa using hroute)]
    simp [datastarResponse, hroute]
  · cases haborted : evaluation.aborted with
    | true =>
      rw [dispatch, if_neg (by simpa using hroute)]
      simp [hroute, haborted]
    | false =>
      rw [dispatch_eq hroute haborted, respondWith_ok_iff]
      simp [hroute]

lemma handleInner_eq (requestId : Nat) :
    handleInner W config addr parts evaluation requestId =
      (.request requestId (requestOf W config addr parts) ::
          (dropGuard (.new requestId) (dispatch W config addr parts evaluation (.new requestId))).1,
        (dropGuard (.new requestId) (dispatch W config addr parts evaluation (.new requestId))).2) := rfl

lemma utf8_length_pos {s : Str} (h : s ≠ []) : 0 < (utf8 s).length := by
  cases s with
  | nil => exact absurd rfl h
  | cons c s =>
    have hc : 0 < (String.utf8EncodeChar c).length := List.length_pos_iff.mpr String.utf8EncodeChar_ne_nil
    simp only [utf8, List.flatMap_cons, List.length_append]
    omega

lemma plain_gives (enc : Encoder) {bytes : Bytes} (h : bytes ≠ []) :
    ∃ polls, (ReplyBody.plain bytes).Gives enc polls ∧ dataLength polls = bytes.length :=
  ⟨fullPolls bytes 1, ⟨1, rfl⟩, by simp [fullPolls, h, dataLength, FramePoll.dataLen, Frame.dataLen]⟩

lemma errorReply_uncounted (enc : Encoder) (err : Str) :
    ∃ polls, (errorReply err).body.Gives enc polls ∧ 0 < dataLength polls := by
  have hne : "Script error: ".toList ++ err ≠ [] := List.append_ne_nil_of_left_ne_nil (by decide) err
  have hpos := utf8_length_pos hne
  obtain ⟨polls, hgives, hlength⟩ := plain_gives enc (List.length_pos_iff.mp hpos)
  exact ⟨polls, hgives, hlength ▸ hpos⟩

lemma Phases.bytes_eq {requestId bytes sent : Nat} {status : UInt16} {events : List Event}
    (h : Phases requestId status bytes (events ++ [.complete requestId sent])) : sent = bytes := by
  obtain ⟨request, headers, h⟩ := h
  have hlast := congrArg List.getLast? h
  rw [List.getLast?_concat] at hlast
  simpa using hlast

theorem lifecycle_iff (W : World Net) (config : AppConfig Net) (addr : Option (Request.IpAddr × UInt16))
    (parts : Parts) (evaluation : Evaluation) (requestId : Nat) :
    Lifecycle W requestId (handle W config addr parts evaluation requestId) ↔
      Served W config addr parts evaluation := by
  have hlogged : WellLogged (.new requestId) (dispatch W config addr parts evaluation (.new requestId)) :=
    dispatch_wellLogged
  rw [← dispatch_ok_iff (.new requestId), handle, handleInner_eq]
  cases hd : dispatch W config addr parts evaluation (.new requestId) with
  | mk events ended =>
    rw [hd] at hlogged
    cases ended with
    | ok reply =>
      obtain ⟨hevents, inner, hbody⟩ := hlogged
      refine iff_of_true ⟨reply, rfl, fun polls _ => ?_⟩ ⟨reply, rfl⟩
      rw [hbody, ReplyBody.dropped, foldl_poll]
      exact ⟨requestOf W config addr parts, reply.headers,
        by simp [dropGuard, hevents, RequestGuard.drop, RequestGuard.new]⟩
    | err err =>
      refine iff_of_false ?_ (by simp)
      rintro ⟨reply, hreply, h⟩
      obtain rfl := Handled.responded.inj hreply
      obtain ⟨polls, hgives, hpos⟩ := errorReply_uncounted W.encoder err
      have hphases : Phases requestId 500 (dataLength polls)
          ((Event.request requestId (requestOf W config addr parts) :: events) ++ [.complete requestId 0]) := by
        simpa [errorReply, ReplyBody.dropped, dropGuard, RequestGuard.drop, RequestGuard.new] using h polls hgives
      have hzero := hphases.bytes_eq
      omega
    | panic => exact iff_of_false (by rintro ⟨reply, hreply, _⟩; cases hreply) (by simp)
    | aborted => exact iff_of_false (by rintro ⟨reply, hreply, _⟩; cases hreply) (by simp)

def bareWorld : World Unit where
  rendering := .plain
  contains _ _ := false
  decodeAccept _ := none
  compressFull bytes := .ok bytes
  encoder := .framed
  parseQuery _ := []
  serializeQuery _ := []
  parseUri _ := .error []
  joinPath root path := root ++ path
  serveDir _ _ _ := .aborted
  forward _ := .aborted
  datastarJs := []
  datastarJsBrotli := []

def getRoot : Parts := ⟨"HTTP/1.1".toList, "GET".toList, ⟨"/".toList, none, "/".toList, none⟩, .empty⟩

def failing : Evaluation := ⟨fun _ => ⟨[], .err "boom".toList⟩, false, none, false⟩

/-- The client gets a response of status 500 that is not logged. -/
theorem failing_unlogged : ¬ Lifecycle bareWorld 7 (handle bareWorld ⟨[], false⟩ none getRoot failing 7) := by
  rintro ⟨reply, hreply, h⟩
  obtain rfl : errorReply channelClosed = reply := Handled.responded.inj hreply
  obtain ⟨request, headers, hevents⟩ := h [] ⟨0, rfl⟩
  have hlength : 2 = 3 := congrArg List.length hevents
  omega

theorem scriptError_reply {failure : Failure} (requestId : Nat)
    (hroute : ¬ (config.datastar = true ∧ parts.uri.path = datastarJsPath)) (haborted : evaluation.aborted = false)
    (hclone : evaluation.clonePanics = false)
    (hfails : FailsBeforeTuple W.rendering (evaluation.run (requestOf W config addr parts))
    evaluation.room failure)
    (hspecial : (spawnEvalThread W.rendering false (evaluation.run (requestOf W config addr parts))
      evaluation.room).metaCh.value? = none) :
    handle W config addr parts evaluation requestId =
      ([.request requestId (requestOf W config addr parts), .complete requestId 0],
        .responded (errorReply channelClosed)) := by
  obtain ⟨_, hclosed⟩ := fallback_finds_none W.rendering hfails
  have hd : dispatch W config addr parts evaluation (.new requestId) = ([], .err channelClosed) := by
    rw [dispatch, if_neg (by simpa using hroute), if_neg (by simp [haborted]), hclone]
    simp only [joined, hspecial, hclosed]
    rfl
  rw [handle, handleInner_eq, hd]
  rfl

/-- The completion of a stream counts the frames that the client got. -/
theorem stream_counted (requestId : Nat) (isSse useBrotli : Bool) (outputs : List Output) :
    (ReplyBody.logging (.normal (.stream isSse useBrotli)) (.new requestId)).dropped (outputs.map framePoll) =
      [.complete requestId (StreamBody.frames outputs).length] := by
  have hlength : dataLength (outputs.map framePoll) = (StreamBody.frames outputs).length := by
    induction outputs with
    | nil => rfl
    | cons out outputs ih =>
      have hout : (framePoll out).dataLen = out.frame.length := by cases out <;> rfl
      rw [StreamBody.frames, List.flatMap_cons, List.length_append, ← StreamBody.frames, ← ih, ← hout]
      rfl
  rw [ReplyBody.dropped, foldl_poll, hlength]
  simp [RequestGuard.drop, RequestGuard.new]

end HttpNu.Handler
