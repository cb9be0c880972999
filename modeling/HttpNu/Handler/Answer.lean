import HttpNu.Handler.AccessLog

/-! Which response a request gets, and when it gets none. -/

namespace HttpNu.Handler

open Text Library Http Response Worker Logging Compression

variable {Net : Type} (W : World Net) (config : AppConfig Net) (addr : Option (Request.IpAddr × UInt16))
  (parts : Parts) (evaluation : Evaluation) (requestId : Nat)

inductive SpecialCall where
  | static (root path : Str) (fallback : Option Str)
  | reverseProxy (targetUrl : Str) (headers : Headers) (preserveHost : Bool) (stripped : Option Str)
      (requestBody : Bytes) (query : Option (List (Str × Str)))

def SpecialCall.response : SpecialCall → Response
  | static root path fallback => ⟨200, [], .static root path fallback⟩
  | reverseProxy targetUrl headers preserveHost stripped requestBody query =>
    ⟨200, [], .reverseProxy targetUrl headers preserveHost stripped requestBody query⟩

def SpecialCall.answer (call : SpecialCall) (guard : RequestGuard) : List Event × Ended :=
  match call with
  | static root path fallback => staticResponse W guard parts root path fallback
  | reverseProxy targetUrl headers preserveHost stripped requestBody query =>
    proxyResponse W guard (proxyRequest W parts targetUrl headers preserveHost stripped requestBody query)

def concluded (built : RequestGuard → List Event × Ended) : List Event × Ended :=
  let (events, ended) := dropGuard (.new requestId) (built (.new requestId))
  (.request requestId (requestOf W config addr parts) :: events, ended)

variable {W config addr parts evaluation}

lemma handleInner_respondWith (hroute : ¬ (config.datastar = true ∧ parts.uri.path = datastarJsPath))
    (haborted : evaluation.aborted = false) :
    handleInner W config addr parts evaluation requestId =
      concluded W config addr parts requestId (fun guard => respondWith W guard parts
        (firstSpecial evaluation.clonePanics (evaluation.run (requestOf W config addr parts)))
        ((sentTuple W.rendering evaluation.clonePanics (evaluation.run (requestOf W config addr parts))).elim
          (.error channelClosed) .ok)) := by
  rw [handleInner_eq, dispatch_eq hroute haborted]
  rfl

variable (W config addr parts evaluation)

def TupleAnswerable (result : PipelineResult) : Prop :=
  (∀ ct ∈ responseContentType result, (HeaderValue.fromStr ct).isSome) →
    ValidHeaders isContentType result.2.1.headers →
      validStatus (responseStatus result.2.1.status result.2.2) = true

/-- Nothing that the closure chose panics: not a status, and not a path of `.static`. -/
def Answerable : Prop :=
  (config.datastar = true ∧ parts.uri.path = datastarJsPath) ∨ evaluation.aborted = true ∨
    let run := evaluation.run (requestOf W config addr parts)
    match (firstSpecial evaluation.clonePanics run).map Response.bodyType with
    | some .normal | none => ∀ result ∈ sentTuple W.rendering evaluation.clonePanics run, TupleAnswerable result
    | some (.static _ path _) => ∃ uri, W.parseUri ('/' :: path) = .ok uri
    | some (.reverseProxy ..) => True

lemma normalResponse_panics_iff (guard : RequestGuard) (tuple : Option PipelineResult) (useBrotli : Bool) :
    (normalResponse W guard (tuple.elim (.error channelClosed) .ok) useBrotli).2 ≠ .panic ↔
      ∀ result ∈ tuple, TupleAnswerable result := by
  cases tuple with
  | none => exact iff_of_true nofun nofun
  | some result =>
    have hforall : (∀ r ∈ some result, TupleAnswerable r) ↔
        ((∃ m, responseHeaders result useBrotli = .ok m) →
          validStatus (responseStatus result.2.1.status result.2.2) = true) := by
      rw [responseHeaders_ok_iff]
      simp [TupleAnswerable]
    rw [hforall, Option.elim_some, normalResponse, buildNormalResponse]
    cases responseHeaders result useBrotli with
    | error err => simp
    | ok m =>
      cases validStatus (responseStatus result.2.1.status result.2.2) with
      | false => simp
      | true => cases responseBody W.compressFull result useBrotli <;> simp

lemma staticResponse_panics_iff (guard : RequestGuard) (root path : Str) (fallback : Option Str) :
    (staticResponse W guard parts root path fallback).2 ≠ .panic ↔ ∃ uri, W.parseUri ('/' :: path) = .ok uri := by
  rw [staticResponse]
  cases W.parseUri ('/' :: path) with
  | error err => simp
  | ok uri =>
    refine iff_of_true ?_ ⟨uri, rfl⟩
    dsimp only
    cases W.serveDir root (fallback.map (W.joinPath root)) ⟨uri, parts.method, parts.headers⟩ with
    | aborted => simp
    | ready answer =>
      cases answer with
      | error err => simp
      | ok res =>
        dsimp only
        cases res.collected with
        | aborted => simp
        | ready collected => cases collected <;> simp

lemma proxyResponse_answered (guard : RequestGuard) (request : Except Str ProxyRequest) :
    (proxyResponse W guard request).2 ≠ .panic := by
  cases request with
  | error err => simp [proxyResponse]
  | ok request =>
    rw [proxyResponse]
    split <;> simp

lemma respondWith_panics_iff (guard : RequestGuard) (special : Option Response) (tuple : Option PipelineResult) :
    (respondWith W guard parts special (tuple.elim (.error channelClosed) .ok)).2 ≠ .panic ↔
      match special.map Response.bodyType with
      | some .normal | none => ∀ result ∈ tuple, TupleAnswerable result
      | some (.static _ path _) => ∃ uri, W.parseUri ('/' :: path) = .ok uri
      | some (.reverseProxy ..) => True := by
  rw [respondWith]
  cases special.map Response.bodyType with
  | none => exact normalResponse_panics_iff W guard tuple _
  | some bodyType =>
    cases bodyType with
    | normal => exact normalResponse_panics_iff W guard tuple _
    | static root path fallback => exact staticResponse_panics_iff W parts guard root path fallback
    | reverseProxy => exact iff_of_true (proxyResponse_answered W guard _) trivial

lemma dispatch_panics_iff (guard : RequestGuard) :
    (dispatch W config addr parts evaluation guard).2 ≠ .panic ↔ Answerable W config addr parts evaluation := by
  rw [Answerable]
  by_cases hroute : config.datastar = true ∧ parts.uri.path = datastarJsPath
  · rw [dispatch, if_pos (by simpa using hroute)]
    simp [datastarResponse, hroute]
  · cases haborted : evaluation.aborted with
    | true =>
      rw [dispatch, if_neg (by simpa using hroute)]
      simp [haborted]
    | false =>
      rw [dispatch_eq hroute haborted, respondWith_panics_iff]
      simp [hroute]

theorem handle_answers_iff :
    ((∃ reply, (handle W config addr parts evaluation requestId).2 = .responded reply) ∨
        (handle W config addr parts evaluation requestId).2 = .aborted) ↔
      Answerable W config addr parts evaluation := by
  rw [← dispatch_panics_iff W config addr parts evaluation (.new requestId), handle, handleInner_eq]
  cases hd : dispatch W config addr parts evaluation (.new requestId) with
  | mk events ended => cases ended <;> simp [dropGuard]

def oddStatus : Evaluation :=
  ⟨fun _ => ⟨[], .ok (.value (.string "hi".toList)
    (some ⟨none, [("http.response".toList, .record [("status".toList, .int 99)])]⟩))⟩, false, none, false⟩

def spacedPath : Evaluation :=
  ⟨fun _ => ⟨[(SpecialCall.static "/srv".toList "a b.txt".toList none).response], .ok .empty⟩, false, none, false⟩

theorem oddStatus_panics :
    (handle bareWorld ⟨[], false⟩ none getRoot oddStatus 7).2 = .panicked ∧
      (handle bareWorld ⟨[], false⟩ none getRoot spacedPath 7).2 = .panicked :=
  ⟨rfl, rfl⟩

end HttpNu.Handler
