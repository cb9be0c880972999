import HttpNu.Handler.Answer

/-! Which status a response gets when the handler sets one, and when it sets none. -/

namespace HttpNu.Handler

open Text Library Http Response Worker Compression

variable {Net : Type} (W : World Net) (config : AppConfig Net) (addr : Option (Request.IpAddr × UInt16))
  (parts : Parts) (evaluation : Evaluation) (requestId : Nat)

def statusSet (metadata : Option Metadata) : Option Int :=
  (metadata.bind (fun m => (m.custom.get "http.response".toList).bind Value.asRecord)).bind
    (fun rec => (rec.get "status".toList).bind Value.asInt)

/-- The closure's output makes a tuple, its client stays, and nothing but the status can refuse a response. -/
structure Answers (output : PipelineData) (result : PipelineResult) : Prop where
  route : ¬ (config.datastar = true ∧ parts.uri.path = datastarJsPath)
  stays : evaluation.aborted = false
  starts : evaluation.clonePanics = false
  ordinary : (evaluation.run (requestOf W config addr parts)).specials = []
  outcome : (evaluation.run (requestOf W config addr parts)).outcome = .ok output
  tuple : responseTuple W.rendering output = .ok result
  contentType : ∀ ct ∈ responseContentType result, (HeaderValue.fromStr ct).isSome
  headers : ValidHeaders isContentType result.2.1.headers
  compresses : ∀ bytes, ∃ coded, W.compressFull bytes = .ok coded

/-- A number that is a status is the status of the response, and any other number is answered with an error. -/
def StatusFaithful (n : Int) (handled : Handled) : Prop :=
  (100 ≤ n ∧ n ≤ 999 → ∃ reply, handled = .responded reply ∧ (reply.status.toNat : Int) = n) ∧
    (¬ (100 ≤ n ∧ n ≤ 999) → ∃ err, handled = .responded (errorReply err))

variable {W config addr parts evaluation} {output : PipelineData} {result : PipelineResult}

lemma extract_status (metadata : Option Metadata) :
    (extractHttpResponseMeta metadata).status = (statusSet metadata).map UInt16.ofInt := by
  rw [extractHttpResponseMeta, statusSet]
  cases metadata.bind (fun m => (m.custom.get "http.response".toList).bind Value.asRecord) <;> rfl

lemma ofInt_toNat (n : Int) : ((UInt16.ofInt n).toNat : Int) = n % 65536 := by
  rw [UInt16.ofInt, UInt16.toNat_ofNat']
  omega

lemma validStatus_iff (status : UInt16) :
    validStatus status = true ↔ 100 ≤ status.toNat ∧ status.toNat < 1000 := by
  simp [validStatus, UInt16.le_iff_toNat_le, UInt16.lt_iff_toNat_lt]

lemma handleInner_answers (h : Answers W config addr parts evaluation output result) :
    handleInner W config addr parts evaluation requestId =
      concluded W config addr parts requestId (fun guard =>
        normalResponse W guard (.ok result) (acceptsBrotli W.decodeAccept parts.headers)) := by
  have hspecial : firstSpecial evaluation.clonePanics (evaluation.run (requestOf W config addr parts)) = none := by
    rw [firstSpecial, h.ordinary]
    exact ite_self none
  have htuple : sentTuple W.rendering evaluation.clonePanics (evaluation.run (requestOf W config addr parts)) =
      some result := by
    rw [sentTuple, h.starts, if_neg (by simp), h.outcome]
    simp only [h.tuple, Except.toOption]
  rw [handleInner_respondWith requestId h.route h.stays, hspecial, htuple]
  rfl

lemma handle_answers (h : Answers W config addr parts evaluation output result) :
    if validStatus (responseStatus result.2.1.status result.2.2) then
      ∃ headers inner guard, (handle W config addr parts evaluation requestId).2 =
        .responded ⟨responseStatus result.2.1.status result.2.2, headers, .logging inner guard⟩
    else (handle W config addr parts evaluation requestId).2 = .panicked := by
  obtain ⟨m, hm⟩ := (responseHeaders_ok_iff result (acceptsBrotli W.decodeAccept parts.headers)).mpr
    ⟨h.contentType, h.headers⟩
  rw [handle, handleInner_answers requestId h, concluded, normalResponse]
  split
  · rename_i hvalid
    obtain ⟨body, hbody⟩ := (responseBody_ok_iff result (acceptsBrotli W.decodeAccept parts.headers)).mpr
      (fun _ bytes _ => h.compresses bytes)
    rw [buildNormalResponse_eq hm hvalid hbody]
    exact ⟨m, _, _, rfl⟩
  · rename_i hinvalid
    simp only [buildNormalResponse, hm, if_neg hinvalid, dropGuard]

theorem status_faithful_iff (h : Answers W config addr parts evaluation output result) :
    (∀ n, statusSet output.metadata = some n →
        (StatusFaithful n (handle W config addr parts evaluation requestId).2 ↔ 100 ≤ n ∧ n ≤ 999)) ∧
      (statusSet output.metadata = none →
        ∃ reply, (handle W config addr parts evaluation requestId).2 = .responded reply ∧
          reply.status = if result.2.2 = .empty then 204 else 200) := by
  have hanswer := handle_answers requestId h
  have hmeta : result.2.1.status = (statusSet output.metadata).map UInt16.ofInt := by
    rw [responseTuple_meta W.rendering h.tuple, extract_status]
  constructor
  · intro n hn
    rw [hmeta, hn] at hanswer
    have hstatus : responseStatus (Option.map UInt16.ofInt (some n)) result.2.2 = UInt16.ofInt n := rfl
    rw [hstatus] at hanswer
    constructor
    · intro hfaithful
      by_contra hrange
      obtain ⟨err, herr⟩ := hfaithful.2 hrange
      rw [herr] at hanswer
      split at hanswer
      · obtain ⟨headers, inner, guard, heq⟩ := hanswer
        cases congrArg Reply.body (Handled.responded.inj heq)
      · cases hanswer
    · rintro ⟨hlow, hhigh⟩
      have hnat := ofInt_toNat n
      have hvalid : validStatus (UInt16.ofInt n) = true := (validStatus_iff _).mpr (by omega)
      rw [if_pos hvalid] at hanswer
      obtain ⟨headers, inner, guard, heq⟩ := hanswer
      exact ⟨fun _ => ⟨_, heq, by dsimp only; omega⟩, fun hrange => absurd ⟨hlow, hhigh⟩ hrange⟩
  · intro hnone
    rw [hmeta, hnone] at hanswer
    have hstatus : responseStatus (Option.map UInt16.ofInt none) result.2.2 =
        if result.2.2 = .empty then 204 else 200 := by
      cases result.2.2 <;> rfl
    rw [hstatus, if_pos (by split <;> rfl)] at hanswer
    obtain ⟨headers, inner, guard, heq⟩ := hanswer
    exact ⟨_, heq, rfl⟩

def saysHi (status : Int) : Evaluation :=
  ⟨fun _ => ⟨[], .ok (.value (.string "hi".toList)
    (some ⟨none, [("http.response".toList, .record [("status".toList, .int status)])]⟩))⟩, false, none, false⟩

theorem status_faithful_notFound :
    StatusFaithful 404 (handle bareWorld ⟨[], false⟩ none getRoot (saysHi 404) 7).2 := by
  have h : Answers bareWorld ⟨[], false⟩ none getRoot (saysHi 404) _
      (none, { status := some 404 }, .full (utf8 "hi".toList)) :=
    ⟨by decide, rfl, rfl, rfl, rfl, rfl, by rintro _ ⟨⟩; decide, fun e he => (by cases he),
      fun bytes => ⟨bytes, rfl⟩⟩
  exact ((status_faithful_iff 7 h).1 404 rfl).mpr (by decide)

/-- A status that wraps to 200 is taken for 200, and one below 100 leaves the request without an answer. -/
theorem wrapped_status :
    ¬ StatusFaithful 65736 (handle bareWorld ⟨[], false⟩ none getRoot (saysHi 65736) 7).2 ∧
      ¬ StatusFaithful 99 (handle bareWorld ⟨[], false⟩ none getRoot (saysHi 99) 7).2 := by
  constructor
  · rintro ⟨_, h⟩
    obtain ⟨err, herr⟩ := h (by decide)
    cases congrArg Reply.status (Handled.responded.inj herr)
  · rintro ⟨_, h⟩
    obtain ⟨err, herr⟩ := h (by decide)
    cases herr

end HttpNu.Handler
