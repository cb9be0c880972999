import HttpNu.Handler.AccessLog
import HttpNu.Handler.ContentCoding

/-! Where the content type of a response comes from: the handler's headers, the metadata or the value. -/

namespace HttpNu.Handler

open Text Library Http Response Worker

def NormalResponse.Carries (response : NormalResponse) (ct : Str) : Prop :=
  ∃ value, HeaderValue.fromStr ct = some value ∧ response.headers.getAll contentType = [value]

def firstValue : Response.HeaderValue → Option Str
  | .single s => some s
  | .multiple values => values.head?

/-- The entry spelled in lower case begins with this value; without it, the entry spelled with capitals does. -/
def LookedUp (headers : Headers) (ct : Str) : Prop :=
  ∃ v, (getHeader headers "content-type".toList = some v ∨
    (getHeader headers "content-type".toList = none ∧ getHeader headers "Content-Type".toList = some v)) ∧
      firstValue v = some ct

def ExplicitWins (http : HttpResponseMeta) : Prop :=
  ∀ k v ct, (k, v) ∈ http.headers → isContentType k = true → firstValue v = some ct →
    ∀ compressFull inferred body useBrotli requestId logged response,
      buildNormalResponse compressFull (inferred, http, body) useBrotli requestId = (logged, .ok response) →
        response.Carries ct

def Unanswerable (http : HttpResponseMeta) : Prop :=
  ¬ ValidHeaders isContentType http.headers ∨ (∃ status ∈ http.status, validStatus status = false) ∨
    ∃ ct, LookedUp http.headers ct ∧ HeaderValue.fromStr ct = none

lemma explicitContentType_eq_some {headers : Headers} {ct : Str} :
    explicitContentType headers = some ct ↔ LookedUp headers ct := by
  rw [explicitContentType, LookedUp]
  cases getHeader headers "content-type".toList with
  | some v => cases v <;> simp [firstValue]
  | none =>
    cases getHeader headers "Content-Type".toList with
    | none => simp
    | some v => cases v <;> simp [firstValue]

lemma isTokenChar_of_toLower {c : Char} (h : isTokenChar c.toLower = true) : isTokenChar c = true := by
  by_cases hc : c.val ≥ 'A'.val ∧ c.val ≤ 'Z'.val
  · have hupper : c.isUpper = true := decide_eq_true hc
    have halphanum : c.isAlphanum = true := by
      change (c.isUpper || c.isLower || c.isDigit) = true
      rw [hupper, Bool.true_or, Bool.true_or]
    rw [isTokenChar, halphanum, Bool.true_or]
  · have hlower : c.toLower = c := dif_neg hc
    rwa [hlower] at h

lemma isContentType_iff (k : Str) : isContentType k = true ↔ headerName k = some contentType := by
  constructor
  · intro h
    have hk : k.map Char.toLower = contentType := of_decide_eq_true h
    have hlength : k.length = contentType.length := by rw [← hk, List.length_map]
    have htoken : k.all isTokenChar = true := by
      rw [List.all_eq_true]
      intro c hc
      have hmem : c.toLower ∈ contentType := hk ▸ List.mem_map_of_mem hc
      exact isTokenChar_of_toLower (List.all_eq_true.mp (show contentType.all isTokenChar = true by decide) _ hmem)
    have hne : k ≠ [] := by
      rintro rfl
      cases hk
    rw [headerName, if_pos ⟨hne, htoken, hlength ▸ (by decide)⟩, hk]
  · intro h
    rw [headerName] at h
    split at h
    · exact decide_eq_true (Option.some.inj h)
    · cases h

lemma names_contentType (k : Str) : names contentType k = false := by
  rw [names]
  cases hk : isContentType k with
  | true => rfl
  | false =>
    have hne : headerName k ≠ some contentType := by
      rw [Ne, ← isContentType_iff, hk]
      exact Bool.false_ne_true
    simp [hne]

lemma valuesAfter_contentType (headers : Headers) (values : List Http.HeaderValue) :
    valuesAfter contentType headers values = values := by
  induction headers generalizing values with
  | nil => rfl
  | cons e rest ih =>
    rw [valuesAfter, names_contentType, if_neg (by simp)]
    exact ih values

lemma responseHeaders_contentType {result : PipelineResult} {useBrotli : Bool} {m : HeaderMap}
    (h : responseHeaders result useBrotli = .ok m) :
    match responseContentType result with
    | some ct => ∃ value, HeaderValue.fromStr ct = some value ∧ m.getAll contentType = [value]
    | none => m.getAll contentType = [] := by
  obtain ⟨m₀, hset, h⟩ := except_bind_ok h
  have hne : contentType ≠ vary ∧ contentType ≠ cacheControl ∧ contentType ≠ connection ∧
      contentType ≠ contentEncoding := by decide
  have hm : m.getAll contentType = m₀.getAll contentType := by
    rw [addHeaders_getAll h, valuesAfter_contentType, baseHeaders_getAll _ _ _ hne.1 hne.2.1 hne.2.2.1,
      if_neg (fun hc => hne.2.2.2 hc.2)]
  cases hct : responseContentType result with
  | none =>
    rw [hct] at hset
    obtain rfl := Except.ok.inj hset
    exact hm
  | some ct =>
    rw [hct] at hset
    obtain ⟨value, hvalue, hset⟩ := except_bind_ok hset
    obtain rfl := Except.ok.inj hset
    exact ⟨value, parseHeaderValue_ok hvalue, by rw [hm, MultiMap.getAll_insert_self]⟩

variable {compressFull : Bytes → Except Str Bytes} {http : HttpResponseMeta} {inferred : Option Str}
  {body : ResponseTransport} {useBrotli : Bool} {requestId : Nat} {logged : List Logging.Event}
  {response : NormalResponse}

lemma carries_iff
    (h : buildNormalResponse compressFull (inferred, http, body) useBrotli requestId = (logged, .ok response))
    (ct : Str) : response.Carries ct ↔ responseContentType (inferred, http, body) = some ct := by
  have hheaders := responseHeaders_contentType (buildNormalResponse_ok h).1
  cases hct : responseContentType (inferred, http, body) with
  | none =>
    rw [hct] at hheaders
    simp [NormalResponse.Carries, hheaders]
  | some ct' =>
    rw [hct] at hheaders
    obtain ⟨value', hvalue', hget⟩ := hheaders
    rw [Option.some.injEq]
    constructor
    · rintro ⟨value, hvalue, hget'⟩
      obtain rfl : value' = value := List.singleton_inj.mp (hget.symm.trans hget')
      exact HeaderValue.fromStr_inj hvalue' hvalue
    · rintro rfl
      exact ⟨value', hvalue', hget⟩

lemma carries_of_mem
    (h : buildNormalResponse compressFull (inferred, http, body) useBrotli requestId = (logged, .ok response))
    {ct : Str} {value : Http.HeaderValue} (hvalue : HeaderValue.fromStr ct = some value)
    (hmem : value ∈ response.headers.getAll contentType) : response.Carries ct := by
  have hheaders := responseHeaders_contentType (buildNormalResponse_ok h).1
  refine ⟨value, hvalue, ?_⟩
  split at hheaders
  · obtain ⟨value', _, hget⟩ := hheaders
    rw [hget, List.mem_singleton] at hmem
    rw [hget, hmem]
  · rw [hheaders] at hmem
    cases hmem

lemma responseContentType_explicit {ct : Str} (h : explicitContentType http.headers = some ct) :
    responseContentType (inferred, http, body) = some ct := by
  simp only [responseContentType, h, Option.some_or]

lemma responseContentType_inferred (h : explicitContentType http.headers = none) :
    responseContentType (inferred, http, body) =
      inferred.or (if body = .empty then none else some "text/html; charset=utf-8".toList) := by
  simp only [responseContentType, h, Option.none_or]

lemma buildNormalResponse_built (compressFull : Bytes → Except Str Bytes) (inferred : Option Str)
    (body : ResponseTransport) (requestId : Nat) (hhttp : ¬ Unanswerable http)
    (hinferred : ∀ ct ∈ inferred, (HeaderValue.fromStr ct).isSome) :
    ∃ logged response,
      buildNormalResponse compressFull (inferred, http, body) false requestId = (logged, .ok response) := by
  rw [Unanswerable, not_or, not_or, not_not] at hhttp
  obtain ⟨hvalid, hstatus, hlooked⟩ := hhttp
  have hct : ∀ ct ∈ responseContentType (inferred, http, body), (HeaderValue.fromStr ct).isSome := by
    intro ct hct
    cases hexplicit : explicitContentType http.headers with
    | some ct' =>
      rw [responseContentType_explicit hexplicit] at hct
      obtain rfl := Option.some.inj hct
      by_contra hnone
      exact hlooked ⟨_, explicitContentType_eq_some.mp hexplicit, by simpa using hnone⟩
    | none =>
      rw [responseContentType_inferred hexplicit] at hct
      cases hi : inferred with
      | some ct' =>
        rw [hi, Option.some_or] at hct
        obtain rfl := Option.some.inj hct
        exact hinferred _ hi
      | none =>
        rw [hi, Option.none_or] at hct
        split at hct
        · cases hct
        · obtain rfl := Option.some.inj hct
          decide
  obtain ⟨m, hm⟩ := (responseHeaders_ok_iff (inferred, http, body) false).mpr ⟨hct, hvalid⟩
  have hbody : ∃ built, responseBody compressFull (inferred, http, body) false = .ok built :=
    (responseBody_ok_iff _ _).mpr (by simp)
  obtain ⟨built, hbuilt⟩ := hbody
  have hstatus : validStatus (responseStatus http.status body) = true := by
    cases hs : http.status with
    | none => cases body <;> rfl
    | some status =>
      by_contra hinvalid
      exact hstatus ⟨status, hs, by simpa [responseStatus] using hinvalid⟩
  exact ⟨_, _, buildNormalResponse_eq hm hstatus hbuilt⟩

lemma answerable_of_built
    (h : buildNormalResponse compressFull (inferred, http, body) useBrotli requestId = (logged, .ok response)) :
    ¬ Unanswerable http := by
  obtain ⟨hheaders, hstatus, heq, _⟩ := buildNormalResponse_ok h
  obtain ⟨hct, hvalid⟩ := (responseHeaders_ok_iff _ _).mp ⟨_, hheaders⟩
  rintro (hinvalid | ⟨status, hs, hinvalid⟩ | ⟨ct, hlooked, hnone⟩)
  · exact hinvalid hvalid
  · rw [heq] at hstatus
    simp only [show http.status = some status from hs, responseStatus, hinvalid] at hstatus
    cases hstatus
  · have hsome := hct ct (responseContentType_explicit (explicitContentType_eq_some.mpr hlooked))
    rw [hnone] at hsome
    cases hsome

lemma lookedUp_of_carries (hhttp : ¬ Unanswerable http) {ct : Str}
    (h : ∀ inferred logged response,
      buildNormalResponse Except.ok (inferred, http, .stream) false 0 = (logged, .ok response) →
        response.Carries ct) :
    LookedUp http.headers ct := by
  obtain ⟨other, hvalid, hother⟩ : ∃ other, (HeaderValue.fromStr other).isSome ∧ other ≠ ct := by
    by_cases hct : ct = ['a']
    · exact ⟨['b'], by decide, by simp [hct]⟩
    · exact ⟨['a'], by decide, Ne.symm hct⟩
  obtain ⟨logged, response, hbuilt⟩ := buildNormalResponse_built Except.ok (some other) .stream 0 hhttp
    (by rintro _ ⟨⟩; exact hvalid)
  have hcarries := (carries_iff hbuilt ct).mp (h _ _ _ hbuilt)
  cases hexplicit : explicitContentType http.headers with
  | some ct' =>
    rw [responseContentType_explicit hexplicit] at hcarries
    obtain rfl := Option.some.inj hcarries
    exact explicitContentType_eq_some.mp hexplicit
  | none =>
    rw [responseContentType_inferred hexplicit, Option.some_or] at hcarries
    exact absurd (Option.some.inj hcarries) hother

theorem explicitWins_iff (http : HttpResponseMeta) :
    ExplicitWins http ↔ Unanswerable http ∨ ∀ k v ct, (k, v) ∈ http.headers → isContentType k = true →
      firstValue v = some ct → LookedUp http.headers ct := by
  constructor
  · intro h
    by_cases hhttp : Unanswerable http
    · exact Or.inl hhttp
    · refine Or.inr fun k v ct hmem hk hv => ?_
      apply lookedUp_of_carries hhttp
      intro inferred logged response hbuilt
      exact h k v ct hmem hk hv _ _ _ _ _ _ _ hbuilt
  · rintro (hhttp | hlooked) k v ct hmem hk hv compressFull inferred body useBrotli requestId logged
      response hbuilt
    · exact absurd hhttp (answerable_of_built hbuilt)
    · rw [carries_iff hbuilt]
      exact responseContentType_explicit (explicitContentType_eq_some.mpr (hlooked k v ct hmem hk hv))

def shouted : HttpResponseMeta := { headers := [("CONTENT-TYPE".toList, .single "text/css".toList)] }

theorem shouted_dropped : ¬ ExplicitWins shouted := by
  intro h
  have hcss := h _ _ "text/css".toList List.mem_cons_self (by decide) rfl Except.ok none (.full []) false 0 _ _ rfl
  obtain ⟨value, hvalue, hget⟩ := hcss
  obtain rfl := Option.some.inj hvalue
  exact absurd (congrArg (List.map HeaderValue.chars) hget) (by decide +kernel)

def valueContentType : PipelineData → Option Str
  | .empty => none
  | .value .nothing _ => none
  | .value (.record val) _ =>
    if (Record.get val "__html".toList).isSome then some "text/html; charset=utf-8".toList
    else some "application/json".toList
  | .value (.list _) _ => some "application/json".toList
  | .value (.binary _) _ => some "application/octet-stream".toList
  | .value _ _ => some "text/html; charset=utf-8".toList
  | .listStream stream _ =>
    if useJsonl stream.vals then some "application/x-ndjson".toList else some "text/html; charset=utf-8".toList
  | .byteStream _ _ => some "application/octet-stream".toList

/-- The content type of the metadata, and the one of the value only without it. -/
def documentedContentType (output : PipelineData) : Option Str :=
  (metaContentType output.metadata).or (valueContentType output)

def MetadataWins (R : Rendering) (output : PipelineData) : Prop :=
  ∀ inferred http body, responseTuple R output = .ok (inferred, http, body) →
    (∀ e ∈ http.headers, isContentType e.1 = false) →
      ∀ compressFull useBrotli requestId logged response,
        buildNormalResponse compressFull (inferred, http, body) useBrotli requestId = (logged, .ok response) →
          match documentedContentType output with
          | some ct => response.Carries ct
          | none => response.headers.getAll contentType = []

/-- A stream that begins with a record is taken for lines of JSON, whatever its metadata say. -/
def Overruled (output : PipelineData) : Prop :=
  ∃ stream metadata ct, output = .listStream stream metadata ∧ useJsonl stream.vals = true ∧
    metaContentType metadata = some ct ∧ ct ≠ "application/x-ndjson".toList

lemma explicitContentType_eq_none {headers : Headers} (h : ∀ e ∈ headers, isContentType e.1 = false) :
    explicitContentType headers = none := by
  have hnone : ∀ k, isContentType k = true → getHeader headers k = none := by
    intro k hk
    rw [getHeader, Option.map_eq_none_iff, List.find?_eq_none]
    intro e he heq
    rw [← of_decide_eq_true heq, h e he] at hk
    cases hk
  simp only [explicitContentType, hnone _ (show isContentType "content-type".toList = true by decide),
    hnone _ (show isContentType "Content-Type".toList = true by decide), Option.none_or]

lemma tuple_inj {inferred inferred' : Option Str} {http http' : HttpResponseMeta} {body body' : ResponseTransport}
    (h : (Except.ok (inferred, http, body) : Except Failure PipelineResult) = .ok (inferred', http', body')) :
    inferred = inferred' ∧ http = http' ∧ body = body' := by
  simpa using h

lemma responseTuple_value {R : Rendering} {v : Value} {metadata : Option Metadata} {inferred : Option Str}
    {http : HttpResponseMeta} {body : ResponseTransport}
    (h : responseTuple R (.value v metadata) = .ok (inferred, http, body)) :
    inferred = inferredContentType (.value v metadata) ∧ (body = .empty ↔ v.isNothing = true) := by
  cases v with
  | nothing =>
    obtain ⟨rfl, _, rfl⟩ := tuple_inj h
    exact ⟨rfl, iff_of_true rfl rfl⟩
  | error error => cases h
  | _ =>
    simp only [responseTuple] at h
    split at h
    · obtain ⟨rfl, _, rfl⟩ := tuple_inj h
      exact ⟨rfl, by simp [Value.isNothing]⟩
    · cases h

lemma inferred_or_default {R : Rendering} {output : PipelineData} {inferred : Option Str} {http : HttpResponseMeta}
    {body : ResponseTransport} (h : responseTuple R output = .ok (inferred, http, body))
    (hover : ¬ Overruled output) :
    inferred.or (if body = .empty then none else some "text/html; charset=utf-8".toList) =
      documentedContentType output := by
  cases output with
  | empty =>
    obtain ⟨rfl, _, rfl⟩ := tuple_inj h
    rfl
  | value v metadata =>
    obtain ⟨rfl, hbody⟩ := responseTuple_value h
    rw [documentedContentType, PipelineData.metadata]
    cases hm : metaContentType metadata with
    | some ct => simp only [inferredContentType, hm, Option.some_or]
    | none =>
      cases v with
      | nothing =>
        rw [if_pos (hbody.mpr rfl)]
        simp only [inferredContentType, hm, Option.none_or, valueContentType]
      | record val =>
        simp only [inferredContentType, hm, Option.none_or, valueContentType]
        split <;> rfl
      | list vals => simp only [inferredContentType, hm, Option.none_or, Option.some_or, valueContentType]
      | binary val => simp only [inferredContentType, hm, Option.none_or, Option.some_or, valueContentType]
      | _ =>
        have hne : body ≠ .empty := fun he => Bool.noConfusion (hbody.mp he)
        rw [if_neg hne]
        simp only [inferredContentType, hm, Option.none_or, valueContentType]
  | listStream stream metadata =>
    rw [documentedContentType, PipelineData.metadata, valueContentType]
    simp only [responseTuple] at h
    split at h
    · cases h
    · split at h <;> rename_i hjsonl <;> obtain ⟨rfl, _, rfl⟩ := tuple_inj h
      · rw [if_pos hjsonl, Option.some_or]
        cases hm : metaContentType metadata with
        | none => rfl
        | some ct =>
          rw [Option.some_or]
          by_contra hne
          exact hover ⟨stream, metadata, ct, rfl, hjsonl, hm, fun hct => hne (congrArg some hct.symm)⟩
      · rw [if_neg hjsonl, inferredContentType]
        rfl
  | byteStream reader metadata =>
    obtain ⟨rfl, _, rfl⟩ := tuple_inj h
    rw [documentedContentType, PipelineData.metadata, valueContentType, Option.or_assoc, Option.some_or]

lemma overruled_tuple {R : Rendering} {output : PipelineData} (h : Overruled output) :
    responseTuple R output =
      .ok (some "application/x-ndjson".toList, extractHttpResponseMeta output.metadata, .stream) := by
  obtain ⟨stream, metadata, ct, rfl, hjsonl, _, _⟩ := h
  have hnonempty : stream.vals.isEmpty = false := by
    cases hvals : stream.vals with
    | nil =>
      rw [hvals] at hjsonl
      cases hjsonl
    | cons v vals => rfl
  simp only [responseTuple, hnonempty, Bool.false_and, Bool.false_eq_true, if_false, hjsonl, if_true,
    PipelineData.metadata]

lemma overruled_documented {output : PipelineData} (h : Overruled output) :
    ∃ ct, documentedContentType output = some ct ∧ ct ≠ "application/x-ndjson".toList := by
  obtain ⟨stream, metadata, ct, rfl, _, hct, hne⟩ := h
  exact ⟨ct, by simp only [documentedContentType, PipelineData.metadata, hct, Option.some_or], hne⟩

theorem metadataWins_iff (R : Rendering) (output : PipelineData) :
    MetadataWins R output ↔ ¬ Overruled output ∨ Unanswerable (extractHttpResponseMeta output.metadata) ∨
      ∃ e ∈ (extractHttpResponseMeta output.metadata).headers, isContentType e.1 = true := by
  constructor
  · intro h
    by_contra hc
    simp only [not_or, not_not, not_exists, not_and, Bool.not_eq_true] at hc
    obtain ⟨hover, hhttp, hown⟩ := hc
    obtain ⟨logged, response, hbuilt⟩ := buildNormalResponse_built Except.ok
      (some "application/x-ndjson".toList) .stream 0 hhttp (by rintro _ ⟨⟩; decide)
    have hcarries := h _ _ _ (overruled_tuple hover) hown _ _ _ _ _ hbuilt
    obtain ⟨ct, hdocumented, hne⟩ := overruled_documented hover
    rw [hdocumented] at hcarries
    have hct := (carries_iff hbuilt ct).mp hcarries
    rw [responseContentType_inferred (explicitContentType_eq_none hown), Option.some_or] at hct
    exact hne (Option.some.inj hct).symm
  · intro hc inferred http body htuple hown compressFull useBrotli requestId logged response hbuilt
    have hmeta : http = extractHttpResponseMeta output.metadata := responseTuple_meta R htuple
    rw [← hmeta] at hc
    have hover : ¬ Overruled output := by
      rcases hc with hover | hhttp | ⟨e, he, hk⟩
      · exact hover
      · exact absurd hhttp (answerable_of_built hbuilt)
      · rw [hown e he] at hk
        cases hk
    have hct : responseContentType (inferred, http, body) = documentedContentType output := by
      rw [responseContentType_inferred (explicitContentType_eq_none hown), inferred_or_default htuple hover]
    cases hd : documentedContentType output with
    | some ct => exact (carries_iff hbuilt ct).mpr (hct.trans hd)
    | none =>
      have hheaders := responseHeaders_contentType (buildNormalResponse_ok hbuilt).1
      rwa [hct.trans hd] at hheaders

def taggedRecords : PipelineData :=
  .listStream ⟨[⟨[], .record [("a".toList, .int 1)]⟩], [], false⟩ (some ⟨some "text/csv".toList, []⟩)

theorem taggedRecords_overruled : ¬ MetadataWins .plain taggedRecords := by
  intro h
  have hover : Overruled taggedRecords := ⟨_, _, _, rfl, by decide, rfl, by decide⟩
  have hmeta : extractHttpResponseMeta taggedRecords.metadata = {} := rfl
  have hhttp : ¬ Unanswerable {} := by
    rintro (hinvalid | ⟨status, hs, _⟩ | ⟨ct, ⟨v, hv | ⟨_, hv⟩, _⟩, _⟩)
    · exact hinvalid (fun e he => by cases he)
    · cases hs
    · cases hv
    · cases hv
  obtain ⟨logged, response, hbuilt⟩ := buildNormalResponse_built Except.ok
    (some "application/x-ndjson".toList) .stream 0 hhttp (by rintro _ ⟨⟩; decide)
  have hcsv := h _ _ _ (overruled_tuple hover) (by simp [hmeta]) _ _ _ _ _ (hmeta ▸ hbuilt)
  have hct := (carries_iff hbuilt "text/csv".toList).mp hcsv
  rw [responseContentType_inferred rfl, Option.some_or] at hct
  exact absurd (Option.some.inj hct) (by decide)

end HttpNu.Handler
