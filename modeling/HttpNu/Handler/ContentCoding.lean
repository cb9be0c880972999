import HttpNu.Handler.NormalResponse

/-! Whether the encoding headers of a response describe the bytes that are transmitted. -/

namespace HttpNu.Handler

open Text Library Http Response Worker StreamBody

def identity : Str := "identity".toList

def isOws (c : Char) : Bool := c = ' ' || c = '\t'

/-- The codings that the values of a `Content-Encoding` header name, in the order they were applied. -/
def codings (values : List Http.HeaderValue) : List Str :=
  ((values.flatMap (fun v => v.chars.splitOn ',')).map
    (fun s => toLowercase ((s.dropWhile isOws).rdropWhile isOws))).filter (· ≠ [])

def parseLength (v : Http.HeaderValue) : Option Nat :=
  if v.chars ≠ [] ∧ v.chars.all Char.isDigit then
    some (v.chars.foldl (fun n c => n * 10 + (c.toNat - '0'.toNat)) 0)
  else none

structure Codec where
  compressFull : Bytes → Except Str Bytes
  encoder : Encoder
  undo : Str → Bytes → Option Bytes

/-- Brotli decoding undoes brotli encoding, and `identity` stands for no encoding. -/
structure Codec.Lawful (c : Codec) : Prop where
  full : ∀ plain coded, c.compressFull plain = .ok coded → c.undo br coded = some plain
  streaming : ∃ decode, c.encoder.Lawful decode
  finished : c.encoder.Completes (c.undo br)
  identity : ∀ plain, c.undo identity plain = some plain

def Codec.undoAll (c : Codec) (ks : List Str) (body : Bytes) : Option Bytes :=
  ks.foldr (fun k decoded => decoded.bind (c.undo k)) (some body)

def transport (streamed : Bool) (produced : Bytes) : ResponseTransport :=
  if streamed then .stream else .full produced

/-- The bytes that a body transmits until it has ended cleanly. -/
inductive Transmits (c : Codec) (produced : Bytes) : InnerBody → Bytes → Prop where
  | full (transmitted : Bytes) : Transmits c produced (.full transmitted) transmitted
  | stream (isSse useBrotli : Bool) (acts : List StreamBody.Act) (s : StreamBody.State)
      (hrun : run (step c.encoder isSse) (init useBrotli) acts = some s)
      (hdone : .done ∈ s.outputs) (herror : .error ∉ s.outputs) (hsent : s.rx.sent.flatten = produced) :
      Transmits c produced (.stream isSse useBrotli) (frames s.outputs)

/-- Undoing what the final headers name gives what undoing what the handler declared would have given, and
a length that was right stays right. -/
def Agrees (c : Codec) (final declared : HeaderMap) (produced transmitted : Bytes) : Prop :=
  c.undoAll (codings (final.getAll contentEncoding)) transmitted =
      c.undoAll (codings (declared.getAll contentEncoding)) produced ∧
    ∀ v ∈ final.getAll contentLength, parseLength v = some produced.length →
      produced.length = transmitted.length

def BodyAgrees (inferred : Option Str) (http : HttpResponseMeta) (streamed : Bool) (produced : Bytes)
    (useBrotli : Bool) : Prop :=
  ∀ c : Codec, c.Lawful → ∀ requestId logged response transmitted declared,
    buildNormalResponse c.compressFull (inferred, http, transport streamed produced) useBrotli requestId =
      (logged, .ok response) →
    Transmits c produced response.body transmitted →
    addHeaders http.headers .empty = .ok declared →
    Agrees c response.headers declared produced transmitted

def names (name k : Str) : Bool := !isContentType k && decide (headerName k = some name)

def isSingle : Response.HeaderValue → Bool
  | .single _ => true
  | .multiple _ => false

def replaces (name : Str) (headers : Headers) : Bool :=
  headers.any (fun e => names name e.1 && isSingle e.2)

def Refused (inferred : Option Str) (http : HttpResponseMeta) : Prop :=
  (∀ headerMap, responseHeaders (inferred, http, .full []) false ≠ .ok headerMap) ∨
    validStatus (responseStatus http.status (.full [])) = false

/-- The handler's own headers leave the compressed body described: they do not replace the encoding, add no
other coding to it, and do not state the length of what was produced. -/
def LeavesCoding (headers : Headers) (produced : Bytes) : Prop :=
  ∀ declared, addHeaders headers .empty = .ok declared →
    replaces contentEncoding headers = false ∧
      (∀ k ∈ codings (declared.getAll contentEncoding), k = br ∨ k = identity) ∧
      ∀ v ∈ declared.getAll contentLength, parseLength v ≠ some produced.length

def putValues (values : List Http.HeaderValue) : Response.HeaderValue → List Http.HeaderValue
  | .single s => (HeaderValue.fromStr s).toList
  | .multiple added => values ++ added.filterMap HeaderValue.fromStr

def valuesAfter (name : Str) : Headers → List Http.HeaderValue → List Http.HeaderValue
  | [], values => values
  | (k, v) :: rest, values => valuesAfter name rest (if names name k then putValues values v else values)

lemma except_bind_ok {α β : Type} {x : Except Str α} {f : α → Except Str β} {b : β} (h : x >>= f = .ok b) :
    ∃ a, x = .ok a ∧ f a = .ok b := by
  cases x with
  | error e => cases h
  | ok a => exact ⟨a, rfl, h⟩

lemma parseHeaderValue_ok {s : Str} {value : Http.HeaderValue} (h : parseHeaderValue s = .ok value) :
    HeaderValue.fromStr s = some value := by
  simp only [parseHeaderValue] at h
  split at h
  · rename_i hv
    rw [hv, Except.ok.inj h]
  · cases h

lemma parseHeaderName_ok {k name : Str} (h : parseHeaderName k = .ok name) : headerName k = some name := by
  simp only [parseHeaderName] at h
  split at h
  · rename_i hk
    rw [hk, Except.ok.inj h]
  · cases h

lemma getAll_appendAll (values : List Http.HeaderValue) (m : HeaderMap) (j name : Str) :
    (values.foldl (fun m value => m.append name value) m).getAll j =
      m.getAll j ++ if j = name then values else [] := by
  induction values generalizing m with
  | nil => simp
  | cons value values ih =>
    rw [List.foldl_cons, ih, MultiMap.getAll_append]
    split <;> simp

lemma putHeader_getAll {m m' : HeaderMap} {name : Str} {v : Response.HeaderValue}
    (h : putHeader m name v = .ok m') (j : Str) :
    m'.getAll j = if name = j then putValues (m.getAll j) v else m.getAll j := by
  cases v with
  | single s =>
    obtain ⟨value, hv, h⟩ := except_bind_ok h
    obtain rfl := Except.ok.inj h
    rw [putValues, parseHeaderValue_ok hv]
    split
    · rename_i hj
      subst hj
      simp
    · rename_i hj
      exact MultiMap.getAll_insert_ne m (Ne.symm hj) value
  | multiple added =>
    obtain rfl := Except.ok.inj h
    rw [getAll_appendAll, putValues]
    by_cases hj : name = j
    · simp [hj]
    · simp [hj, Ne.symm hj]

lemma addHeaders_getAll {headers : Headers} {m m' : HeaderMap} (h : addHeaders headers m = .ok m') (j : Str) :
    m'.getAll j = valuesAfter j headers (m.getAll j) := by
  induction headers generalizing m with
  | nil =>
    obtain rfl := Except.ok.inj h
    rfl
  | cons e rest ih =>
    obtain ⟨k, v⟩ := e
    simp only [addHeaders, putHeaders] at h
    rw [valuesAfter]
    split at h
    · rename_i hk
      have hn : names j k = false := by simp [names, hk]
      rw [hn]
      exact ih h
    · rename_i hk
      obtain ⟨name, hname, h⟩ := except_bind_ok h
      obtain ⟨m₁, hput, h⟩ := except_bind_ok h
      have hn : names j k = decide (name = j) := by
        simp [names, parseHeaderName_ok hname, hk]
      rw [ih h, putHeader_getAll hput j, hn]
      simp only [decide_eq_true_eq]

lemma declared_getAll {headers : Headers} {declared : HeaderMap} (h : addHeaders headers .empty = .ok declared)
    (j : Str) : declared.getAll j = valuesAfter j headers [] := by
  rw [addHeaders_getAll h, MultiMap.getAll_empty]

lemma putHeader_ok {m m' : HeaderMap} {name : Str} {v : Response.HeaderValue} (h : putHeader m name v = .ok m')
    (n : HeaderMap) : ∃ n', putHeader n name v = .ok n' := by
  cases v with
  | single s =>
    obtain ⟨value, hv, _⟩ := except_bind_ok h
    exact ⟨n.insert name value, by rw [putHeader, hv]; rfl⟩
  | multiple added => exact ⟨_, rfl⟩

lemma addHeaders_ok {headers : Headers} {m m' : HeaderMap} (h : addHeaders headers m = .ok m')
    (n : HeaderMap) : ∃ n', addHeaders headers n = .ok n' := by
  induction headers generalizing m n with
  | nil => exact ⟨n, rfl⟩
  | cons e rest ih =>
    obtain ⟨k, v⟩ := e
    simp only [addHeaders, putHeaders] at h ⊢
    split at h
    · rename_i hk
      rw [if_pos hk]
      exact ih h n
    · rename_i hk
      obtain ⟨name, hname, h⟩ := except_bind_ok h
      obtain ⟨m₁, hput, h⟩ := except_bind_ok h
      obtain ⟨n₁, hput'⟩ := putHeader_ok hput n
      obtain ⟨n', hn'⟩ := ih h n₁
      exact ⟨n', by rw [if_neg hk, hname]; change (putHeader n name v >>= _) = _; rw [hput']; exact hn'⟩

lemma valuesAfter_split (name : Str) (headers : Headers) (values : List Http.HeaderValue) :
    valuesAfter name headers values =
      (if replaces name headers then [] else values) ++ valuesAfter name headers [] := by
  induction headers generalizing values with
  | nil => simp [valuesAfter, replaces]
  | cons e rest ih =>
    obtain ⟨k, v⟩ := e
    have hr : replaces name ((k, v) :: rest) = (names name k && isSingle v || replaces name rest) := by
      simp [replaces]
    rw [valuesAfter, valuesAfter, hr]
    by_cases hn : names name k = true
    · rw [if_pos hn, if_pos hn, hn]
      cases v with
      | single s => simp [putValues, isSingle]
      | multiple added =>
        rw [putValues, putValues, ih, ih ([] ++ _)]
        by_cases hrest : replaces name rest = true <;> simp [isSingle, hrest]
    · rw [if_neg hn, if_neg hn, Bool.eq_false_iff.mpr hn, ih]
      simp

lemma baseHeaders_getAll (useBrotli isSse : Bool) (m : HeaderMap) {j : Str} (hv : j ≠ vary) (hc : j ≠ cacheControl)
    (hk : j ≠ connection) : (baseHeaders useBrotli isSse m).getAll j =
      if useBrotli ∧ j = contentEncoding then [brValue] else m.getAll j := by
  have hsse : ∀ m' : HeaderMap, ((m'.insert cacheControl noCacheValue).insert connection keepAliveValue).getAll j =
      m'.getAll j := by
    intro m'
    rw [MultiMap.getAll_insert_ne _ hk, MultiMap.getAll_insert_ne _ hc]
  have hbr : ((m.insert contentEncoding brValue).insert vary acceptEncodingValue).getAll j =
      if j = contentEncoding then [brValue] else m.getAll j := by
    rw [MultiMap.getAll_insert_ne _ hv]
    split
    · rename_i hj
      rw [hj, MultiMap.getAll_insert_self]
    · rename_i hj
      exact MultiMap.getAll_insert_ne _ hj _
  cases useBrotli <;> cases isSse <;> simp [baseHeaders, hsse, hbr]

lemma setContentType_getAll {contentType : Option Str} {m : HeaderMap} (h : setContentType contentType = .ok m)
    {j : Str} (hj : j ≠ Http.contentType) : m.getAll j = [] := by
  cases contentType with
  | none =>
    obtain rfl := Except.ok.inj h
    rfl
  | some ct =>
    obtain ⟨value, _, h⟩ := except_bind_ok h
    obtain rfl := Except.ok.inj h
    rw [MultiMap.getAll_insert_ne _ hj, MultiMap.getAll_empty]

lemma responseHeaders_getAll {result : PipelineResult} {useBrotli : Bool} {m : HeaderMap}
    (h : responseHeaders result useBrotli = .ok m) :
    m.getAll contentEncoding =
        valuesAfter contentEncoding result.2.1.headers (if useBrotli then [brValue] else []) ∧
      m.getAll contentLength = valuesAfter contentLength result.2.1.headers [] := by
  obtain ⟨m₀, hct, h⟩ := except_bind_ok h
  rw [addHeaders_getAll h, addHeaders_getAll h,
    baseHeaders_getAll _ _ _ (by decide) (by decide) (by decide),
    baseHeaders_getAll _ _ _ (by decide) (by decide) (by decide),
    setContentType_getAll hct (by decide), setContentType_getAll hct (by decide)]
  simp [show contentLength ≠ contentEncoding by decide]

lemma codings_append (vs ws : List Http.HeaderValue) : codings (vs ++ ws) = codings vs ++ codings ws := by
  simp [codings]

lemma codings_br : codings [brValue] = [br] := by decide

lemma transport_ne_empty (streamed : Bool) (produced : Bytes) : transport streamed produced ≠ .empty := by
  cases streamed <;> simp [transport]

lemma responseHeaders_ok {inferred : Option Str} {http : HttpResponseMeta} {body body' : ResponseTransport}
    {useBrotli : Bool} {m : HeaderMap} (h : responseHeaders (inferred, http, body) useBrotli = .ok m)
    (hb : body ≠ .empty) (hb' : body' ≠ .empty) (useBrotli' : Bool) :
    ∃ m', responseHeaders (inferred, http, body') useBrotli' = .ok m' := by
  have hct : responseContentType (inferred, http, body') = responseContentType (inferred, http, body) := by
    simp only [responseContentType, if_neg hb, if_neg hb']
  obtain ⟨m₀, hm₀, h⟩ := except_bind_ok h
  obtain ⟨m', hm'⟩ := addHeaders_ok h
    (baseHeaders useBrotli' (isEventStream (responseContentType (inferred, http, body))) m₀)
  refine ⟨m', ?_⟩
  simp only [responseHeaders, hct, hm₀]
  exact hm'

lemma responseStatus_body {status : Option UInt16} {body body' : ResponseTransport} (hb : body ≠ .empty)
    (hb' : body' ≠ .empty) : responseStatus status body = responseStatus status body' := by
  cases status with
  | some s => rfl
  | none => cases body <;> cases body' <;> simp_all [responseStatus]

lemma not_refused {inferred : Option Str} {http : HttpResponseMeta} {streamed useBrotli : Bool} {produced : Bytes}
    {m : HeaderMap} (hm : responseHeaders (inferred, http, transport streamed produced) useBrotli = .ok m)
    (hs : validStatus (responseStatus http.status (transport streamed produced)) = true) :
    ¬ Refused inferred http := by
  rintro (h | h)
  · have hfull : (.full [] : ResponseTransport) ≠ .empty := by simp
    obtain ⟨m', hm'⟩ := responseHeaders_ok hm (transport_ne_empty streamed produced) hfull false
    exact h m' hm'
  · rw [responseStatus_body (by simp) (transport_ne_empty streamed produced), hs] at h
    cases h

lemma Transmits.decoded {c : Codec} (hc : c.Lawful) {inferred : Option Str} {http : HttpResponseMeta}
    {streamed useBrotli : Bool} {produced transmitted : Bytes} {body : InnerBody}
    (hbody : responseBody c.compressFull (inferred, http, transport streamed produced) useBrotli = .ok body)
    (h : Transmits c produced body transmitted) :
    if useBrotli then c.undo br transmitted = some produced else transmitted = produced := by
  cases streamed with
  | false =>
    cases useBrotli with
    | false =>
      cases hbody
      cases h
      rfl
    | true =>
      cases hfull : c.compressFull produced with
      | error e => simp [responseBody, transport, hfull, Except.map] at hbody
      | ok coded =>
        simp only [responseBody, transport, hfull, Except.map, Bool.false_eq_true, if_false, if_true] at hbody
        cases hbody
        cases h
        exact hc.full produced _ hfull
  | true =>
    cases hbody
    cases h with
    | stream isSse useBrotli acts s hrun hdone herror hsent =>
      obtain ⟨decode, hlaw⟩ := hc.streaming
      have hinv := inv_run hlaw hrun
      have hclean : s.EndedCleanly := Or.inl ⟨hdone, herror⟩
      obtain ⟨hl, _, _, hgot, _⟩ := hinv.endedCleanly hclean
      have hcompressed := compressed_run hrun
      cases hb : s.body with
      | plain =>
        have hd := hinv.delivered_eq hlaw hl herror
        rw [State.delivered, hb, hgot, hsent] at hd
        rw [hb] at hcompressed
        simpa [← hcompressed, Body.compressed] using hd
      | brotli b =>
        obtain ⟨call, earlier, hcalls, hop, hu, hmade, hout, hfed⟩ := hinv.encoder_finished hclean hb
        have hf := hc.finished earlier call (hcalls ▸ hmade) hu hop
        rw [← hcalls, hout, hfed, hgot, hsent] at hf
        rw [hb] at hcompressed
        simpa [← hcompressed, Body.compressed] using hf

lemma undoAll_cons (c : Codec) (k : Str) (ks : List Str) (body : Bytes) :
    c.undoAll (k :: ks) body = (c.undoAll ks body).bind (c.undo k) := rfl

lemma undoAll_nil (c : Codec) : c.undoAll [] = some := rfl

lemma undoAll_snoc (c : Codec) (ks : List Str) (k : Str) (body : Bytes) :
    c.undoAll (ks ++ [k]) body = (c.undo k body).bind (c.undoAll ks) := by
  induction ks with
  | nil => simp [undoAll_cons, undoAll_nil]
  | cons j ks ih => rw [List.cons_append, undoAll_cons, ih, Option.bind_assoc]; rfl

lemma undoAll_br {c : Codec} (hc : c.Lawful) {ks : List Str} (hks : ∀ k ∈ ks, k = br ∨ k = identity)
    (body : Bytes) : c.undoAll (br :: ks) body = (c.undo br body).bind (c.undoAll ks) := by
  induction ks with
  | nil => simp [undoAll_cons, undoAll_nil]
  | cons k ks ih =>
    have ih := ih (fun j hj => hks j (List.mem_cons_of_mem k hj))
    rw [undoAll_cons] at ih
    rw [undoAll_cons, undoAll_cons]
    rcases hks k List.mem_cons_self with rfl | rfl
    · rw [ih, Option.bind_assoc]
      rfl
    · have hid : c.undo identity = some := funext hc.identity
      rw [hid, Option.bind_fun_some, ih]
      congr 1
      funext b
      rw [undoAll_cons, hid, Option.bind_fun_some]

/-- What the misleading codec below puts in front of octets when it undoes a coding of them. -/
def mark (k : Str) : Bytes := if k = identity then [] else if k = br then [2] else [3]

/-- Compressed bytes begin with `m`; anything else decodes to something that shows its coding. -/
def marking (m : UInt8) : Codec where
  compressFull plain := .ok (m :: plain)
  encoder := ⟨fun calls call => .ok (if calls = [] then m :: call.input else call.input)⟩
  undo k body := some (if k = br ∧ body.head? = some m then body.tail else mark k ++ body)

lemma marking_output (m : UInt8) (call : Call) (earlier : List Call) :
    (marking m).encoder.output (call :: earlier) = m :: fed (call :: earlier) := by
  induction earlier generalizing call with
  | nil => simp [marking, Encoder.output, Emission.octets, fed]
  | cons c earlier ih =>
    have hemit : (marking m).encoder.emit (c :: earlier) call = .ok call.input := by simp [marking]
    rw [Encoder.output_cons _ hemit, ih, fed]
    rfl

lemma marking_lawful (m : UInt8) : (marking m).Lawful where
  full plain coded h := by
    cases h
    simp [marking]
  streaming := by
    refine ⟨List.tail, ⟨fun _ _ _ _ _ => nofun, fun calls _ _ _ => ?_⟩, fun _ _ _ _ _ => nofun⟩
    cases calls with
    | nil => rfl
    | cons call earlier => rw [marking_output, List.tail_cons]
  finished earlier call _ _ _ := by
    rw [marking_output]
    simp [marking]
  identity plain := by
    simp [marking, mark, show identity ≠ br by decide]

lemma marking_undo {m : UInt8} {body : Bytes} (h : body.head? ≠ some m) (k : Str) :
    (marking m).undo k body = some (mark k ++ body) := by
  simp [marking, h]

lemma mark_head {m : UInt8} (h2 : m ≠ 2) (h3 : m ≠ 3) (k : Str) {body : Bytes} (h : body.head? ≠ some m) :
    (mark k ++ body).head? ≠ some m := by
  simp only [mark]
  split
  · exact h
  · split
    · simpa using h2.symm
    · simpa using h3.symm

lemma marking_undoAll {m : UInt8} (h2 : m ≠ 2) (h3 : m ≠ 3) {body : Bytes} (h : body.head? ≠ some m)
    (ks : List Str) : (marking m).undoAll ks body = some (ks.flatMap mark ++ body) ∧
      (ks.flatMap mark ++ body).head? ≠ some m := by
  induction ks with
  | nil => exact ⟨rfl, h⟩
  | cons k ks ih =>
    rw [undoAll_cons, ih.1, Option.bind_some, marking_undo ih.2, List.flatMap_cons, List.append_assoc]
    exact ⟨rfl, mark_head h2 h3 k ih.2⟩

lemma marking_undoAll_coded {m : UInt8} (h2 : m ≠ 2) (h3 : m ≠ 3) {body : Bytes} (h : body.head? ≠ some m)
    (ks : List Str) :
    (ks.flatMap mark = [] ∧ (marking m).undoAll ks (m :: body) = some (m :: body)) ∨
      (∃ w, ks.flatMap mark = w ++ [2] ∧ (w ++ body).head? ≠ some m ∧
        (marking m).undoAll ks (m :: body) = some (w ++ body)) ∨
      ∃ w, ks.flatMap mark = w ++ [3] ∧ (w ++ 3 :: m :: body).head? ≠ some m ∧
        (marking m).undoAll ks (m :: body) = some (w ++ 3 :: m :: body) := by
  induction ks using List.reverseRecOn with
  | nil => exact Or.inl ⟨rfl, rfl⟩
  | append_singleton ks k ih =>
    rw [List.flatMap_append, List.flatMap_singleton, undoAll_snoc]
    by_cases hid : k = identity
    · have hundo : (marking m).undo k (m :: body) = some (m :: body) := by
        simp [marking, hid, mark, show identity ≠ br by decide]
      rw [hundo, Option.bind_some, mark, if_pos hid, List.append_nil]
      exact ih
    · by_cases hbr : k = br
      · have hundo : (marking m).undo k (m :: body) = some body := by simp [marking, hbr]
        obtain ⟨hall, hhead⟩ := marking_undoAll h2 h3 h ks
        refine Or.inr (Or.inl ⟨ks.flatMap mark, ?_, hhead, ?_⟩)
        · rw [mark, if_neg hid, if_pos hbr]
        · rw [hundo, Option.bind_some, hall]
      · have hundo : (marking m).undo k (m :: body) = some (3 :: m :: body) := by
          simp [marking, mark, hid, hbr]
        have h3' : (3 :: m :: body).head? ≠ some m := by simpa using h3.symm
        obtain ⟨hall, hhead⟩ := marking_undoAll h2 h3 h3' ks
        refine Or.inr (Or.inr ⟨ks.flatMap mark, ?_, hhead, ?_⟩)
        · simp [mark, hid, hbr]
        · rw [hundo, Option.bind_some, hall]

lemma eq_of_rotate {a b : UInt8} {w : Bytes} (h : a :: w = w ++ [a]) (hb : b ∈ w) : b = a := by
  induction w with
  | nil => cases hb
  | cons c w ih =>
    rw [List.cons_append] at h
    obtain ⟨rfl, h⟩ := List.cons.inj h
    rcases List.mem_cons.mp hb with rfl | hb
    · rfl
    · exact ih h hb

lemma marking_replaced {m : UInt8} (h2 : m ≠ 2) (h3 : m ≠ 3) {body : Bytes} (h : body.head? ≠ some m)
    (ks : List Str) : (marking m).undoAll ks (m :: body) ≠ (marking m).undoAll ks body := by
  rw [(marking_undoAll h2 h3 h ks).1]
  rcases marking_undoAll_coded h2 h3 h ks with ⟨hw, hall⟩ | ⟨w, hw, _, hall⟩ | ⟨w, hw, _, hall⟩
  all_goals
    rw [hw, hall, ne_eq, Option.some.injEq]
    intro heq
    simpa using congrArg List.length heq

lemma marking_added {m : UInt8} (h2 : m ≠ 2) (h3 : m ≠ 3) {body : Bytes} (h : body.head? ≠ some m)
    {ks : List Str} (hks : ∃ k ∈ ks, k ≠ br ∧ k ≠ identity) :
    (marking m).undoAll (br :: ks) (m :: body) ≠ (marking m).undoAll ks body := by
  have h3mem : 3 ∈ ks.flatMap mark := by
    obtain ⟨k, hk, hbr, hid⟩ := hks
    exact List.mem_flatMap.mpr ⟨k, hk, by simp [mark, hbr, hid]⟩
  have hbr : mark br = [2] := by decide
  rw [(marking_undoAll h2 h3 h ks).1, undoAll_cons]
  rcases marking_undoAll_coded h2 h3 h ks with ⟨hw, _⟩ | ⟨w, hw, hhead, hall⟩ | ⟨w, hw, hhead, hall⟩
  · simp [hw] at h3mem
  · rw [hw, hall, Option.bind_some, marking_undo hhead, hbr, ne_eq, Option.some.injEq, ← List.append_assoc,
      List.append_left_inj]
    intro heq
    have hmem : (3 : UInt8) ∈ w := by
      rw [hw] at h3mem
      simpa using h3mem
    exact absurd (eq_of_rotate heq hmem) (by decide)
  · rw [hw, hall, Option.bind_some, marking_undo hhead, hbr, ne_eq, Option.some.injEq]
    intro heq
    have hlen := congrArg List.length heq
    simp only [List.length_append, List.length_cons, List.length_nil] at hlen
    omega

def oneChunk (chunk : Bytes) : List StreamBody.Act :=
  [.send chunk, .close, .poll, .look, .recv, .look, .recv, .poll]

lemma marking_transmits (m : UInt8) (inferred : Option Str) (http : HttpResponseMeta) (streamed : Bool)
    (produced : Bytes) :
    ∃ body, responseBody (marking m).compressFull (inferred, http, transport streamed produced) true = .ok body ∧
      Transmits (marking m) produced body (m :: produced) := by
  cases streamed with
  | false => exact ⟨.full (m :: produced), rfl, .full _⟩
  | true =>
    refine ⟨.stream (isEventStream (responseContentType (inferred, http, .stream))) true, rfl, ?_⟩
    generalize isEventStream (responseContentType (inferred, http, .stream)) = isSse
    have hrun : ∃ s, run (step (marking m).encoder isSse) (init true) (oneChunk produced) = some s ∧
        s.outputs = [.data (m :: produced), .done] ∧ s.rx.sent = [produced] := by
      have hnil : ∃ s, run (step (marking m).encoder isSse) (init true) (oneChunk produced) = some s ∧
          s.outputs = [.data (m :: (produced ++ [])), .done] ∧ s.rx.sent = [produced] := by
        cases isSse <;> exact ⟨_, rfl, rfl, rfl⟩
      rwa [List.append_nil] at hnil
    obtain ⟨s, hs, hout, hsent⟩ := hrun
    have hflat : s.rx.sent.flatten = produced := by simp [hsent]
    have ht := Transmits.stream isSse true _ s hs (by simp [hout]) (by simp [hout]) hflat
    have hframes : frames [.data (m :: produced), .done] = m :: produced := by
      simp [frames, Compression.Output.frame]
    rwa [hout, hframes] at ht

lemma exists_unused (body : Bytes) : ∃ m : UInt8, m ≠ 2 ∧ m ≠ 3 ∧ body.head? ≠ some m := by
  by_cases h : body.head? = some 0
  · exact ⟨1, by decide, by decide, by simp [h]⟩
  · exact ⟨0, by decide, by decide, h⟩

/-- One lawful codec shows every way in which the headers can be wrong. -/
lemma leavesCoding_of_bodyAgrees {inferred : Option Str} {http : HttpResponseMeta} {streamed : Bool}
    {produced : Bytes} (hr : ¬ Refused inferred http) (h : BodyAgrees inferred http streamed produced true) :
    LeavesCoding http.headers produced := by
  intro declared hdeclared
  obtain ⟨m, h2, h3, hm⟩ := exists_unused produced
  simp only [Refused, not_or, not_forall, not_not, Bool.not_eq_false] at hr
  obtain ⟨⟨m₀, hm₀⟩, hstatus⟩ := hr
  obtain ⟨headerMap, hheaders⟩ :=
    responseHeaders_ok hm₀ (by simp) (transport_ne_empty streamed produced) true
  rw [responseStatus_body (by simp) (transport_ne_empty streamed produced)] at hstatus
  obtain ⟨body, hbody, ht⟩ := marking_transmits m inferred http streamed produced
  obtain ⟨hcoding, hlength⟩ := h (marking m) (marking_lawful m) 0 _ _ _ _
    (buildNormalResponse_eq hheaders hstatus hbody) ht hdeclared
  obtain ⟨he, hl⟩ := responseHeaders_getAll hheaders
  rw [he, valuesAfter_split, codings_append, ← declared_getAll hdeclared] at hcoding
  rw [hl, ← declared_getAll hdeclared] at hlength
  refine ⟨?_, ?_, ?_⟩
  · by_contra hrep
    rw [Bool.not_eq_false] at hrep
    rw [hrep] at hcoding
    exact marking_replaced h2 h3 hm _ hcoding
  · intro k hk
    by_contra hother
    rw [not_or] at hother
    by_cases hrep : replaces contentEncoding http.headers = true
    · rw [hrep] at hcoding
      exact marking_replaced h2 h3 hm _ hcoding
    · rw [if_neg hrep, if_pos rfl, codings_br] at hcoding
      exact marking_added h2 h3 hm ⟨k, hk, hother.1, hother.2⟩ hcoding
  · intro v hv hn
    simpa using hlength v hv hn

lemma bodyAgrees_of_leavesCoding {inferred : Option Str} {http : HttpResponseMeta} {streamed useBrotli : Bool}
    {produced : Bytes} (h : useBrotli = false ∨ LeavesCoding http.headers produced) :
    BodyAgrees inferred http streamed produced useBrotli := by
  intro c hc requestId logged response transmitted declared hbuild ht hdeclared
  obtain ⟨hheaders, _, _, hbody, _⟩ := buildNormalResponse_ok hbuild
  obtain ⟨he, hl⟩ := responseHeaders_getAll hheaders
  have hdecoded := ht.decoded hc hbody
  rw [Agrees, he, hl, ← declared_getAll hdeclared]
  cases useBrotli with
  | false =>
    obtain rfl : transmitted = produced := hdecoded
    exact ⟨by rw [declared_getAll hdeclared]; rfl, fun _ _ _ => rfl⟩
  | true =>
    obtain ⟨hrep, hks, hlen⟩ := h.resolve_left (by simp) declared hdeclared
    refine ⟨?_, fun v hv hn => absurd hn (hlen v hv)⟩
    rw [valuesAfter_split, hrep, codings_append, if_neg (by simp), if_pos rfl, codings_br,
      ← declared_getAll hdeclared, List.singleton_append, undoAll_br hc hks,
      show c.undo br transmitted = some produced from hdecoded,
      Option.bind_some]

theorem bodyAgrees_iff (decodeAccept : List Http.HeaderValue → Option Compression.AcceptEncoding)
    (requestHeaders : HeaderMap) (inferred : Option Str) (http : HttpResponseMeta) (streamed : Bool)
    (produced : Bytes) :
    BodyAgrees inferred http streamed produced (Compression.acceptsBrotli decodeAccept requestHeaders) ↔
      Refused inferred http ∨ Compression.acceptsBrotli decodeAccept requestHeaders = false ∨
        LeavesCoding http.headers produced := by
  constructor
  · intro h
    by_cases hr : Refused inferred http
    · exact Or.inl hr
    · cases hb : Compression.acceptsBrotli decodeAccept requestHeaders with
      | false => exact Or.inr (Or.inl rfl)
      | true => exact Or.inr (Or.inr (leavesCoding_of_bodyAgrees hr (hb ▸ h)))
  · rintro (hr | h)
    · intro c _ requestId logged response transmitted declared hbuild
      obtain ⟨hheaders, hstatus, heq, _⟩ := buildNormalResponse_ok hbuild
      exact absurd hr (not_refused hheaders (heq ▸ hstatus))
    · exact bodyAgrees_of_leavesCoding h

def gzipped : HttpResponseMeta := { headers := [("Content-Encoding".toList, .single "gzip".toList)] }

def takesFirst : List Http.HeaderValue → Option Compression.AcceptEncoding := fun _ => some ⟨List.head?⟩

/-- A whole gzip stream: its header, a stored block with the two bytes of `hi`, their checksum and their number. -/
def gzipHi : Bytes :=
  [0x1f, 0x8b, 8, 0, 0, 0, 0, 0, 0, 0xff] ++ [1, 2, 0, 0xfd, 0xff, 0x68, 0x69] ++
    [0xac, 0x2a, 0x93, 0xd8, 2, 0, 0, 0]

theorem gzipped_misdescribed :
    ¬ BodyAgrees none gzipped false gzipHi (Compression.acceptsBrotli takesFirst .empty) := by
  intro h
  have hdeclared : ∃ declared, addHeaders gzipped.headers .empty = .ok declared := ⟨_, rfl⟩
  have hr : ¬ Refused none gzipped := by
    have hm : ∃ m, responseHeaders (none, gzipped, transport false []) false = .ok m := ⟨_, rfl⟩
    obtain ⟨m, hm⟩ := hm
    exact not_refused hm (by decide)
  obtain ⟨declared, hdeclared⟩ := hdeclared
  have hrep := (leavesCoding_of_bodyAgrees hr h declared hdeclared).1
  exact absurd hrep (by decide)

end HttpNu.Handler
