import HttpNu.Handler.HeaderLines

/-! `cookie set` and `cookie delete`: what they add to the pipeline metadata, and the lines of the response. -/

namespace HttpNu.Stdlib.CookieSet

open Text Library Http Response Handler

structure SetFlags where
  maxAge : Option Int := none
  path : Str := "/".toList
  domain : Option Str := none
  noHttponly : Bool := false
  noSecure : Bool := false
  sameSite : Str := "Lax".toList

def compactJoin (parts : List (Option Str)) : Str := "; ".toList.intercalate parts.reduceOption

/-- The header that `cookie set` adds; `dev` is `$HTTP_NU.dev`. -/
def setHeader (dev : Bool) (name value : Str) (flags : SetFlags) : Str :=
  compactJoin [
    some (name ++ "=".toList ++ value),
    some ("Path=".toList ++ flags.path),
    if !flags.noHttponly then some "HttpOnly".toList else none,
    if !dev && !flags.noSecure then some "Secure".toList else none,
    some ("SameSite=".toList ++ flags.sameSite),
    flags.maxAge.map (fun maxAge => "Max-Age=".toList ++ (toString maxAge).toList),
    flags.domain.map (fun domain => "Domain=".toList ++ domain)]

def deleteHeader (name path : Str) (domain : Option Str) : Str :=
  compactJoin [
    some (name ++ "=".toList),
    some ("Path=".toList ++ path),
    some "Max-Age=0".toList,
    domain.map (fun domain => "Domain=".toList ++ domain)]

def contentTypeKey : Str := "content_type".toList
def responseKey : Str := "http.response".toList
def headersKey : Str := "headers".toList
def cookieKey : Str := "Set-Cookie".toList

def metadataRecord : Option Metadata → Record
  | none => []
  | some m => (m.contentType.map (fun ct => (contentTypeKey, Value.string ct))).toList ++ m.custom

def parseMetadata (rec : Record) : Metadata where
  contentType := (rec.get contentTypeKey).bind Value.asStr
  custom := rec.filter (fun e => e.1 ≠ contentTypeKey)

/-- `metadata set` with a closure; `none` where the closure fails. -/
def metadataSet (closure : Record → Option Record) (metadata : Option Metadata) : Option (Option Metadata) :=
  (closure (metadataRecord metadata)).map (fun rec => some (parseMetadata rec))

/-- What a value is iterated as; a range, which would be enumerated, is left out. -/
def listed : Value → Option (List Value)
  | .list vals => some vals
  | .range _ | .error _ => none
  | value => some [value]

def append (value : Value) (added : Str) : Option (List Value) :=
  (listed value).map (fun vals => vals ++ [.string added])

def addCookie (header : Str) (m : Record) : Option Record := do
  let resp ← (Value.orDefault (.record []) (m.follow responseKey)).asRecord
  let headers ← (Value.orDefault (.record []) (resp.follow headersKey)).asRecord
  let cookies ← append (Value.orDefault (.list []) (headers.follow cookieKey)) header
  return m.upsert responseKey
    (.record (resp.upsert headersKey (.record (headers.upsert cookieKey (.list cookies)))))

inductive CookieCall where
  | set (name value : Str) (flags : SetFlags)
  | delete (name path : Str) (domain : Option Str)

def CookieCall.header (dev : Bool) : CookieCall → Str
  | set name value flags => setHeader dev name value flags
  | delete name path domain => deleteHeader name path domain

def runCalls (dev : Bool) (calls : List CookieCall) (metadata : Option Metadata) : Option (Option Metadata) :=
  calls.foldlM (fun metadata call => metadataSet (addCookie (call.header dev)) metadata) metadata

example : compactJoin [some "a=".toList, none, some "b".toList] = "a=; b".toList := rfl

def Holds (v : Option Value) (cookies : List Value) : Prop := listed (Value.orDefault (.list []) v) = some cookies

structure Reads (m resp headers : Record) (cookies : List Value) : Prop where
  distinct : m.columns.Nodup
  typed : ∀ v, m.get contentTypeKey = some v → ∃ ct, v = .string ct
  respColumn : Value.orDefault (.record []) (m.get responseKey) = .record resp
  respDistinct : resp.columns.Nodup
  headersColumn : Value.orDefault (.record []) (resp.get headersKey) = .record headers
  headersDistinct : headers.columns.Nodup
  cookieColumn : Holds (headers.get cookieKey) cookies

def SameBut (col : Str) (rec rec' : Record) : Prop := ∀ other, other ≠ col → rec'.get other = rec.get other

lemma sameBut_upsert (rec : Record) (col : Str) (v : Value) : SameBut col rec (rec.upsert col v) :=
  fun _ h => Record.get_upsert_ne rec h v

lemma SameBut.trans {col : Str} {rec rec' rec'' : Record} (h : SameBut col rec rec')
    (h' : SameBut col rec' rec'') :
    SameBut col rec rec'' :=
  fun other hother => (h' other hother).trans (h other hother)

lemma append_of_holds {v : Option Value} {cookies : List Value} (h : Holds v cookies) (header : Str) :
    append (Value.orDefault (.list []) v) header = some (cookies ++ [.string header]) := by
  rw [append, show listed (Value.orDefault (.list []) v) = some cookies from h]
  rfl

lemma addCookie_reads {m resp headers : Record} {cookies : List Value} (h : Reads m resp headers cookies)
    (header : Str) :
    ∃ m' resp' headers', addCookie header m = some m' ∧ Reads m' resp' headers' (cookies ++ [.string header]) ∧
      SameBut responseKey m m' ∧ SameBut headersKey resp resp' ∧ SameBut cookieKey headers headers' ∧
      headers'.get cookieKey = some (.list (cookies ++ [.string header])) := by
  let headers' := headers.upsert cookieKey (.list (cookies ++ [.string header]))
  let resp' := resp.upsert headersKey (.record headers')
  refine ⟨m.upsert responseKey (.record resp'), resp', headers', ?_, ⟨Record.nodup_upsert h.distinct _ _, ?_, ?_,
    Record.nodup_upsert h.respDistinct _ _, ?_, Record.nodup_upsert h.headersDistinct _ _, ?_⟩,
      sameBut_upsert _ _ _,
    sameBut_upsert _ _ _, sameBut_upsert _ _ _, Record.get_upsert_self _ _ _⟩
  · simp only [addCookie, Record.follow_eq_get h.distinct, h.respColumn, Value.asRecord,
      Record.follow_eq_get h.respDistinct,
      h.headersColumn, Record.follow_eq_get h.headersDistinct, append_of_holds h.cookieColumn, bind,
        Option.bind_some]
    rfl
  · intro v hv
    rw [Record.get_upsert_ne _ (by decide)] at hv
    exact h.typed v hv
  · rw [Record.get_upsert_self]
    rfl
  · rw [Record.get_upsert_self]
    rfl
  · rw [Record.get_upsert_self]
    rfl

lemma columns_metadataRecord_parse {m : Record} (h : m.columns.Nodup) :
    (Record.columns (metadataRecord (some (parseMetadata m)))).Nodup := by
  have hrest : (Record.columns (m.filter (fun e => e.1 ≠ contentTypeKey))).Nodup :=
    h.sublist (List.filter_sublist.map Prod.fst)
  have hnot : contentTypeKey ∉ Record.columns (m.filter (fun e => e.1 ≠ contentTypeKey)) := by
    simp [Record.columns]
  rw [metadataRecord, parseMetadata]
  cases (m.get contentTypeKey).bind Value.asStr with
  | none => exact hrest
  | some ct => exact List.nodup_cons.mpr ⟨hnot, hrest⟩

lemma get_metadataRecord_parse {m : Record} (h : m.columns.Nodup)
    (htyped : ∀ v, m.get contentTypeKey = some v → ∃ ct, v = .string ct) (col : Str) :
    Record.get (metadataRecord (some (parseMetadata m))) col = m.get col := by
  apply Option.ext
  intro v
  have hmem : (col, v) ∈ metadataRecord (some (parseMetadata m)) ↔
      (∃ ct, (m.get contentTypeKey).bind Value.asStr = some ct ∧ (contentTypeKey, Value.string ct) = (col, v)) ∨
        (col, v) ∈ m ∧ decide (col ≠ contentTypeKey) = true := by
    simp only [metadataRecord, parseMetadata, List.mem_append, Option.mem_toList, Option.map_eq_some_iff,
      List.mem_filter]
  rw [Record.get_eq_some_iff (columns_metadataRecord_parse h), hmem]
  by_cases hcol : col = contentTypeKey
  · subst hcol
    constructor
    · rintro (⟨ct, hct, hpair⟩ | ⟨-, hne⟩)
      · obtain ⟨w, hw, hstr⟩ := Option.bind_eq_some_iff.mp hct
        obtain ⟨ct', rfl⟩ := htyped w hw
        obtain rfl := Option.some.inj hstr
        rw [hw, ← (Prod.mk.inj hpair).2]
      · simp at hne
    · intro hv
      obtain ⟨ct, rfl⟩ := htyped v hv
      exact .inl ⟨ct, by simp only [hv, Option.bind_some, Value.asStr], rfl⟩
  · rw [Record.get_eq_some_iff h]
    constructor
    · rintro (⟨ct, -, hpair⟩ | ⟨hmem, -⟩)
      · exact absurd (Prod.mk.inj hpair).1.symm hcol
      · exact hmem
    · exact fun hmem => .inr ⟨hmem, by simpa using hcol⟩

lemma reads_parse {m resp headers : Record} {cookies : List Value} (h : Reads m resp headers cookies) :
    Reads (metadataRecord (some (parseMetadata m))) resp headers cookies := by
  have hget := get_metadataRecord_parse h.distinct h.typed
  exact ⟨columns_metadataRecord_parse h.distinct, fun v hv => h.typed v (hget _ ▸ hv), hget _ ▸ h.respColumn,
    h.respDistinct, h.headersColumn, h.headersDistinct, h.cookieColumn⟩

/-- What calls leave: the cookies are followed by the headers of the calls, all else is as it was. -/
structure Accumulated (m m' : Record) (resp resp' headers headers' : Record) : Prop where
  metadata : SameBut responseKey m m'
  response : SameBut headersKey resp resp'
  headers : SameBut cookieKey headers headers'

lemma runCalls_reads {metadata : Option Metadata} {resp headers : Record} {cookies : List Value}
    (h : Reads (metadataRecord metadata) resp headers cookies) (dev : Bool) (calls : List CookieCall) :
    ∃ metadata' resp' headers', runCalls dev calls metadata = some metadata' ∧
      Reads (metadataRecord metadata')
      resp' headers' (cookies ++ calls.map (fun call => .string (call.header dev))) ∧
      Accumulated (metadataRecord metadata) (metadataRecord metadata') resp resp' headers headers' ∧
      (calls = [] → metadata' = metadata ∧ headers' = headers) ∧
      (calls ≠ [] → headers'.get cookieKey =
        some (.list (cookies ++ calls.map (fun call => .string (call.header dev))))) := by
  induction calls using List.reverseRecOn with
  | nil =>
    refine ⟨metadata, resp, headers, rfl, by simpa using h, ⟨fun _ _ => rfl, fun _ _ => rfl, fun _ _ => rfl⟩,
      fun _ => ⟨rfl, rfl⟩, fun hne => absurd rfl hne⟩
  | append_singleton calls call ih =>
    obtain ⟨metadata₁, resp₁, headers₁, hrun, hreads, hsame, -, -⟩ := ih
    obtain ⟨m, resp', headers', hadd, hreads', hm, hresp, hheaders, hcookies⟩ :=
      addCookie_reads hreads (call.header dev)
    refine ⟨some (parseMetadata m), resp', headers', ?_, ?_,
      ⟨?_, hsame.response.trans hresp, hsame.headers.trans hheaders⟩,
      fun hnil => absurd hnil (by simp), fun _ => ?_⟩
    · rw [runCalls, List.foldlM_append, ← runCalls, hrun]
      simp [metadataSet, hadd]
    · rw [List.map_append, ← List.append_assoc]
      exact reads_parse hreads'
    · exact fun other hother => (get_metadataRecord_parse hreads'.distinct hreads'.typed other).trans
        (hsame.metadata.trans hm other hother)
    · rw [List.map_append, ← List.append_assoc]
      exact hcookies

def setCookie : Str := "set-cookie".toList

def ValidCookies (cookies : List Value) : Prop :=
  ∀ v ∈ cookies, ∃ s, v = .string s ∧ (HeaderValue.fromStr s).isSome

section
variable {metadata : Option Metadata} {resp headers : Record} {cookies : List Value}

def metaOfColumn (column : Option Record) : HttpResponseMeta :=
  column.elim {} (fun rec =>
    ⟨((rec.get "status".toList).bind Value.asInt).map UInt16.ofInt,
      ((rec.get headersKey).bind Value.asRecord).elim [] headersOf⟩)

lemma extract_eq (metadata : Option Metadata) : extractHttpResponseMeta metadata =
    metaOfColumn (metadata.bind (fun m => (m.custom.get responseKey).bind Value.asRecord)) := by
  delta extractHttpResponseMeta responseKey
  generalize metadata.bind _ = column
  cases column <;> rfl

lemma extract_of_reads (h : Reads (metadataRecord metadata) resp headers cookies) :
    extractHttpResponseMeta metadata =
      ⟨((resp.get "status".toList).bind Value.asInt).map UInt16.ofInt, headersOf headers⟩ := by
  have hresp := h.respColumn
  have hheaders := h.headersColumn
  have hcolumn : metadata.bind (fun m => (m.custom.get responseKey).bind Value.asRecord) =
      ((metadataRecord metadata).get responseKey).bind Value.asRecord := by
    cases metadata with
    | none => rfl
    | some m =>
      have hne : contentTypeKey ≠ responseKey := by decide
      cases hct : m.contentType with
      | none => simp [metadataRecord, hct]
      | some ct => simp [metadataRecord, hct, Record.get, hne]
  have hcase : ∀ {v : Option Value} {rec : Record}, Value.orDefault (.record []) v = .record rec →
      v.bind Value.asRecord = some rec ∨ v.bind Value.asRecord = none ∧ rec = [] := by
    intro v rec hv
    rcases v with _ | v
    · exact .inr ⟨rfl, (Value.record.inj hv).symm⟩
    · cases v with
      | nothing => exact .inr ⟨rfl, (Value.record.inj hv).symm⟩
      | record r => exact .inl (congrArg some (Value.record.inj hv))
      | _ => cases hv
  have hmeta : extractHttpResponseMeta metadata =
      metaOfColumn (((metadataRecord metadata).get responseKey).bind Value.asRecord) :=
    (extract_eq metadata).trans (congrArg metaOfColumn hcolumn)
  rcases hcase hresp with hsome | ⟨hnone, rfl⟩
  · rw [hmeta, hsome, metaOfColumn, Option.elim_some]
    rcases hcase hheaders with hsome' | ⟨hnone', rfl⟩
    · rw [hsome', Option.elim_some]
    · rw [hnone', Option.elim_none]
      rfl
  · obtain rfl : headers = [] := (Value.record.inj hheaders).symm
    rw [hmeta, hnone]
    rfl

lemma strings_of_holds {v : Option Value} (h : Holds v cookies) :
    ((v.bind headerEntry).toList).flatMap strings = cookies.filterMap Value.asStr := by
  rcases v with _ | v
  · obtain rfl : [] = cookies := Option.some.inj h
    rfl
  · cases v with
    | list vals =>
      obtain rfl : vals = cookies := Option.some.inj h
      simp [headerEntry, strings]
    | range text | error err => cases h
    | _ =>
      obtain rfl := Option.some.inj h
      rfl

lemma ownEntry_of_reads (h : Reads (metadataRecord metadata) resp headers cookies) :
    (ownEntry (headersOf headers) cookieKey).flatMap strings = cookies.filterMap Value.asStr := by
  rw [ownEntry, getHeader_headersOf h.headersDistinct]
  exact strings_of_holds h.cookieColumn

lemma ValidCookies.strings (hvalid : ValidCookies cookies) :
    ∀ s ∈ cookies.filterMap Value.asStr, (HeaderValue.fromStr s).isSome := by
  intro s hs
  obtain ⟨v, hv, hstr⟩ := List.mem_filterMap.mp hs
  obtain ⟨t, rfl, ht⟩ := hvalid v hv
  obtain rfl : t = s := Option.some.inj hstr
  exact ht

lemma validEntry_of_reads (h : Reads (metadataRecord metadata) resp headers cookies)
    (hvalid : ValidCookies cookies)
    {v : Response.HeaderValue} (hv : (cookieKey, v) ∈ headersOf headers) :
    ValidEntry isContentType (cookieKey, v) := by
  intro _
  have hname : (headerName cookieKey).isSome := by decide
  refine ⟨hname, ?_⟩
  cases v with
  | multiple ss => trivial
  | single s =>
    have hown : ownEntry (headersOf headers) cookieKey = [.single s] :=
      congrArg Option.toList ((lookup_eq_some_iff (headersOf_nodup _)).mpr hv)
    refine hvalid.strings s ?_
    rw [← ownEntry_of_reads h, hown]
    exact List.mem_cons_self

lemma unanswerable_of_sameBut {http http' : HttpResponseMeta} (hn : (http.headers.map Prod.fst).Nodup)
    (hn' : (http'.headers.map Prod.fst).Nodup) (hstatus : http'.status = http.status)
    (hget : ∀ k, k ≠ cookieKey → getHeader http'.headers k = getHeader http.headers k)
    (hvalid : ∀ v, (cookieKey, v) ∈ http'.headers → ValidEntry isContentType (cookieKey, v))
    (hanswers : Unanswerable http') : Unanswerable http := by
  rcases hanswers with hinvalid | ⟨status, hs, hbad⟩ | ⟨ct, ⟨v, hlooked, hfirst⟩, hnone⟩
  · refine .inl (fun hall => hinvalid ?_)
    rintro ⟨k, v⟩ he
    by_cases hk : k = cookieKey
    · obtain rfl := hk
      exact hvalid v he
    · refine hall (k, v) ((lookup_eq_some_iff hn).mp ?_)
      exact (hget k hk).symm.trans ((lookup_eq_some_iff hn').mpr he)
  · exact .inr (.inl ⟨status, by rw [← hstatus]; exact hs, hbad⟩)
  · refine .inr (.inr ⟨ct, ⟨v, ?_, hfirst⟩, hnone⟩)
    rwa [hget _ (by decide), hget _ (by decide)] at hlooked

lemma getHeader_of_sameBut {headers' : Record} (hn : headers.columns.Nodup) (hn' : headers'.columns.Nodup)
    (h : SameBut cookieKey headers headers') {k : Str} (hk : k ≠ cookieKey) :
    getHeader (headersOf headers') k = getHeader (headersOf headers) k := by
  rw [getHeader_headersOf hn, getHeader_headersOf hn', h k hk]

lemma mem_headersOf_of_sameBut {headers' : Record} (hn : headers.columns.Nodup) (hn' : headers'.columns.Nodup)
    (h : SameBut cookieKey headers headers') {e : Str × Response.HeaderValue} (he : e.1 ≠ cookieKey) :
    e ∈ headersOf headers' ↔ e ∈ headersOf headers := by
  rw [← lookup_eq_some_iff (headersOf_nodup _), ← lookup_eq_some_iff (headersOf_nodup _), ← getHeader, ← getHeader,
    getHeader_of_sameBut hn hn' h he]

lemma SameBut.symm {col : Str} {rec rec' : Record} (h : SameBut col rec rec') : SameBut col rec' rec :=
  fun other hother => (h other hother).symm

end

lemma unowned_setCookie : Unowned setCookie := by
  refine ⟨?_, ?_, ?_, ?_, ?_⟩ <;> decide

/-- What the calls leave is the cookies there were and then one header for each call, with all else as it was, and
the response has a line for each of them. -/
def CookiesAccumulate (dev : Bool) (calls : List CookieCall) (metadata : Option Metadata) (resp headers : Record)
    (cookies : List Value) : Prop :=
  let cookies' := cookies ++ calls.map (fun call => .string (call.header dev))
  ∃ metadata' resp' headers', runCalls dev calls metadata = some metadata' ∧
    Reads (metadataRecord metadata') resp' headers' cookies' ∧
    Accumulated (metadataRecord metadata) (metadataRecord metadata') resp resp' headers headers' ∧
    (ValidCookies cookies' →
      CarriesLines (extractHttpResponseMeta metadata') setCookie (cookies'.filterMap Value.asStr))

/-- No entry under another spelling says anything; without a call it may be the same one string. -/
def NoOtherSpelling (calls : List CookieCall) (headers : Headers) : Prop :=
  ∀ e ∈ headers, headerName e.1 = some setCookie → e.1 ≠ cookieKey →
    texts [e.2] = [] ∨ calls = [] ∧ isSingle e.2 = true ∧ (cookieKey, e.2) ∈ headers

theorem cookies_accumulate_iff (dev : Bool) (calls : List CookieCall) (metadata : Option Metadata)
    (resp headers : Record) (cookies : List Value) (h : Reads (metadataRecord metadata) resp headers cookies) :
    CookiesAccumulate dev calls metadata resp headers cookies ↔
      (ValidCookies (cookies ++ calls.map (fun call => .string (call.header dev))) →
        Unanswerable (extractHttpResponseMeta metadata) ∨
          NoOtherSpelling calls (extractHttpResponseMeta metadata).headers) := by
  obtain ⟨metadata', resp', headers', hrun, hreads, hsame, hnone, hsome⟩ := runCalls_reads h dev calls
  set cookies' := cookies ++ calls.map (fun call => Value.string (call.header dev)) with hcookies'
  have hlines : CookiesAccumulate dev calls metadata resp headers cookies ↔
      (ValidCookies cookies' →
        CarriesLines (extractHttpResponseMeta metadata') setCookie (cookies'.filterMap Value.asStr)) := by
    constructor
    · rintro ⟨metadata'', _, _, hrun', _, _, hcarries⟩
      obtain rfl := Option.some.inj (hrun.symm.trans hrun')
      exact hcarries
    · exact fun hcarries => ⟨metadata', resp', headers', hrun, hreads, hsame, hcarries⟩
  rw [hlines]
  refine forall_congr' (fun hvalid => ?_)
  have hvalid₀ : ValidCookies cookies := fun v hv => hvalid v (List.mem_append_left _ hv)
  have hstatus : resp'.get "status".toList = resp.get "status".toList := hsame.response _ (by decide)
  have hget : ∀ k, k ≠ cookieKey → getHeader (headersOf headers') k = getHeader (headersOf headers) k :=
    fun k hk => getHeader_of_sameBut h.headersDistinct hreads.headersDistinct hsame.headers hk
  have hunanswerable : Unanswerable (extractHttpResponseMeta metadata') ↔
      Unanswerable (extractHttpResponseMeta metadata) := by
    rw [extract_of_reads h, extract_of_reads hreads, hstatus]
    exact ⟨unanswerable_of_sameBut (headersOf_nodup _) (headersOf_nodup _) rfl hget
        (fun v hv => validEntry_of_reads hreads hvalid hv),
      unanswerable_of_sameBut (headersOf_nodup _) (headersOf_nodup _) rfl (fun k hk => (hget k hk).symm)
        (fun v hv => validEntry_of_reads h hvalid₀ hv)⟩
  have hmem : ∀ e : Str × Response.HeaderValue, e.1 ≠ cookieKey →
    (e ∈ headersOf headers' ↔ e ∈ headersOf headers) :=
    fun e he => mem_headersOf_of_sameBut h.headersDistinct hreads.headersDistinct hsame.headers he
  have hown : ∀ v, isSingle v = true →
      ((cookieKey, v) ∈ headersOf headers' ↔ calls = [] ∧ (cookieKey, v) ∈ headersOf headers) := by
    intro v hv
    by_cases hcalls : calls = []
    · rw [(hnone hcalls).2]
      exact (and_iff_right hcalls).symm
    · rw [← lookup_eq_some_iff (headersOf_nodup _), ← getHeader,
        getHeader_headersOf hreads.headersDistinct, hsome hcalls]
      refine iff_of_false (fun hlist => ?_) (fun hboth => hcalls hboth.1)
      obtain rfl := Option.some.inj hlist
      cases hv
  have hspelling : OthersAgree (headersOf headers') setCookie cookieKey ↔
    NoOtherSpelling calls (headersOf headers) := by
    constructor
    · intro hagree e he hname hne
      rcases hagree e ((hmem e hne).mpr he) hname hne with hnil | ⟨hv, hkey⟩
      · exact .inl hnil
      · exact .inr ⟨((hown _ hv).mp hkey).1, hv, ((hown _ hv).mp hkey).2⟩
    · intro hagree e he hname hne
      rcases hagree e ((hmem e hne).mp he) hname hne with hnil | ⟨hcalls, hv, hkey⟩
      · exact .inl hnil
      · exact .inr ⟨hv, (hown _ hv).mpr ⟨hcalls, hkey⟩⟩
  rw [← hunanswerable, extract_of_reads h, ← hspelling]
  by_cases hanswers : Unanswerable (extractHttpResponseMeta metadata')
  · refine iff_of_true (everyResponse_of_unanswerable ?_ hanswers _ _) (.inl hanswers)
    rw [extract_of_reads hreads]
    exact headersOf_nodup _
  · rw [or_iff_right hanswers]
    rw [extract_of_reads hreads] at hanswers ⊢
    rw [← ownEntry_of_reads hreads]
    refine carriesLines_own_iff unowned_setCookie (by decide) (headersOf_nodup _) hanswers ?_
    rw [ownEntry_of_reads hreads]
    exact hvalid.strings

def responseMetadata (headers : Record) : Option Metadata :=
  some ⟨none, [(responseKey, .record [("status".toList, .int 201), (headersKey, .record headers)])]⟩

lemma responseMetadata_reads {headers : Record} {cookies : List Value} (hn : headers.columns.Nodup)
    (hcookies : Holds (headers.get cookieKey) cookies) :
    Reads (metadataRecord (responseMetadata headers))
    [("status".toList, .int 201), (headersKey, .record headers)] headers
      cookies where
  distinct := List.nodup_singleton responseKey
  typed := nofun
  respColumn := rfl
  respDistinct :=
    have hne : ¬ "status".toList = headersKey := by decide
    List.nodup_cons.mpr ⟨mt List.mem_singleton.mp hne, List.nodup_singleton headersKey⟩
  headersColumn := rfl
  headersDistinct := hn
  cookieColumn := hcookies

def sessionCall : CookieCall := .set "b".toList "2".toList {}

def oneCookie : Record := [(cookieKey, .string "a=1".toList)]

theorem cookies_accumulate_session :
    CookiesAccumulate false [sessionCall, .delete "c".toList "/".toList none] (responseMetadata oneCookie)
      [("status".toList, .int 201), (headersKey, .record oneCookie)] oneCookie [.string "a=1".toList] := by
  have hreads : Reads (metadataRecord (responseMetadata oneCookie))
    [("status".toList, .int 201), (headersKey, .record oneCookie)]
      oneCookie [.string "a=1".toList] := responseMetadata_reads (List.nodup_singleton cookieKey) rfl
  refine (cookies_accumulate_iff false _ _ _ _ _ hreads).mpr (fun _ => .inr ?_)
  intro e he _ hne
  exact absurd (congrArg Prod.fst (List.mem_singleton.mp he)) hne

def lowerCase : Record := [("set-cookie".toList, .string "a=1".toList)]

theorem lowerCase_replaces :
    ∃ resp, Reads (metadataRecord (responseMetadata lowerCase)) resp lowerCase [] ∧
      ¬ CookiesAccumulate false [sessionCall] (responseMetadata lowerCase) resp lowerCase [] := by
  refine ⟨_, responseMetadata_reads (List.nodup_singleton _) rfl, ?_⟩
  rintro ⟨metadata', resp', headers', hrun, -, -, hlines⟩
  obtain rfl := Option.some.inj hrun
  have hvalid : ValidCookies [.string (sessionCall.header false)] :=
    List.forall_mem_singleton.mpr ⟨_, rfl, by decide⟩
  have hlost := hlines hvalid Except.ok none .empty false 0 _ _ _ (List.reverse_perm _) rfl
  exact absurd hlost (by decide)

end HttpNu.Stdlib.CookieSet
