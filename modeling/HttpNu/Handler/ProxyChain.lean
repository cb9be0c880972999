import HttpNu.Handler.ContentCoding
import HttpNu.Handler.ProxyTarget
import HttpNu.Handler.ProxyUpload
import HttpNu.Library.DatedStore
import HttpNu.Library.FormUrlEncoded
import HttpNu.Request.RequestValue

/-! What a handler is told of the line of a request that came through other servers' `.reverse-proxy`. -/

namespace HttpNu.Handler

open Text Library UriReference Request Response Worker Logging
open Commands.ReverseProxy (parseConfig insertQuery queryOf requestBody reverseProxy)

def formPairs (query : Str) : List (Str × Str) :=
  (FormUrlEncoded.read (utf8 query)).map (fun pair => (fromUtf8Lossy pair.1, fromUtf8Lossy pair.2))

def formText (pairs : List (Str × Str)) : Str :=
  (FormUrlEncoded.write (pairs.map (fun pair => (utf8 pair.1, utf8 pair.2)))).map (fun b => Char.ofNat b.toNat)

def lastOf (pairs : List (Str × Str)) (name : Str) : Option Str :=
  ((pairs.filter (fun pair => pair.1 = name)).getLast?).map Prod.snd

/-- The pairs as a `HashMap` collects them. -/
def collect (pairs : List (Str × Str)) : List (Str × Str) :=
  pairs.foldl (fun map pair => insertQuery map pair.1 pair.2) []

/-- Queries are read and written as forms, and the map of a query may be iterated in any order. -/
structure ReadsForms {Net : Type} (W : World Net) : Prop where
  parsed : ∀ query, (W.parseQuery query).Perm (collect (formPairs query))
  written : ∀ pairs, W.serializeQuery pairs = formText pairs

def ReadsPath (parseUri : Str → Except Str Uri) : Prop :=
  ∀ text uri, parseUri text = .ok uri → (split text).authority.isSome → (split text).path ≠ [] →
    uri.path = (split text).path ∧ uri.query = (split text).query

structure RequestLine where
  method : Str
  path : Str
  query : Str → Option Str

def lineOf (parts : Parts) : RequestLine where
  method := parts.method
  path := parts.uri.path
  query := lastOf (formPairs (parts.uri.query.getD []))

/-- The record that a handler closure is given has this line. -/
structure Tells (rec : Record) (line : RequestLine) : Prop where
  method : rec.follow "method".toList = some (.string line.method)
  path : rec.follow "path".toList = some (.string line.path)
  query : ∃ query : Record, rec.follow "query".toList = some (.record query) ∧ query.columns.Nodup ∧
    ∀ name, query.follow name = (line.query name).map .string

def queryAsked (options : Option Value) : Option Record :=
  ((options.bind Value.asRecord).bind (fun rec => rec.get "query".toList)).bind Value.asRecord

def textsOf (rec : Record) : List (Str × Str) := rec.filterMap (fun e => e.2.asStr.map (fun text => (e.1, text)))

def without (stripped : Option Str) (path : Str) : Str := (stripped.bind (fun p => stripPrefix p path)).getD path

def slashed (path : Str) : Str := if path.head? = some '/' then path else '/' :: path

def RequestLine.proxied (line : RequestLine) (target : Hierarchical) (options : Option Value) : RequestLine where
  method := line.method
  path := target.path ++ slashed (without (parseConfig options).stripPrefix line.path)
  query := (queryAsked options).elim line.query (fun rec => lastOf (textsOf rec))

/-- The target reads the method, the path and the query that the proxy's client was given. -/
structure Conveyed (built : ProxyRequest) (next : Parts) : Prop where
  method : next.method = built.method
  path : next.uri.path = built.uri.path
  query : next.uri.query = built.uri.query

structure WellFormed (uri : Uri) : Prop where
  path : ∀ c ∈ uri.path, c ≠ '?' ∧ c ≠ '#'
  query : ∀ query ∈ uri.query, '#' ∉ query

structure Hop where
  target : Hierarchical
  options : Option Value
  plain : ∀ c ∈ target.path, c ≠ '?' ∧ c ≠ '#'

/-- A request through one server's `.reverse-proxy` after the other's. -/
inductive Relayed (Net : Type) : Parts → List Hop → Parts → Prop
  | arrived (parts : Parts) : Relayed Net parts [] parts
  | proxied {W : World Net} (hpaths : ReadsPath W.parseUri) (hforms : ReadsForms W) {config : AppConfig Net}
    {addr : Option (IpAddr × UInt16)} {parts next last : Parts} {evaluation : Evaluation} {hop : Hop}
    {hops : List Hop}
    {input : PipelineData} {requestId : Nat} {built : ProxyRequest}
    (hproxies : Proxies W config addr parts evaluation hop.target.text hop.options input)
    (hforwards : Forwards (proxied W config addr parts evaluation requestId) built)
    (hconveyed : Conveyed built next)
    (hrest : Relayed Net next hops last) : Relayed Net parts (hop :: hops) last

lemma utf8_ascii {bytes : Bytes} (h : ∀ b ∈ bytes, b < 128) :
    utf8 (bytes.map (fun b => Char.ofNat b.toNat)) = bytes := by
  induction bytes with
  | nil => rfl
  | cons b bytes ih =>
    obtain ⟨hb, hbytes⟩ := List.forall_mem_cons.mp h
    rw [List.map_cons, utf8, List.flatMap_cons, ← utf8, ih hbytes, ofByte_utf8 hb, List.singleton_append]

lemma mem_write_ascii {pairs : List (Bytes × Bytes)} {b : UInt8} (h : b ∈ FormUrlEncoded.write pairs) :
    b < 128 ∧ b ≠ 0x23 := by
  rcases FormUrlEncoded.mem_write h with hplain | hdelimiter
  · constructor
    · by_contra hhigh
      simp only [FormUrlEncoded.isPlain, Bool.or_eq_true, Bool.and_eq_true, decide_eq_true_eq,
        List.contains_iff_mem,
        List.mem_cons, List.not_mem_nil, or_false, UInt8.le_iff_toNat_le, UInt8.lt_iff_toNat_lt] at hplain hhigh
      rcases hplain with ((hplain | hplain) | hplain) | rfl | rfl | rfl | rfl
      · exact hhigh (hplain.2.trans_lt (by decide))
      · exact hhigh (hplain.2.trans_lt (by decide))
      · exact hhigh (hplain.2.trans_lt (by decide))
      all_goals exact hhigh (by decide)
    · rintro rfl
      exact absurd hplain (by decide)
  · simp only [List.mem_cons, List.not_mem_nil, or_false] at hdelimiter
    rcases hdelimiter with rfl | rfl | rfl | rfl <;> exact ⟨by decide, by decide⟩

lemma formPairs_formText (pairs : List (Str × Str)) : formPairs (formText pairs) = pairs := by
  have hbytes : utf8 (formText pairs) =
    FormUrlEncoded.write (pairs.map (fun pair => (utf8 pair.1, utf8 pair.2))) :=
    utf8_ascii (fun b hb => (mem_write_ascii hb).1)
  rw [formPairs, hbytes, FormUrlEncoded.read_write, List.map_map]
  have hdecoded : ∀ pair : Str × Str, (fromUtf8Lossy (utf8 pair.1), fromUtf8Lossy (utf8 pair.2)) = pair := by
    intro pair
    rw [fromUtf8Lossy_utf8, fromUtf8Lossy_utf8]
  exact List.map_id'' hdecoded pairs

lemma hash_notMem_formText (pairs : List (Str × Str)) : '#' ∉ formText pairs := by
  intro h
  obtain ⟨b, hb, hchar⟩ := List.mem_map.mp h
  obtain ⟨hascii, hne⟩ := mem_write_ascii hb
  have hbytes := congrArg String.utf8EncodeChar hchar
  rw [ofByte_utf8 hascii] at hbytes
  exact hne (List.singleton_inj.mp hbytes)

def entry (pair : Str × Str) : DatedStore.Entry Str Str := ⟨pair.1, pair.2, none⟩

lemma insertQuery_entry (map : List (Str × Str)) (pair : Str × Str) :
    (insertQuery map pair.1 pair.2).map entry = DatedStore.put (map.map entry) (entry pair) := by
  have hkeys : (map.map entry).map DatedStore.Entry.key = map.map Prod.fst := by rw [List.map_map]; rfl
  have hold : map.any (fun e => e.1 = pair.1) = true ↔
    (entry pair).key ∈ (map.map entry).map DatedStore.Entry.key := by
    rw [hkeys, List.any_eq_true, List.mem_map]
    simp only [decide_eq_true_eq]
    rfl
  rw [insertQuery, DatedStore.put]
  by_cases h : map.any (fun e => e.1 = pair.1) = true
  · rw [if_pos h, if_pos (hold.mp h), List.map_map, List.map_map]
    apply List.map_congr_left
    intro e _
    by_cases he : e.1 = pair.1
    · simp [entry, he]
    · simp [entry, he]
  · rw [if_neg h, if_neg (fun hmem => h (hold.mpr hmem)), List.map_append, List.map_singleton]

lemma collect_entry (pairs : List (Str × Str)) :
    (collect pairs).map entry = DatedStore.putAll (pairs.map entry) := by
  induction pairs using List.reverseRecOn with
  | nil => rfl
  | append_singleton pairs pair ih =>
    rw [List.map_append, List.map_singleton, DatedStore.putAll_concat, ← ih, ← insertQuery_entry, collect, collect,
      List.foldl_concat]

lemma nodup_collect (pairs : List (Str × Str)) : ((collect pairs).map Prod.fst).Nodup := by
  have hkeys : (collect pairs).map Prod.fst = ((collect pairs).map entry).map DatedStore.Entry.key := by
    rw [List.map_map]
    rfl
  rw [hkeys, collect_entry]
  exact DatedStore.nodup_putAll _

lemma entry_injective : Function.Injective entry := by
  intro pair pair' h
  exact Prod.ext (congrArg DatedStore.Entry.key h) (congrArg DatedStore.Entry.value h)

lemma mem_collect {pairs : List (Str × Str)} {name text : Str} :
    (name, text) ∈ collect pairs ↔ lastOf pairs name = some text := by
  have hfilter : (pairs.map entry).filter (fun e => e.key = name) =
      (pairs.filter (fun pair => pair.1 = name)).map entry := by
    rw [List.filter_map]
    rfl
  have hkey : (entry (name, text)).key = name := rfl
  rw [← List.mem_map_of_injective entry_injective, collect_entry, DatedStore.mem_putAll, hkey, hfilter,
    List.getLast?_map,
    Option.map_eq_some_iff, lastOf, Option.map_eq_some_iff]
  constructor
  · rintro ⟨pair, hlast, hpair⟩
    exact ⟨pair, hlast, congrArg DatedStore.Entry.value hpair⟩
  · rintro ⟨pair, hlast, rfl⟩
    obtain rfl := of_decide_eq_true (List.mem_filter.mp (List.mem_of_getLast? hlast)).2
    exact ⟨pair, hlast, rfl⟩

lemma lastOf_eq_some_iff {pairs : List (Str × Str)} (h : (pairs.map Prod.fst).Nodup) {name text : Str} :
    lastOf pairs name = some text ↔ (name, text) ∈ pairs := by
  have hreverse : lastOf pairs name = (pairs.reverse.find? (fun pair => pair.1 = name)).map Prod.snd := by
    rw [lastOf, List.getLast?_eq_head?_reverse, ← List.filter_reverse, List.head?_filter]
  rw [hreverse, lookup_eq_some_iff (by rw [List.map_reverse, List.nodup_reverse]; exact h), List.mem_reverse]

lemma lastOf_collect (pairs : List (Str × Str)) : lastOf (collect pairs) = lastOf pairs := by
  funext name
  ext text
  rw [lastOf_eq_some_iff (nodup_collect pairs), mem_collect]

lemma queryOf_eq (rec : Record) : queryOf rec = collect (textsOf rec) := by
  rw [queryOf, collect, textsOf, List.foldl_filterMap]
  congr 1
  funext map e
  cases e.2.asStr <;> rfl

lemma parseConfig_query (options : Option Value) :
    (parseConfig options).query = (queryAsked options).map queryOf := by
  rw [parseConfig, queryAsked]
  cases options.bind Value.asRecord <;> rfl

section

variable {Net : Type} {W : World Net} {config : AppConfig Net} {addr : Option (IpAddr × UInt16)} {parts : Parts}

lemma follow_column {name : String} {v : Value} {request : RequestParts}
    (h : (name.toList, v) ∈ requestToValue request) : (requestToValue request).follow name.toList = some v :=
  (Record.follow_eq_some_iff (columns_requestToValue request)).mpr h

lemma tells_lineOf (hforms : ReadsForms W) :
    Tells (requestToValue (requestOf W config addr parts)) (lineOf parts) where
  method := follow_column (by simp [requestToValue, requestOf, lineOf])
  path := follow_column (by simp [requestToValue, requestOf, lineOf])
  query := by
    have hparsed : (requestOf W config addr parts).query.Perm (collect (formPairs (parts.uri.query.getD []))) := by
      rw [requestOf]
      cases parts.uri.query with
      | none => exact .refl _
      | some query => exact hforms.parsed query
    have hnodup := ((hparsed.map Prod.fst).nodup_iff).mpr (nodup_collect _)
    refine ⟨_, follow_column (List.mem_append_right _ (List.mem_cons_of_mem _ List.mem_cons_self)), ?_, ?_⟩
    · rwa [Record.columns, List.map_map]
    · intro name
      ext v
      rw [Record.follow_eq_some_iff (by rwa [Record.columns, List.map_map]), Option.map_eq_some_iff, List.mem_map]
      constructor
      · rintro ⟨pair, hpair, hv⟩
        obtain ⟨rfl, rfl⟩ := Prod.mk.inj hv
        exact ⟨pair.2, mem_collect.mp (hparsed.mem_iff.mp hpair), rfl⟩
      · rintro ⟨text, htext, rfl⟩
        exact ⟨(name, text), hparsed.mem_iff.mpr (mem_collect.mpr htext), rfl⟩

def answered (status : UInt16) : Answer := .ready (.ok (status, .empty))

lemma answered_ne {answer : Answer → List Event × Handled}
    (h : ∀ status headers, ∃ guard,
      (answer (.ready (.ok (status, headers)))).2 = .responded ⟨status, headers, .logging .upstream guard⟩) :
    answer (answered 200) ≠ answer (answered 404) := by
  intro hsame
  obtain ⟨guard, hok⟩ := h 200 .empty
  obtain ⟨guard', hmissing⟩ := h 404 .empty
  have hreply := Handled.responded.inj (hok.symm.trans ((congrArg Prod.snd hsame).trans hmissing))
  have hstatus : (200 : UInt16) = 404 := congrArg Reply.status hreply
  exact absurd hstatus (by decide)

lemma Forwards.unique {respond : Target → List Event × Handled} {built built' : ProxyRequest}
    (h : Forwards respond built) (h' : Forwards respond built') : built = built' := by
  classical
  obtain ⟨answer, hanswer, hforward⟩ := h
  obtain ⟨answer', hanswer', -⟩ := h'
  by_contra hne
  -- a target that tells the two requests apart
  let target : Target := fun request => if request = built' then answered 200 else answered 404
  have htold : target built' = answered 200 := if_pos rfl
  have hother : target built = answered 404 := if_neg hne
  apply answered_ne hforward
  calc answer (answered 200) = respond (fun _ => answered 200) := (hanswer (fun _ => answered 200)).symm
    _ = answer' (target built') := by rw [htold, hanswer']
    _ = respond target := (hanswer' target).symm
    _ = answer (answered 404) := by rw [hanswer, hother]

lemma Forwards.not_constant {respond : Target → List Event × Handled} {built : ProxyRequest}
    (h : Forwards respond built) {result : List Event × Handled} (hconstant : ∀ target, respond target = result) :
    False := by
  obtain ⟨answer, hanswer, hforward⟩ := h
  apply answered_ne hforward
  calc answer (answered 200) = result := (hanswer (fun _ => answered 200)).symm.trans (hconstant _)
    _ = answer (answered 404) := (hconstant (fun _ => answered 404)).symm.trans (hanswer _)

variable {evaluation : Evaluation} {targetUrl : Str} {options : Option Value} {input : PipelineData}

lemma requested_of_forwards (h : Proxies W config addr parts evaluation targetUrl options input) {requestId : Nat}
    {built : ProxyRequest} (hforwards : Forwards (proxied W config addr parts evaluation requestId) built) :
    ∃ body, requested W parts targetUrl options body = .ok built := by
  cases haborted : evaluation.aborted with
  | true => exact (hforwards.not_withholds (withholds_of_aborted h.route haborted requestId)).elim
  | false =>
    cases hbody : requestBody W.rendering input with
    | none =>
      have hspecial := h.special
      rw [reverseProxy, hbody, Option.map_none] at hspecial
      have hdispatch : ∀ guard target, dispatch { W with forward := target } config addr parts evaluation guard =
          dispatch { W with forward := fun _ => answered 200 } config addr parts evaluation guard := by
        intro guard target
        rw [dispatch_eq h.route haborted, dispatch_eq h.route haborted]
        change respondWith _ guard parts
            (firstSpecial evaluation.clonePanics (evaluation.run (requestOf W config addr parts))) _ =
          respondWith _ guard parts
            (firstSpecial evaluation.clonePanics (evaluation.run (requestOf W config addr parts))) _
        rw [hspecial]
        rfl
      have hconstant : ∀ target, proxied W config addr parts evaluation requestId target =
          proxied W config addr parts evaluation requestId (fun _ => answered 200) := by
        intro target
        simp only [proxied, handle, handleInner_eq, hdispatch _ target]
        rfl
      exact (hforwards.not_constant hconstant).elim
    | some body =>
      refine ⟨body, ?_⟩
      cases hrequested : requested W parts targetUrl options body with
      | error err =>
          exact (hforwards.not_withholds (withholds_of_error h haborted hbody hrequested requestId)).elim
      | ok built' => rw [(forwards_of_ok h haborted hbody hrequested requestId).unique hforwards]

def sentQuery (W : World Net) (uri : Uri) (query : Option (List (Str × Str))) : Option Str :=
  let text := query.elim (uri.query.getD []) W.serializeQuery
  if text = [] then none else some text

lemma targetUri_eq (targetUrl : Str) (uri : Uri) (stripped : Option Str) (query : Option (List (Str × Str))) :
    targetUri W targetUrl uri stripped query =
      targetUrl ++ (slashed (without stripped uri.path) ++ (sentQuery W uri query).elim [] ('?' :: ·)) := by
  have hpath : proxyPath uri stripped = slashed (without stripped uri.path) := rfl
  have htext : targetUri W targetUrl uri stripped query =
      if query.elim (uri.query.getD []) W.serializeQuery = [] then targetUrl ++ proxyPath uri stripped
      else targetUrl ++ proxyPath uri stripped ++ '?' :: query.elim (uri.query.getD []) W.serializeQuery := by
    cases query <;> rfl
  rw [htext, hpath, sentQuery]
  split_ifs
  · rw [Option.elim_none, List.append_nil]
  · rw [Option.elim_some, List.append_assoc]

lemma slashed_head (path : Str) : (slashed path).head? = some '/' := by
  rw [slashed]
  split
  · assumption
  · rfl

lemma mem_slashed {path : Str} {c : Char} (h : c ∈ slashed path) : c = '/' ∨ c ∈ path := by
  rw [slashed] at h
  split at h
  · exact .inr h
  · exact List.mem_cons.mp h

lemma mem_without {stripped : Option Str} {path : Str} {c : Char} (h : c ∈ without stripped path) : c ∈ path := by
  rw [without] at h
  cases hrest : stripped.bind (fun p => stripPrefix p path) with
  | none => rwa [hrest] at h
  | some rest =>
    rw [hrest] at h
    obtain ⟨p, _, hp⟩ := Option.bind_eq_some_iff.mp hrest
    rw [stripPrefix] at hp
    split at hp
    · exact List.mem_of_mem_drop (Option.some.inj hp ▸ h)
    · cases hp

lemma proxyRequest_method {headers : Headers} {preserveHost : Bool} {stripped : Option Str} {requestBody : Bytes}
    {query : Option (List (Str × Str))} {built : ProxyRequest}
    (h : proxyRequest W parts targetUrl headers preserveHost stripped requestBody query = .ok built) :
    built.method = parts.method := by
  rw [proxyRequest] at h
  obtain ⟨uri, _, h⟩ := except_bind_ok h
  obtain ⟨m, _, h⟩ := except_bind_ok h
  obtain ⟨m₁, _, h⟩ := except_bind_ok h
  obtain ⟨m₂, _, h⟩ := except_bind_ok h
  rw [← Except.ok.inj h]

lemma formPairs_sentQuery (hforms : ReadsForms W) (uri : Uri) (query : Option (List (Str × Str))) :
    formPairs ((sentQuery W uri query).getD []) = query.getD (formPairs (uri.query.getD [])) := by
  have hsent : (sentQuery W uri query).getD [] = query.elim (uri.query.getD []) W.serializeQuery := by
    rw [sentQuery]
    split_ifs with hnil
    · exact hnil.symm
    · rfl
  rw [hsent]
  cases query with
  | none => rfl
  | some map => rw [Option.elim_some, hforms.written, formPairs_formText, Option.getD_some]

lemma hash_notMem_sentQuery (hforms : ReadsForms W) {uri : Uri} (hwell : WellFormed uri)
    {query : Option (List (Str × Str))} : ∀ q ∈ sentQuery W uri query, '#' ∉ q := by
  intro q hq
  rw [sentQuery, Option.mem_def, Option.ite_none_left_eq_some] at hq
  obtain rfl := Option.some.inj hq.2
  cases query with
  | none =>
    rw [Option.elim_none]
    cases hquery : uri.query with
    | none => exact List.not_mem_nil
    | some query => exact hwell.query query hquery
  | some map =>
    rw [Option.elim_some, hforms.written]
    exact hash_notMem_formText map

lemma lineOf_next (hpaths : ReadsPath W.parseUri) (hforms : ReadsForms W) (hop : Hop)
    (hwell : WellFormed parts.uri)
    {body : Bytes} {built : ProxyRequest}
    (hrequested : requested W parts hop.target.text hop.options body = .ok built)
    {next : Parts} (hconveyed : Conveyed built next) :
    lineOf next = (lineOf parts).proxied hop.target hop.options ∧ WellFormed next.uri := by
  let path := slashed (without (parseConfig hop.options).stripPrefix parts.uri.path)
  let query := sentQuery W parts.uri (parseConfig hop.options).query
  have hplain : ∀ c ∈ hop.target.path ++ path, c ≠ '?' ∧ c ≠ '#' := by
    refine List.forall_mem_append.mpr ⟨hop.plain, fun c hc => ?_⟩
    rcases mem_slashed hc with rfl | hc
    · exact ⟨by decide, by decide⟩
    · exact hwell.path c (mem_without hc)
  have hhash : ∀ q ∈ query, '#' ∉ q := hash_notMem_sentQuery hforms hwell
  have hsplit := split_text_target hop.target (slashed_head _) (fun h => (hplain _ h).1 rfl)
    (fun h => (hplain _ h).2 rfl) hhash
  have hparse := proxyRequest_uri hrequested
  rw [targetUri_eq] at hparse
  have hfilled : hop.target.path ++ path ≠ [] :=
    List.append_ne_nil_of_right_ne_nil _ (List.ne_nil_of_mem (List.mem_of_head? (slashed_head _)))
  obtain ⟨hpath, hquery⟩ := hpaths _ _ hparse (by rw [hsplit]; rfl) (by rw [hsplit]; exact hfilled)
  rw [hsplit] at hpath hquery
  have hnextPath : next.uri.path = hop.target.path ++ path := hconveyed.path.trans hpath
  have hnextQuery : next.uri.query = query := hconveyed.query.trans hquery
  constructor
  · have hmap : lastOf (formPairs (next.uri.query.getD [])) =
        (queryAsked hop.options).elim (lineOf parts).query (fun rec => lastOf (textsOf rec)) := by
      rw [hnextQuery, formPairs_sentQuery hforms, parseConfig_query]
      cases queryAsked hop.options with
      | none => rfl
      | some rec => rw [Option.map_some, Option.getD_some, Option.elim_some, queryOf_eq, lastOf_collect]
    have hmethod : next.method = parts.method := hconveyed.method.trans (proxyRequest_method hrequested)
    rw [lineOf, hmap, hmethod, hnextPath]
    rfl
  · refine ⟨?_, ?_⟩
    · rw [hnextPath]
      exact hplain
    · rw [hnextQuery]
      exact hash_notMem_sentQuery hforms hwell

def Hop.pass (line : RequestLine) (hop : Hop) : RequestLine := line.proxied hop.target hop.options

lemma Relayed.line {first last : Parts} {hops : List Hop} (h : Relayed Net first hops last)
    (hwell : WellFormed first.uri) : lineOf last = hops.foldl Hop.pass (lineOf first) := by
  induction h with
  | arrived => rfl
  | proxied hpaths hforms hproxies hforwards hconveyed hrest ih =>
    obtain ⟨body, hrequested⟩ := requested_of_forwards hproxies hforwards
    obtain ⟨hline, hnext⟩ := lineOf_next hpaths hforms _ hwell hrequested hconveyed
    rw [ih hnext, hline]
    rfl

/-- The hop keeps the query text, or has for a query the record that a handler with this query is told. -/
def Hop.HandsOn (hop : Hop) (query : Str → Option Str) : Prop :=
  ∀ rec ∈ queryAsked hop.options, rec.columns.Nodup ∧ ∀ name, rec.follow name = (query name).map .string

lemma columns_textsOf {rec : Record} (h : ∀ e ∈ rec, ∃ text, e.2 = .string text) :
    (textsOf rec).map Prod.fst = rec.columns := by
  induction rec with
  | nil => rfl
  | cons e rest ih =>
    obtain ⟨⟨text, htext⟩, hrest⟩ := List.forall_mem_cons.mp h
    rw [textsOf, List.filterMap_cons, htext, ← textsOf]
    exact congrArg (List.cons e.1) (ih hrest)

lemma lastOf_textsOf {rec : Record} (hnodup : rec.columns.Nodup) {query : Str → Option Str}
    (h : ∀ name, rec.follow name = (query name).map .string) : lastOf (textsOf rec) = query := by
  have htext : ∀ e ∈ rec, ∃ text, e.2 = .string text := by
    intro e he
    have hfollow := (Record.follow_eq_some_iff hnodup).mpr he
    rw [h] at hfollow
    obtain ⟨text, _, htext⟩ := Option.map_eq_some_iff.mp hfollow
    exact ⟨text, htext.symm⟩
  have hmem : ∀ name text, (name, text) ∈ textsOf rec ↔ (name, Value.string text) ∈ rec := by
    intro name text
    rw [textsOf, List.mem_filterMap]
    constructor
    · rintro ⟨⟨col, v⟩, he, hpair⟩
      obtain ⟨t, rfl⟩ := htext _ he
      obtain ⟨rfl, rfl⟩ := Prod.mk.inj (Option.some.inj hpair)
      exact he
    · exact fun he => ⟨_, he, rfl⟩
  have hkeys : ((textsOf rec).map Prod.fst).Nodup := by rwa [columns_textsOf htext]
  funext name
  ext text
  rw [lastOf_eq_some_iff hkeys, hmem, ← Record.follow_eq_some_iff hnodup, h,
    Option.map_eq_some_iff]
  simp

lemma handsOn_foldl {hops : List Hop} {line : RequestLine} (h : ∀ hop ∈ hops, hop.HandsOn line.query) :
    (hops.foldl Hop.pass line).query = line.query := by
  induction hops generalizing line with
  | nil => rfl
  | cons hop hops ih =>
    obtain ⟨hhop, hhops⟩ := List.forall_mem_cons.mp h
    have hpass : (hop.pass line).query = line.query := by
      rw [Hop.pass, RequestLine.proxied]
      cases hasked : queryAsked hop.options with
      | none => rfl
      | some rec =>
        obtain ⟨hnodup, hfollow⟩ := hhop rec hasked
        exact lastOf_textsOf hnodup hfollow
    rw [List.foldl_cons, ih (by rwa [hpass]), hpass]

/-- Through every chain of proxies, the last handler is told the line that the configurations make of the first,
and where they hand on the query, the first one's query. -/
theorem chain_tells {first last : Parts} {hops : List Hop} (h : Relayed Net first hops last)
    (hwell : WellFormed first.uri) (hforms : ReadsForms W) :
    Tells (requestToValue (requestOf W config addr last)) (hops.foldl Hop.pass (lineOf first)) ∧
      ((∀ hop ∈ hops, hop.HandsOn (lineOf first).query) →
        (hops.foldl Hop.pass (lineOf first)).query = (lineOf first).query) := by
  refine ⟨?_, handsOn_foldl⟩
  rw [← h.line hwell]
  exact tells_lineOf hforms

end

def formWorld : World Unit :=
  { grammarWorld with parseQuery := fun query => collect (formPairs query), serializeQuery := formText }

def sentPairs : List (Str × Str) :=
  [("q".toList, "a b".toList), ("lang".toList, "fr".toList), ("q".toList, "é&".toList)]

def toldQuery : Record := [("lang".toList, .string "fr".toList), ("q".toList, .string "é&".toList)]

def frontHop : Hop where
  target := backend
  options := some (.record [("strip_prefix".toList, .string "/api".toList), ("query".toList, .record toldQuery)])
  plain := List.forall_mem_nil _

lemma plain_of_all {text : Str} (h : text.all (fun c => c != '?' && c != '#')) :
    ∀ c ∈ text, c ≠ '?' ∧ c ≠ '#' := by
  intro c hc
  simpa using List.all_eq_true.mp h c hc

def innerHop : Hop where
  target := { backend with path := "/v1".toList, path_head := by simp }
  options := none
  plain := plain_of_all (by decide)

def lineParts (path query : String) : Parts :=
  ⟨"HTTP/1.1".toList, "GET".toList, ⟨(path ++ "?" ++ query).toList, none, path.toList, some query.toList⟩, .empty⟩

def proxyingTo (hop : Hop) : Evaluation :=
  ⟨fun _ => ⟨(reverseProxy .plain hop.target.text hop.options .empty).toList, .ok .empty⟩, false, none, false⟩

lemma proxies_proxyingTo (hop : Hop) (parts : Parts) :
    Proxies formWorld ⟨[], false⟩ none parts (proxyingTo hop) hop.target.text hop.options .empty where
  route := by simp
  special := by
    change (reverseProxy .plain hop.target.text hop.options .empty).toList.head? = _
    exact Option.head?_toList

lemma readsPath_formWorld : ReadsPath formWorld.parseUri := by
  intro text uri huri _ _
  obtain rfl := Except.ok.inj huri
  exact ⟨rfl, rfl⟩

lemma readsForms_formWorld : ReadsForms formWorld := ⟨fun _ => .refl _, fun _ => rfl⟩

lemma handsOn_frontHop : frontHop.HandsOn (lastOf sentPairs) := by
  intro rec hrec
  obtain rfl : toldQuery = rec := Option.some.inj hrec
  refine ⟨by decide, fun name => ?_⟩
  by_cases hq : name = "q".toList
  · subst hq
    rfl
  · by_cases hlang : name = "lang".toList
    · subst hlang
      rfl
    · have hnone : toldQuery.follow name = none := by
        rw [Record.follow, Record.get, Option.map_eq_none_iff, List.find?_eq_none]
        intro e he
        rcases List.mem_cons.mp (List.mem_reverse.mp he) with rfl | he
        · simpa using Ne.symm hlang
        · obtain rfl := List.mem_singleton.mp he
          simpa using Ne.symm hq
      rw [hnone, lastOf, sentPairs, List.filter_cons_of_neg (by simpa using Ne.symm hq),
        List.filter_cons_of_neg (by simpa using Ne.symm hlang),
          List.filter_cons_of_neg (by simpa using Ne.symm hq)]
      rfl

theorem chain_tells_query :
    ∃ last, Relayed Unit (lineParts "/api/items" "q=a+b&lang=fr&q=%C3%A9%26") [frontHop, innerHop] last ∧
      ∃ query, Tells (requestToValue (requestOf formWorld ⟨[], false⟩ none last))
          ⟨"GET".toList, "/v1/items".toList, query⟩ ∧
        query "q".toList = some "é&".toList ∧ query "lang".toList = some "fr".toList := by
  let first := lineParts "/api/items" "q=a+b&lang=fr&q=%C3%A9%26"
  let next := lineParts "/items" "lang=fr&q=%C3%A9%26"
  let last := lineParts "/v1/items" "lang=fr&q=%C3%A9%26"
  have hfront := forwards_of_ok (proxies_proxyingTo frontHop first) rfl rfl rfl 7
  have hinner := forwards_of_ok (proxies_proxyingTo innerHop next) rfl rfl rfl 8
  have hlast : Relayed Unit next [innerHop] last :=
    .proxied readsPath_formWorld readsForms_formWorld (proxies_proxyingTo _ _) hinner
      (show Conveyed _ last from ⟨rfl, by decide, by decide⟩) (.arrived last)
  have hrelayed : Relayed Unit first [frontHop, innerHop] last :=
    .proxied readsPath_formWorld readsForms_formWorld (proxies_proxyingTo _ _) hfront
      (show Conveyed _ next from ⟨rfl, by decide, by decide⟩) hlast
  have hwell : WellFormed first.uri := by
    refine ⟨plain_of_all (by decide), fun query hquery => ?_⟩
    obtain rfl := Option.some.inj hquery
    decide
  have hsent : formText sentPairs = "q=a+b&lang=fr&q=%C3%A9%26".toList := by decide
  have hquery : (lineOf first).query = lastOf sentPairs := by
    rw [lineOf, ← formPairs_formText sentPairs, hsent]
    rfl
  obtain ⟨htells, hhanded⟩ := chain_tells hrelayed hwell readsForms_formWorld
  have hinnerHop : innerHop.HandsOn (lineOf first).query := by
    intro rec hrec
    cases hrec
  have hsame := hhanded
    (List.forall_mem_cons.mpr ⟨hquery ▸ handsOn_frontHop, List.forall_mem_singleton.mpr hinnerHop⟩)
  have hpath : ([frontHop, innerHop].foldl Hop.pass (lineOf first)).path = "/v1/items".toList := by decide
  refine ⟨last, hrelayed, lastOf sentPairs, ⟨htells.method, hpath ▸ htells.path, ?_⟩, rfl, rfl⟩
  rw [← hquery, ← hsame]
  exact htells.query

end HttpNu.Handler
