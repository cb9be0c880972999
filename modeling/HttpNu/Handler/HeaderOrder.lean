import HttpNu.Handler.ContentType

/-! Whether the headers of a response depend on the order in which the handler's headers are iterated. -/

namespace HttpNu.Handler

open Text Library Http Response Worker

def strings : Response.HeaderValue → List Str
  | .single s => [s]
  | .multiple values => values

def ValidValues (headers : Headers) : Prop := ∀ e ∈ headers, ∀ s ∈ strings e.2, (HeaderValue.fromStr s).isSome

def OrderFree (headers : Headers) : Prop :=
  ∀ compressFull inferred status body useBrotli requestId order order', order.Perm headers → order'.Perm headers →
    ∀ logged response, buildNormalResponse compressFull (inferred, ⟨status, order⟩, body) useBrotli requestId =
      (logged, .ok response) →
        ∃ logged' response', buildNormalResponse compressFull (inferred, ⟨status, order'⟩, body)
          useBrotli requestId =
          (logged', .ok response') ∧ ∀ name, response'.headers.getAll name = response.headers.getAll name

/-- Of a header that is given under several spellings, every value arrives. -/
def LosesNothing (headers : Headers) : Prop :=
  ∀ compressFull inferred status body useBrotli requestId order, order.Perm headers →
    ∀ logged response, buildNormalResponse compressFull (inferred, ⟨status, order⟩, body) useBrotli requestId =
      (logged, .ok response) →
        ∀ e ∈ headers, ∀ e' ∈ headers, e.1 ≠ e'.1 → ∀ name, headerName e.1 = some name →
          headerName e'.1 = some name →
          ∀ s ∈ strings e.2, ∃ value ∈ response.headers.getAll name, HeaderValue.fromStr s = some value

/-- Two entries for one header that say the same in both orders. -/
def Compatible : Response.HeaderValue → Response.HeaderValue → Prop
  | .single s, .single t => s = t
  | .single _, .multiple ts => ts = []
  | .multiple ss, .single _ => ss = []
  | .multiple ss, .multiple ts => ss ++ ts = ts ++ ss

/-- Entries for one header under different spellings are compatible; for a content type, all of them say no more
than the entry that is looked up. -/
def SpellingsAgree (headers : Headers) : Prop :=
  ∀ e ∈ headers, ∀ e' ∈ headers, e.1 ≠ e'.1 → headerName e.1 = headerName e'.1 →
    if isContentType e.1 then ∀ s ∈ strings e.2, LookedUp headers s else Compatible e.2 e'.2

lemma insertHeader_keys (map : Headers) (k : Str) (v : Response.HeaderValue) :
    (insertHeader map k v).map Prod.fst =
      if k ∈ map.map Prod.fst then map.map Prod.fst else map.map Prod.fst ++ [k] := by
  have hany : map.any (fun e => e.1 = k) = true ↔ k ∈ map.map Prod.fst := by simp
  rw [insertHeader]
  by_cases hk : k ∈ map.map Prod.fst
  · rw [if_pos (hany.mpr hk), if_pos hk, List.map_map]
    apply List.map_congr_left
    intro e _
    by_cases he : e.1 = k <;> simp [he]
  · rw [if_neg (mt hany.mp hk), if_neg hk, List.map_append, List.map_singleton]

lemma headersOf_nodup (rec : Record) : ((headersOf rec).map Prod.fst).Nodup := by
  have hinsert : ∀ (map : Headers) (k : Str) (v : Response.HeaderValue), (map.map Prod.fst).Nodup →
      ((insertHeader map k v).map Prod.fst).Nodup := by
    intro map k v h
    rw [insertHeader_keys]
    by_cases hk : k ∈ map.map Prod.fst
    · rwa [if_pos hk]
    · rw [if_neg hk, ← List.concat_eq_append]
      exact h.concat hk
  refine List.foldlRecOn rec _ (motive := fun map : Headers => (map.map Prod.fst).Nodup) List.nodup_nil ?_
  intro map h e _
  cases hentry : headerEntry e.2 with
  | none => exact h
  | some v => exact hinsert map e.1 v h

lemma getHeader_perm {headers order : Headers} (hp : order.Perm headers) (hn : (headers.map Prod.fst).Nodup)
    (k : Str) : getHeader order k = getHeader headers k := by
  have hn' : (order.map Prod.fst).Nodup := (hp.map Prod.fst).nodup_iff.mpr hn
  apply Option.ext
  intro v
  exact (lookup_eq_some_iff hn').trans (hp.mem_iff.trans (lookup_eq_some_iff hn).symm)

lemma explicitContentType_perm {headers order : Headers} (hp : order.Perm headers)
    (hn : (headers.map Prod.fst).Nodup) : explicitContentType order = explicitContentType headers := by
  simp only [explicitContentType, getHeader_perm hp hn]

lemma validHeaders_perm {headers order : Headers} (hp : order.Perm headers) {leftOut : Str → Bool} :
    ValidHeaders leftOut order ↔ ValidHeaders leftOut headers := by
  simp only [ValidHeaders, hp.mem_iff]

lemma valuesAfter_append (name : Str) (headers later : Headers) (values : List Http.HeaderValue) :
    valuesAfter name (headers ++ later) values = valuesAfter name later (valuesAfter name headers values) := by
  induction headers generalizing values with
  | nil => rfl
  | cons e rest ih => exact ih _

lemma valuesAfter_eq_foldl (name : Str) (headers : Headers) (values : List Http.HeaderValue) :
    valuesAfter name headers values =
      headers.foldl (fun values e => if names name e.1 then putValues values e.2 else values) values := by
  induction headers generalizing values with
  | nil => rfl
  | cons e rest ih => exact ih _

lemma built_perm {headers order order' : Headers} (hp : order.Perm headers) (hp' : order'.Perm headers)
    (hn : (headers.map Prod.fst).Nodup) {compressFull : Bytes → Except Str Bytes} {inferred : Option Str}
    {status : Option UInt16} {body : ResponseTransport} {useBrotli : Bool} {requestId : Nat}
    {logged : List Logging.Event} {response : NormalResponse}
    (h : buildNormalResponse compressFull (inferred, ⟨status, order⟩, body) useBrotli requestId =
      (logged, .ok response)) :
    ∃ logged' response', buildNormalResponse compressFull (inferred, ⟨status, order'⟩, body) useBrotli requestId =
        (logged', .ok response') ∧
      ∀ name, ∃ values, response.headers.getAll name = valuesAfter name order values ∧
        response'.headers.getAll name = valuesAfter name order' values := by
  obtain ⟨hheaders, hstatus, heq, hbody, _⟩ := buildNormalResponse_ok h
  obtain ⟨m₀, hset, hadd⟩ := except_bind_ok hheaders
  have hct : responseContentType (inferred, ⟨status, order'⟩, body) =
      responseContentType (inferred, ⟨status, order⟩, body) := by
    simp only [responseContentType, explicitContentType_perm hp hn, explicitContentType_perm hp' hn]
  have hvalid : ValidHeaders isContentType order' :=
    (validHeaders_perm hp').mpr ((validHeaders_perm hp).mp ((addHeaders_ok_iff _ _).mp ⟨_, hadd⟩))
  obtain ⟨m', hm'⟩ := (addHeaders_ok_iff order'
    (baseHeaders useBrotli (isEventStream (responseContentType (inferred, ⟨status, order⟩, body))) m₀)).mpr hvalid
  have hheaders' : responseHeaders (inferred, ⟨status, order'⟩, body) useBrotli = .ok m' := by
    simp only [responseHeaders, hct, hset]
    exact hm'
  have hbody' : responseBody compressFull (inferred, ⟨status, order'⟩, body) useBrotli = .ok response.body := by
    rw [← hbody]
    simp only [responseBody, hct]
  exact ⟨_, _, buildNormalResponse_eq hheaders' (heq ▸ hstatus) hbody',
    fun name => ⟨_, addHeaders_getAll hadd name, addHeaders_getAll hm' name⟩⟩

lemma filterMap_fromStr_inj {ss ts : List Str} (hs : ∀ s ∈ ss, (HeaderValue.fromStr s).isSome)
    (ht : ∀ t ∈ ts, (HeaderValue.fromStr t).isSome)
    (h : ss.filterMap HeaderValue.fromStr = ts.filterMap HeaderValue.fromStr) : ss = ts := by
  have hback : ∀ ss : List Str, (∀ s ∈ ss, (HeaderValue.fromStr s).isSome) →
      (ss.filterMap HeaderValue.fromStr).map (fun v => fromUtf8Lossy v.bytes) = ss := by
    intro ss hs
    induction ss with
    | nil => rfl
    | cons s ss ih =>
      obtain ⟨hhead, htail⟩ := List.forall_mem_cons.mp hs
      obtain ⟨v, hv⟩ := Option.isSome_iff_exists.mp hhead
      rw [List.filterMap_cons_some hv, List.map_cons, ih htail, HeaderValue.bytes_of_fromStr hv,
        fromUtf8Lossy_utf8]
  rw [← hback ss hs, h, hback ts ht]

lemma putValues_comm {v w : Response.HeaderValue} (h : Compatible v w) (values : List Http.HeaderValue) :
    putValues (putValues values v) w = putValues (putValues values w) v := by
  cases v with
  | single s =>
    cases w with
    | single t =>
      obtain rfl : s = t := h
      rfl
    | multiple ts =>
      obtain rfl : ts = [] := h
      exact List.append_nil _
  | multiple ss =>
    cases w with
    | single t =>
      obtain rfl : ss = [] := h
      exact (List.append_nil _).symm
    | multiple ts =>
      have hlists : ss.filterMap HeaderValue.fromStr ++ ts.filterMap HeaderValue.fromStr =
          ts.filterMap HeaderValue.fromStr ++ ss.filterMap HeaderValue.fromStr := by
        rw [← List.filterMap_append, ← List.filterMap_append, show ss ++ ts = ts ++ ss from h]
      rw [putValues, putValues, putValues, putValues, List.append_assoc, List.append_assoc, hlists]

lemma compatible_of_comm {v w : Response.HeaderValue} (hv : ∀ s ∈ strings v, (HeaderValue.fromStr s).isSome)
    (hw : ∀ s ∈ strings w, (HeaderValue.fromStr s).isSome) {values : List Http.HeaderValue}
    (h : putValues (putValues values v) w = putValues (putValues values w) v) : Compatible v w := by
  have hempty : ∀ {ss : List Str}, (∀ s ∈ ss, (HeaderValue.fromStr s).isSome) →
      ss.filterMap HeaderValue.fromStr = [] → ss = [] :=
    fun hs h => filterMap_fromStr_inj hs (by simp) h
  cases v with
  | single s =>
    obtain ⟨a, ha⟩ := Option.isSome_iff_exists.mp (hv s List.mem_cons_self)
    cases w with
    | single t =>
      obtain ⟨b, hb⟩ := Option.isSome_iff_exists.mp (hw t List.mem_cons_self)
      simp only [putValues, ha, hb, Option.toList_some, List.cons.injEq, and_true] at h
      exact HeaderValue.fromStr_inj ha (h ▸ hb)
    | multiple ts =>
      simp only [putValues] at h
      exact hempty hw (List.append_right_eq_self.mp h)
  | multiple ss =>
    cases w with
    | single t =>
      simp only [putValues] at h
      exact hempty hv (List.append_right_eq_self.mp h.symm)
    | multiple ts =>
      simp only [putValues, List.append_assoc, List.append_cancel_left_eq] at h
      apply filterMap_fromStr_inj
      · exact fun s hs => (List.mem_append.mp hs).elim (hv s) (hw s)
      · exact fun s hs => (List.mem_append.mp hs).elim (hw s) (hv s)
      · rw [List.filterMap_append, List.filterMap_append, h]

section
variable {headers : Headers} {status : Option UInt16}

lemma names_headerName {name k : Str} (h : names name k = true) :
    headerName k = some name ∧ isContentType k = false := by
  rw [names, Bool.and_eq_true, Bool.not_eq_true', decide_eq_true_eq] at h
  exact h.symm

lemma valuesAfter_perm (hagree : SpellingsAgree headers) (hn : (headers.map Prod.fst).Nodup)
    {order order' : Headers}
    (hp : order.Perm headers) (hp' : order'.Perm headers) (name : Str) (values : List Http.HeaderValue) :
    valuesAfter name order values = valuesAfter name order' values := by
  rw [valuesAfter_eq_foldl, valuesAfter_eq_foldl]
  apply (hp.trans hp'.symm).foldl_eq'
  intro e he e' he' values
  by_cases hk : names name e.1 = true
  · by_cases hk' : names name e'.1 = true
    · rw [if_pos hk, if_pos hk', if_pos hk, if_pos hk']
      by_cases hkeys : e.1 = e'.1
      · -- a map has one entry for a key
        obtain rfl : e = e' := List.inj_on_of_nodup_map hn (hp.mem_iff.mp he) (hp.mem_iff.mp he') hkeys
        rfl
      · obtain ⟨hname, hct⟩ := names_headerName hk
        have hcompatible := hagree e (hp.mem_iff.mp he) e' (hp.mem_iff.mp he') hkeys
          (hname.trans (names_headerName hk').1.symm)
        rw [hct, if_neg (by simp)] at hcompatible
        exact putValues_comm hcompatible values
    · simp only [if_neg hk']
  · simp only [if_neg hk]

lemma not_unanswerable (hvalues : ValidValues headers) (hheaders : ValidHeaders isContentType headers) :
    ¬ Unanswerable ⟨none, headers⟩ := by
  rintro (hinvalid | ⟨status, hs, _⟩ | ⟨ct, ⟨v, hv, hct⟩, hnone⟩)
  · exact hinvalid hheaders
  · cases hs
  · have hmem : ∃ k, (k, v) ∈ headers := by
      rcases hv with hv | ⟨_, hv⟩
      all_goals
        obtain ⟨e, he, rfl⟩ := Option.map_eq_some_iff.mp hv
        exact ⟨e.1, List.mem_of_find?_eq_some he⟩
    obtain ⟨k, hmem⟩ := hmem
    have hstring : ct ∈ strings v := by
      cases v with
      | single s => exact List.mem_singleton.mpr (Option.some.inj hct).symm
      | multiple values => exact List.mem_of_mem_head? hct
    have hsome := hvalues (k, v) hmem ct hstring
    rw [hnone] at hsome
    cases hsome

lemma strings_putValues {v : Response.HeaderValue} {s : Str} (hs : s ∈ strings v) {value : Http.HeaderValue}
    (h : HeaderValue.fromStr s = some value) (values : List Http.HeaderValue) : value ∈ putValues values v := by
  cases v with
  | single t =>
    obtain rfl := List.mem_singleton.mp hs
    exact Option.mem_toList.mpr h
  | multiple ts => exact List.mem_append_right _ (List.mem_filterMap.mpr ⟨s, hs, h⟩)

lemma orderFree_of_agree (hn : (headers.map Prod.fst).Nodup) (hagree : SpellingsAgree headers) :
    OrderFree headers := by
  intro compressFull inferred status body useBrotli requestId order order' hp hp' logged response hbuilt
  obtain ⟨logged', response', hbuilt', hvalues⟩ := built_perm hp hp' hn hbuilt
  refine ⟨logged', response', hbuilt', fun name => ?_⟩
  obtain ⟨values, hget, hget'⟩ := hvalues name
  rw [hget, hget', valuesAfter_perm hagree hn hp' hp]

lemma losesNothing_of_agree (hvalues : ValidValues headers) (hn : (headers.map Prod.fst).Nodup)
    (hagree : SpellingsAgree headers) : LosesNothing headers := by
  intro compressFull inferred status body useBrotli requestId order hp logged response hbuilt e he e' he' hne name
    hname hname' s hs
  have hsaid := hagree e he e' he' hne (hname.trans hname'.symm)
  cases hk : isContentType e.1 with
  | true =>
    rw [hk, if_pos rfl] at hsaid
    have hexplicit := explicitContentType_eq_some.mpr (hsaid s hs)
    rw [← explicitContentType_perm hp hn] at hexplicit
    obtain ⟨value, hvalue, hget⟩ := (carries_iff hbuilt s).mpr (responseContentType_explicit hexplicit)
    obtain rfl : contentType = name := Option.some.inj (((isContentType_iff _).mp hk).symm.trans hname)
    exact ⟨value, by rw [hget]; exact List.mem_singleton_self value, hvalue⟩
  | false =>
    obtain ⟨value, hvalue⟩ := Option.isSome_iff_exists.mp (hvalues e he s hs)
    obtain ⟨_, _, _, hget⟩ := built_perm hp hp hn hbuilt
    obtain ⟨values, hget, _⟩ := hget name
    -- the entry may as well come last
    obtain ⟨before, after, rfl⟩ := List.append_of_mem he
    have hlast : (before ++ after ++ [e]).Perm (before ++ e :: after) := by
      rw [List.append_assoc]
      exact (List.perm_append_singleton e after).append_left before
    have hnames : names name e.1 = true := by simp [names, hk, hname]
    rw [hget, valuesAfter_perm hagree hn hp hlast, valuesAfter_append, valuesAfter, valuesAfter, if_pos hnames]
    exact ⟨value, strings_putValues hs hvalue _, hvalue⟩

lemma exists_perm_last {α : Type} {l : List α} {a b : α} (ha : a ∈ l) (hb : b ∈ l) (hne : a ≠ b) :
    ∃ rest, (rest ++ [a, b]).Perm l := by
  have hnodup : [a, b].Nodup := List.nodup_cons.mpr ⟨by simpa using hne, List.nodup_singleton b⟩
  have hsubset : [a, b] ⊆ l := List.cons_subset.mpr ⟨ha, by simpa using hb⟩
  obtain ⟨l', hperm, hsublist⟩ := List.subperm_iff.mp (List.subperm_of_subset hnodup hsubset)
  obtain ⟨rest, hrest⟩ := hsublist.exists_perm_append
  exact ⟨rest, List.perm_append_comm.trans (hrest.symm.trans hperm)⟩

lemma compatible_of_orderFree (hvalues : ValidValues headers) (hn : (headers.map Prod.fst).Nodup)
    (hheaders : ValidHeaders isContentType headers) (hfree : OrderFree headers) {e e' : Str × Response.HeaderValue}
    (he : e ∈ headers) (he' : e' ∈ headers) (hne : e.1 ≠ e'.1) (hname : headerName e.1 = headerName e'.1)
    (hk : isContentType e.1 = false) (hk' : isContentType e'.1 = false) : Compatible e.2 e'.2 := by
  obtain ⟨name, hnamed⟩ := Option.isSome_iff_exists.mp (hheaders e he hk).1
  have hnames : names name e.1 = true := by simp [names, hk, hnamed]
  have hnames' : names name e'.1 = true := by simp [names, hk', ← hname, hnamed]
  obtain ⟨rest, hp⟩ := exists_perm_last he he' (ne_of_apply_ne Prod.fst hne)
  have hp' : (rest ++ [e', e]).Perm headers := ((List.Perm.swap e e' []).append_left rest).trans hp
  have hanswers : ¬ Unanswerable ⟨none, rest ++ [e, e']⟩ :=
    not_unanswerable (fun e he => hvalues e (hp.mem_iff.mp he)) ((validHeaders_perm hp).mpr hheaders)
  obtain ⟨logged, response, hbuilt⟩ := buildNormalResponse_built Except.ok none .stream 0 hanswers (by simp)
  obtain ⟨_, response', hbuilt', hsame⟩ := hfree _ _ _ _ _ _ _ _ hp hp' _ _ hbuilt
  obtain ⟨_, response'', hbuilt'', hget⟩ := built_perm hp hp' hn hbuilt
  obtain rfl : response' = response'' := Built.ok.inj (congrArg Prod.snd (hbuilt'.symm.trans hbuilt''))
  obtain ⟨values, hget, hget'⟩ := hget name
  have hcomm := (hget'.symm.trans (hsame name)).trans hget
  simp only [valuesAfter_append, valuesAfter, if_pos hnames, if_pos hnames'] at hcomm
  exact compatible_of_comm (hvalues e he) (hvalues e' he') hcomm.symm

lemma lookedUp_of_losesNothing (hvalues : ValidValues headers) (hheaders : ValidHeaders isContentType headers)
    (hloses : LosesNothing headers) {e e' : Str × Response.HeaderValue} (he : e ∈ headers) (he' : e' ∈ headers)
    (hne : e.1 ≠ e'.1) (hname : headerName e.1 = headerName e'.1) (hk : isContentType e.1 = true) {s : Str}
    (hs : s ∈ strings e.2) : LookedUp headers s := by
  have hcontentType := (isContentType_iff _).mp hk
  apply lookedUp_of_carries (not_unanswerable hvalues hheaders)
  intro inferred logged response hbuilt
  obtain ⟨value, hmem, hvalue⟩ :=
    hloses _ _ _ _ _ _ _ (List.Perm.refl headers) _ _ hbuilt e he e' he' hne contentType
    hcontentType (hname ▸ hcontentType) s hs
  exact carries_of_mem hbuilt hvalue hmem

end

theorem headersKept_iff (rec : Record) (hvalues : ValidValues (headersOf rec)) :
    OrderFree (headersOf rec) ∧ LosesNothing (headersOf rec) ↔
      ¬ ValidHeaders isContentType (headersOf rec) ∨ SpellingsAgree (headersOf rec) := by
  have hn := headersOf_nodup rec
  constructor
  · rintro ⟨hfree, hloses⟩
    rw [or_iff_not_imp_left, not_not]
    intro hheaders e he e' he' hne hname
    split
    · rename_i hk
      exact fun s hs => lookedUp_of_losesNothing hvalues hheaders hloses he he' hne hname hk hs
    · rename_i hk
      have hk' : isContentType e'.1 ≠ true := by
        intro hk'
        rw [isContentType_iff] at hk hk'
        exact hk (hname.trans hk')
      exact compatible_of_orderFree hvalues hn hheaders hfree he he' hne hname (by simpa using hk)
        (by simpa using hk')
  · rintro (hheaders | hagree)
    · have hnone : ∀ {compressFull inferred status body useBrotli requestId order logged response},
          order.Perm (headersOf rec) →
          buildNormalResponse compressFull (inferred, ⟨status, order⟩, body) useBrotli requestId ≠
            (logged, .ok response) :=
        fun hp hbuilt => answerable_of_built hbuilt (Or.inl (mt (validHeaders_perm hp).mp hheaders))
      exact ⟨fun _ _ _ _ _ _ _ _ hp _ _ _ hbuilt => absurd hbuilt (hnone hp),
        fun _ _ _ _ _ _ _ hp _ _ hbuilt => absurd hbuilt (hnone hp)⟩
    · exact ⟨orderFree_of_agree hn hagree, losesNothing_of_agree hvalues hn hagree⟩

/-- The same two cookies under both spellings: every order gives them twice. -/
def cookieList : Record :=
  [("Set-Cookie".toList, .list [.string "a=1".toList, .string "b=2".toList]),
    ("set-cookie".toList, .list [.string "a=1".toList, .string "b=2".toList])]

theorem cookieList_kept : OrderFree (headersOf cookieList) ∧ LosesNothing (headersOf cookieList) := by
  have hlist : ∀ e ∈ headersOf cookieList, e.2 = .multiple ["a=1".toList, "b=2".toList] ∧
    isContentType e.1 = false :=
    List.forall_mem_cons.mpr ⟨⟨rfl, by decide⟩, List.forall_mem_singleton.mpr ⟨rfl, by decide⟩⟩
  have hvalues : ValidValues (headersOf cookieList) := by
    intro e he
    rw [(hlist e he).1]
    exact List.forall_mem_cons.mpr ⟨by decide, List.forall_mem_singleton.mpr (by decide)⟩
  refine (headersKept_iff cookieList hvalues).mpr (Or.inr ?_)
  intro e he e' he' _ _
  rw [(hlist e he).1, (hlist e' he').1, (hlist e he).2, if_neg (by simp)]
  rfl

/-- One cookie set by the handler itself, the other with the spelling of the cookie helpers. -/
def twoCookies : Record :=
  [("set-cookie".toList, .string "a=1".toList), ("Set-Cookie".toList, .string "b=2".toList)]

theorem twoCookies_lost : ValidValues (headersOf twoCookies) ∧ ValidHeaders isContentType (headersOf twoCookies) ∧
    ¬ OrderFree (headersOf twoCookies) ∧ ¬ LosesNothing (headersOf twoCookies) := by
  have hboth : ∀ {p : Str × Response.HeaderValue → Prop}, p ("set-cookie".toList, .single "a=1".toList) →
      p ("Set-Cookie".toList, .single "b=2".toList) → ∀ e ∈ headersOf twoCookies, p e :=
    fun h h' => List.forall_mem_cons.mpr ⟨h, List.forall_mem_singleton.mpr h'⟩
  have hswap : (headersOf twoCookies).reverse.Perm (headersOf twoCookies) := List.reverse_perm _
  refine ⟨?_, ?_, ?_, ?_⟩
  · exact hboth (List.forall_mem_singleton.mpr (by decide)) (List.forall_mem_singleton.mpr (by decide))
  · exact hboth (fun _ => ⟨by decide, by decide⟩) (fun _ => ⟨by decide, by decide⟩)
  · intro hfree
    obtain ⟨_, response', hbuilt', hsame⟩ :=
      hfree Except.ok none none .empty false 0 _ _ (List.Perm.refl _) hswap _ _ rfl
    obtain rfl := Built.ok.inj (congrArg Prod.snd hbuilt')
    exact absurd (congrArg (List.map HeaderValue.chars) (hsame "set-cookie".toList)) (by decide +kernel)
  · intro hloses
    obtain ⟨value, hmem, hvalue⟩ := hloses Except.ok none none .empty false 0 _ (List.Perm.refl _) _ _ rfl
      _ List.mem_cons_self _ (List.mem_cons_of_mem _ List.mem_cons_self) (by decide) "set-cookie".toList
      (by decide) (by decide) _ List.mem_cons_self
    obtain rfl := Option.some.inj hvalue
    exact absurd (List.mem_map_of_mem (f := HeaderValue.chars) hmem) (by decide +kernel)

end HttpNu.Handler
