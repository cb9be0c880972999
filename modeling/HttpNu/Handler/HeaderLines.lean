import HttpNu.Handler.ProxyHeaders

/-! The lines that a response carries for a header of which one entry, of the map of the handler's headers, is the
one that a helper writes. -/

namespace HttpNu.Handler

open Text Library Http Response Worker

variable {headers : Headers} {name key : Str}

def EveryResponse (http : HttpResponseMeta) (name : Str) (P : List Http.HeaderValue → Prop) : Prop :=
  ∀ compressFull inferred body useBrotli requestId order logged response, order.Perm http.headers →
    buildNormalResponse compressFull (inferred, ⟨http.status, order⟩, body) useBrotli requestId =
      (logged, .ok response) →
      P (response.headers.getAll name)

def CarriesLines (http : HttpResponseMeta) (name : Str) (ss : List Str) : Prop :=
  EveryResponse http name (fun values => values.map HeaderValue.bytes = ss.map utf8)

def Arrives (http : HttpResponseMeta) (name s : Str) : Prop :=
  EveryResponse http name (fun values => utf8 s ∈ values.map HeaderValue.bytes)

/-- No header that the response has of its own. -/
def Unowned (name : Str) : Prop :=
  name ≠ contentType ∧ name ≠ vary ∧ name ≠ cacheControl ∧ name ≠ connection ∧ name ≠ contentEncoding

/-- Entries under other spellings say nothing, or are the same one string. -/
def OthersAgree (headers : Headers) (name key : Str) : Prop :=
  ∀ e ∈ headers, headerName e.1 = some name → e.1 ≠ key →
    texts [e.2] = [] ∨ isSingle e.2 = true ∧ (key, e.2) ∈ headers

def ownEntry (headers : Headers) (key : Str) : List Response.HeaderValue := (getHeader headers key).toList

lemma getHeader_insertHeader (map : Headers) (k k' : Str) (v : Response.HeaderValue) :
    getHeader (insertHeader map k v) k' = if k = k' then some v else getHeader map k' := by
  rw [insertHeader, getHeader, getHeader]
  split
  · rename_i hany
    have hfind : ∀ rest : Headers, (rest.map (fun e => if e.1 = k then (k, v) else e)).find? (fun e => e.1 = k') =
        (rest.find? (fun e => e.1 = k')).map (fun e => if e.1 = k then (k, v) else e) := by
      intro rest
      induction rest with
      | nil => rfl
      | cons e rest ih =>
        have hkey : (if e.1 = k then (k, v) else e).1 = e.1 := by split <;> simp_all
        by_cases he : e.1 = k'
        · rw [List.map_cons, List.find?_cons_of_pos (by simpa [hkey] using he),
            List.find?_cons_of_pos (by simpa using he)]
          rfl
        · rw [List.map_cons, List.find?_cons_of_neg (by simpa [hkey] using he),
            List.find?_cons_of_neg (by simpa using he),
            ih]
    rw [hfind]
    split
    · rename_i hk
      subst hk
      obtain ⟨e, he⟩ := Option.isSome_iff_exists.mp (List.find?_isSome.mpr (List.any_eq_true.mp hany))
      have hkey : e.1 = k := by simpa using List.find?_some he
      simp [he, hkey]
    · rename_i hk
      cases hfound : map.find? (fun e => e.1 = k') with
      | none => rfl
      | some e =>
        have hkey : e.1 = k' := by simpa using List.find?_some hfound
        simp [hkey, Ne.symm hk]
  · rename_i hany
    have hnone : map.find? (fun e => e.1 = k) = none :=
      List.find?_eq_none.mpr (fun e he hk => hany (List.any_eq_true.mpr ⟨e, he, hk⟩))
    rw [List.find?_append]
    split
    · rename_i hk
      subst hk
      rw [hnone]
      simp
    · rename_i hk
      simp [hk]

lemma getHeader_headersOf {rec : Record} (h : rec.columns.Nodup) (k : Str) :
    getHeader (headersOf rec) k = (rec.get k).bind headerEntry := by
  have hstart : (rec.get k).bind headerEntry = ((rec.get k).bind headerEntry).or (getHeader [] k) :=
    Option.or_none.symm
  rw [hstart, headersOf]
  clear hstart
  -- the map that the fold has reached comes second to the columns that are left
  generalize ([] : Headers) = map
  induction rec generalizing map with
  | nil => rfl
  | cons e rest ih =>
    obtain ⟨hnot, hrest⟩ := List.nodup_cons.mp h
    rw [List.foldl_cons, ih hrest]
    by_cases hk : e.1 = k
    · have hnone : Record.get rest k = none := by
        rw [← Option.not_isSome_iff_eq_none, ← Record.mem_columns_iff, ← hk]
        exact hnot
      have hsome : Record.get (e :: rest) k = some e.2 := by simp [Record.get, hk]
      rw [hnone, hsome, Option.bind_none, Option.none_or, Option.bind_some]
      cases headerEntry e.2 with
      | none => rfl
      | some v => rw [getHeader_insertHeader, if_pos hk, Option.some_or]
    · have hget : Record.get (e :: rest) k = Record.get rest k := by simp [Record.get, hk]
      rw [hget]
      congr 1
      cases headerEntry e.2 with
      | none => rfl
      | some v => rw [getHeader_insertHeader, if_neg hk]

lemma valuesAfter_entriesFor (hname : name ≠ contentType) (headers : Headers) (values : List Http.HeaderValue) :
    valuesAfter name headers values = (entriesFor name headers).foldl putValues values := by
  induction headers generalizing values with
  | nil => rfl
  | cons e rest ih =>
    obtain ⟨k, v⟩ := e
    by_cases hk : headerName k = some name
    · have hcontent : isContentType k = false := by
        rw [← Bool.not_eq_true, isContentType_iff, hk]
        exact fun h => hname (Option.some.inj h)
      rw [valuesAfter, if_pos (by simp [names, hk, hcontent]), ih, entriesFor_cons_of_eq hk, List.foldl_cons]
    · rw [valuesAfter, if_neg (fun h => hk (names_headerName h).1), ih, entriesFor_cons_of_ne hk]

lemma built_getAll (hname : Unowned name) {http : HttpResponseMeta} {compressFull : Bytes → Except Str Bytes}
    {inferred : Option Str} {body : ResponseTransport} {useBrotli : Bool} {requestId : Nat}
    {logged : List Logging.Event} {response : NormalResponse}
    (h : buildNormalResponse compressFull (inferred, http, body) useBrotli requestId = (logged, .ok response)) :
    response.headers.getAll name = (entriesFor name http.headers).foldl putValues [] := by
  obtain ⟨hcontent, hvary, hcache, hconnection, hencoding⟩ := hname
  obtain ⟨hheaders, _⟩ := buildNormalResponse_ok h
  obtain ⟨m₀, hset, hadd⟩ := except_bind_ok hheaders
  have hempty : m₀.getAll name = [] := by
    cases hct : responseContentType (inferred, http, body) with
    | none =>
      rw [hct] at hset
      obtain rfl := Except.ok.inj hset
      rfl
    | some ct =>
      rw [hct] at hset
      obtain ⟨value, _, hset⟩ := except_bind_ok hset
      obtain rfl := Except.ok.inj hset
      exact MultiMap.getAll_insert_ne _ hcontent _
  rw [addHeaders_getAll hadd, valuesAfter_entriesFor hcontent, baseHeaders_getAll _ _ _ hvary hcache hconnection,
    if_neg (fun hc => hencoding hc.2), hempty]

lemma everyResponse_iff (hname : Unowned name) {http : HttpResponseMeta} {P : List Http.HeaderValue → Prop}
    (hn : (http.headers.map Prod.fst).Nodup) (hhttp : ¬ Unanswerable http) :
    EveryResponse http name P ↔ ∀ order : Headers, order.Perm http.headers →
      P ((entriesFor name order).foldl putValues []) := by
  constructor
  · intro hevery order hp
    obtain ⟨_, response, hbuilt⟩ := buildNormalResponse_built Except.ok none .empty 0 hhttp (by simp)
    obtain ⟨_, response', hbuilt', _⟩ := built_perm (List.Perm.refl _) hp hn hbuilt
    rw [← built_getAll hname hbuilt']
    exact hevery _ _ _ _ _ _ _ _ hp hbuilt'
  · intro hall _ _ _ _ _ order _ _ hp hbuilt
    rw [built_getAll hname hbuilt]
    exact hall order hp

lemma everyResponse_of_unanswerable {http : HttpResponseMeta} (hn : (http.headers.map Prod.fst).Nodup)
    (h : Unanswerable http) (name : Str) (P : List Http.HeaderValue → Prop) : EveryResponse http name P := by
  intro compressFull inferred body useBrotli requestId order logged response hp hbuilt
  obtain ⟨_, _, hbuilt', _⟩ := built_perm hp (List.Perm.refl _) hn hbuilt
  exact absurd h (answerable_of_built hbuilt')

lemma single_of_texts {v w : Response.HeaderValue} (hv : isSingle v = true) (hw : isSingle w = true)
    (h : texts [v] = texts [w]) (hne : texts [w] ≠ []) : v = w := by
  cases v with
  | multiple ss => cases hv
  | single s =>
    cases w with
    | multiple ts => cases hw
    | single t =>
      obtain ⟨value, hvalue⟩ : ∃ value, HeaderValue.fromStr t = some value := by
        by_contra hnone
        exact hne (by simp [texts, strings, Option.eq_none_iff_forall_ne_some.mpr (not_exists.mp hnone)])
      have ht : texts [.single t] = [value] := by simp [texts, strings, hvalue]
      have hs : HeaderValue.fromStr s = some value := by
        rw [ht] at h
        cases hs : HeaderValue.fromStr s with
        | none => simp [texts, strings, hs] at h
        | some value' => simpa [texts, strings, hs] using h
      rw [HeaderValue.fromStr_inj hs hvalue]

lemma putValues_eq_nil {values : List Http.HeaderValue} {v : Response.HeaderValue} (h : putValues values v = []) :
    texts [v] = [] := by
  cases hv : isSingle v with
  | true => rwa [putValues_single hv] at h
  | false =>
    rw [putValues_multiple hv] at h
    exact (List.append_eq_nil_iff.mp h).2

lemma agrees_of_putValues {values : List Http.HeaderValue} {own v : Response.HeaderValue}
    (hown : isSingle own = true → texts [own] ≠ []) (hlast : putValues (putValues values own) v = texts [own])
    (hfirst : putValues (putValues values v) own = texts [own]) :
    texts [v] = [] ∨ isSingle v = true ∧ v = own := by
  cases hv : isSingle v with
  | true =>
    rw [putValues_single hv] at hlast hfirst
    cases ho : isSingle own with
    | true => exact .inr ⟨rfl, single_of_texts hv ho hlast (hown ho)⟩
    | false =>
      rw [putValues_multiple ho] at hfirst
      exact .inl (List.append_left_eq_self.mp hfirst)
  | false =>
    rw [putValues_multiple hv] at hlast
    left
    cases ho : isSingle own with
    | true =>
      rw [putValues_single ho] at hlast
      exact List.append_right_eq_self.mp hlast
    | false =>
      rw [putValues_multiple ho, List.append_assoc] at hlast
      have hlength := congrArg List.length hlast
      simp only [List.length_append] at hlength
      exact List.eq_nil_of_length_eq_zero (by omega)

lemma mem_entriesFor {v : Response.HeaderValue} {order : Headers} :
    v ∈ entriesFor name order ↔ ∃ k, (k, v) ∈ order ∧ headerName k = some name := by
  simp [entriesFor]

lemma texts_of_forall_nil {entries : List Response.HeaderValue} (h : ∀ v ∈ entries, texts [v] = []) :
    texts entries = [] := by
  induction entries with
  | nil => rfl
  | cons v entries ih =>
    obtain ⟨hv, hrest⟩ := List.forall_mem_cons.mp h
    rw [← List.singleton_append, texts_append, hv, ih hrest]
    rfl

section
variable (hkey : headerName key = some name) (hn : (headers.map Prod.fst).Nodup)
  (hsingle : ∀ e ∈ headers, headerName e.1 = some name → isSingle e.2 = true → texts [e.2] ≠ [])
include hkey hn hsingle

lemma othersAgree_of_orders (h : ∀ order : Headers, order.Perm headers →
    (entriesFor name order).foldl putValues [] = texts (ownEntry headers key)) : OthersAgree headers name key := by
  intro e he hname hne
  cases hown : getHeader headers key with
  | none =>
    left
    obtain ⟨before, after, rfl⟩ := List.append_of_mem he
    have hput := h (before ++ (after ++ [e])) ((List.perm_append_singleton e after).append_left before)
    rw [entriesFor_append, entriesFor_append, entriesFor_cons_of_eq hname, List.foldl_append,
      List.foldl_append, ownEntry,
      hown] at hput
    exact putValues_eq_nil hput
  | some own =>
    have hmem : (key, own) ∈ headers := (lookup_eq_some_iff hn).mp hown
    obtain ⟨rest, hp⟩ := exists_perm_last hmem he (ne_of_apply_ne Prod.fst (Ne.symm hne))
    have hp' : (rest ++ [e, (key, own)]).Perm headers :=
      ((List.Perm.swap (key, own) e []).append_left rest).trans hp
    have hlast := h _ hp
    have hfirst := h _ hp'
    rw [entriesFor_append, entriesFor_cons_of_eq hkey, entriesFor_cons_of_eq hname, List.foldl_append, ownEntry,
      hown] at hlast
    rw [entriesFor_append, entriesFor_cons_of_eq hname, entriesFor_cons_of_eq hkey, List.foldl_append, ownEntry,
      hown] at hfirst
    rcases agrees_of_putValues (hsingle _ hmem hkey) hlast hfirst with hnil | ⟨hv, rfl⟩
    · exact .inl hnil
    · exact .inr ⟨hv, hmem⟩

lemma orders_of_othersAgree (h : OthersAgree headers name key) {order : Headers} (hp : order.Perm headers) :
    (entriesFor name order).foldl putValues [] = texts (ownEntry headers key) := by
  cases hown : getHeader headers key with
  | none =>
    have habsent : ∀ v, (key, v) ∉ headers := by
      intro v hv
      rw [getHeader, (lookup_eq_some_iff hn).mpr hv] at hown
      cases hown
    have hnil : ∀ v ∈ entriesFor name order, texts [v] = [] ∧ isSingle v = false := by
      intro v hv
      obtain ⟨k, hk, hname⟩ := mem_entriesFor.mp hv
      have hmem := hp.mem_iff.mp hk
      have htexts : texts [v] = [] :=
        (h _ hmem hname (fun he => habsent v (he ▸ hmem))).resolve_right (fun hboth => habsent v hboth.2)
      exact ⟨htexts, Bool.eq_false_iff.mpr (fun hv => hsingle _ hmem hname hv htexts)⟩
    rw [foldl_putValues_lists (fun v hv => (hnil v hv).2), texts_of_forall_nil (fun v hv => (hnil v hv).1),
      ownEntry, hown]
    rfl
  | some own =>
    have hmem : (key, own) ∈ headers := (lookup_eq_some_iff hn).mp hown
    obtain ⟨before, after, rfl⟩ := List.append_of_mem (hp.mem_iff.mpr hmem)
    have hdistinct := (hp.map Prod.fst).nodup_iff.mpr hn
    rw [List.map_append, List.map_cons] at hdistinct
    obtain ⟨hbefore, hafter⟩ : key ∉ before.map Prod.fst ∧ key ∉ after.map Prod.fst :=
      ⟨fun hk => (List.nodup_append.mp hdistinct).2.2 _ hk _ List.mem_cons_self rfl,
        (List.nodup_cons.mp (List.nodup_append.mp hdistinct).2.1).1⟩
    have hother : ∀ v, (∃ k, (k, v) ∈ before ++ after ∧ headerName k = some name) →
        texts [v] = [] ∧ isSingle v = false ∨ isSingle v = true ∧ v = own := by
      rintro v ⟨k, hk, hname⟩
      have hkv : (k, v) ∈ headers := by
        apply hp.mem_iff.mp
        rcases List.mem_append.mp hk with hk | hk
        · exact List.mem_append_left _ hk
        · exact List.mem_append_right _ (List.mem_cons_of_mem _ hk)
      have hne : k ≠ key := by
        rintro rfl
        rcases List.mem_append.mp hk with hk | hk
        · exact hbefore (List.mem_map_of_mem hk)
        · exact hafter (List.mem_map_of_mem hk)
      rcases h _ hkv hname hne with hnil | ⟨hv, hsame⟩
      · exact .inl ⟨hnil, Bool.eq_false_iff.mpr (fun hv => hsingle _ hkv hname hv hnil)⟩
      · exact .inr ⟨hv, congrArg Prod.snd (List.inj_on_of_nodup_map hn hsame hmem rfl)⟩
    have hbeforeOwn : putValues ((entriesFor name before).foldl putValues []) own = texts [own] := by
      cases ho : isSingle own with
      | true => exact putValues_single ho
      | false =>
        have hlists : ∀ v ∈ entriesFor name before, texts [v] = [] ∧ isSingle v = false := by
          intro v hv
          obtain ⟨k, hk, hname⟩ := mem_entriesFor.mp hv
          rcases hother v ⟨k, List.mem_append_left _ hk, hname⟩ with hnil | ⟨hv, rfl⟩
          · exact hnil
          · rw [hv] at ho
            cases ho
        rw [putValues_multiple ho, foldl_putValues_lists (fun v hv => (hlists v hv).2),
          texts_of_forall_nil (fun v hv => (hlists v hv).1)]
        rfl
    rw [entriesFor_middle hkey, List.foldl_append, List.foldl_cons, hbeforeOwn, ownEntry, hown]
    refine List.foldlRecOn (entriesFor name after) putValues (motive := fun values => values = texts [own]) rfl ?_
    rintro _ rfl v hv
    obtain ⟨k, hk, hname⟩ := mem_entriesFor.mp hv
    rcases hother v ⟨k, List.mem_append_right _ hk, hname⟩ with ⟨hnil, hlist⟩ | ⟨hv, rfl⟩
    · rw [putValues_multiple hlist, hnil, List.append_nil]
    · exact putValues_single hv

end

lemma single_ne_nil {http : HttpResponseMeta} (hcontent : name ≠ contentType) (hhttp : ¬ Unanswerable http) :
    ∀ e ∈ http.headers, headerName e.1 = some name → isSingle e.2 = true → texts [e.2] ≠ [] := by
  rintro ⟨k, v⟩ he hk hv hnil
  have hleft : isContentType k = false := by
    rw [← Bool.not_eq_true, isContentType_iff]
    exact fun h => hcontent (Option.some.inj (hk.symm.trans h))
  have hentry := not_not.mp (mt Or.inl hhttp) _ he hleft
  cases v with
  | multiple ss => cases hv
  | single s =>
    obtain ⟨value, hvalue⟩ := Option.isSome_iff_exists.mp hentry.2
    simp [texts, strings, hvalue] at hnil

lemma carriesLines_own_iff (hname : Unowned name) (hkey : headerName key = some name) {http : HttpResponseMeta}
    (hn : (http.headers.map Prod.fst).Nodup) (hhttp : ¬ Unanswerable http)
    (hvalid : ∀ s ∈ (ownEntry http.headers key).flatMap strings, (HeaderValue.fromStr s).isSome) :
    CarriesLines http name ((ownEntry http.headers key).flatMap strings) ↔ OthersAgree http.headers name key := by
  have hsingle := single_ne_nil hname.1 hhttp
  rw [CarriesLines, everyResponse_iff hname hn hhttp]
  constructor
  · exact fun h => othersAgree_of_orders hkey hn hsingle (fun order hp => (map_bytes_eq_iff.mp (h order hp)).2)
  · exact fun h order hp => map_bytes_eq_iff.mpr ⟨hvalid, orders_of_othersAgree hkey hn hsingle h hp⟩

lemma mem_map_bytes {values : List Http.HeaderValue} {s : Str} :
    utf8 s ∈ values.map HeaderValue.bytes ↔ ∃ value ∈ values, HeaderValue.fromStr s = some value := by
  simp only [List.mem_map, HeaderValue.bytes_eq_utf8_iff]

lemma arrives_iff (hname : Unowned name) (hkey : headerName key = some name) {http : HttpResponseMeta}
    (hn : (http.headers.map Prod.fst).Nodup) (hhttp : ¬ Unanswerable http) {ss : List Str} {s : Str}
    (hown : (key, .multiple ss) ∈ http.headers) (hs : s ∈ ss) :
    Arrives http name s ↔ (HeaderValue.fromStr s).isSome ∧
      ∀ e ∈ http.headers, headerName e.1 = some name → isSingle e.2 = true → e.2 = .single s := by
  simp only [Arrives, everyResponse_iff hname hn hhttp, mem_map_bytes]
  constructor
  · intro hall
    obtain ⟨value, _, hvalue⟩ := hall _ (List.Perm.refl _)
    refine ⟨by rw [hvalue]; rfl, ?_⟩
    rintro ⟨k, v⟩ he hk hv
    obtain ⟨before, after, hsplit⟩ := List.append_of_mem he
    have hlast : (before ++ (after ++ [(k, v)])).Perm http.headers :=
      hsplit ▸ (List.perm_append_singleton (k, v) after).append_left before
    obtain ⟨value', hmem, hvalue'⟩ := hall _ hlast
    rw [entriesFor_append, entriesFor_append, entriesFor_cons_of_eq hk, List.foldl_append,
      List.foldl_append] at hmem
    cases v with
    | multiple ts => cases hv
    | single t => rw [HeaderValue.fromStr_inj hvalue' (Option.mem_toList.mp hmem)]
  · rintro ⟨hvalid, hsingles⟩ order hp
    obtain ⟨value, hvalue⟩ := Option.isSome_iff_exists.mp hvalid
    obtain ⟨before, after, rfl⟩ := List.append_of_mem (hp.mem_iff.mpr hown)
    refine ⟨value, ?_, hvalue⟩
    rw [entriesFor_middle hkey, List.foldl_append, List.foldl_cons]
    refine List.foldlRecOn (entriesFor name after) putValues (motive := fun values => value ∈ values) ?_ ?_
    · exact List.mem_append_right _ (List.mem_filterMap.mpr ⟨s, hs, hvalue⟩)
    · intro values hmem v hv
      obtain ⟨k, hk, hname⟩ := mem_entriesFor.mp hv
      have he : (k, v) ∈ http.headers := hp.mem_iff.mp (List.mem_append_right _ (List.mem_cons_of_mem _ hk))
      cases v with
      | multiple ts => exact List.mem_append_left _ hmem
      | single t =>
        obtain rfl : t = s := Response.HeaderValue.single.inj (hsingles _ he hname rfl)
        exact Option.mem_toList.mpr hvalue

end HttpNu.Handler
