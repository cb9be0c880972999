import HttpNu.Stdlib.CookieSet

/-! What a reader of a `Set-Cookie` header finds in it, and whether it reaches the response. -/

namespace HttpNu.Stdlib.CookieSet

open Text Library Http Response Handler

structure Cookie where
  name : Str
  value : Str
  attributes : List (Str × Option Str)

def cut (s : Str) : Str × Option Str :=
  (s.takeWhile (· ≠ '='), if s.contains '=' then some (s.dropWhile (· ≠ '=')).tail else none)

def dropSpace : Str → Str
  | ' ' :: rest => rest
  | s => s

def parseSetCookie (header : Str) : Option Cookie :=
  match header.splitOn ';' with
  | [] => none
  | pair :: rest => (cut pair).2.map (fun value => ⟨(cut pair).1, value, rest.map (fun a => cut (dropSpace a))⟩)

def asked (dev : Bool) (name value : Str) (flags : SetFlags) : Cookie where
  name := name
  value := value
  attributes :=
    [("Path".toList, some flags.path)] ++ (if flags.noHttponly then [] else [("HttpOnly".toList, none)]) ++
      (if dev || flags.noSecure then [] else [("Secure".toList, none)]) ++
        [("SameSite".toList, some flags.sameSite)] ++
      (flags.maxAge.map (fun maxAge => ("Max-Age".toList, some (toString maxAge).toList))).toList ++
      (flags.domain.map (fun domain => ("Domain".toList, some domain))).toList

def attributeText (a : Str × Option Str) : Str := a.1 ++ a.2.elim [] ('=' :: ·)

def Cookie.text (c : Cookie) : Str :=
  [';'].intercalate ((c.name ++ '=' :: c.value) :: c.attributes.map (fun a => ' ' :: attributeText a))

structure Cookie.Plain (c : Cookie) : Prop where
  name : '=' ∉ c.name ∧ ';' ∉ c.name
  value : ';' ∉ c.value
  attributes : ∀ a ∈ c.attributes, '=' ∉ a.1 ∧ ';' ∉ a.1 ∧ ∀ v ∈ a.2, ';' ∉ v

lemma cut_attributeText {a : Str × Option Str} (h : '=' ∉ a.1) : cut (attributeText a) = a := by
  obtain ⟨name, v⟩ := a
  have hfront : ∀ c ∈ name, decide (c ≠ '=') = true := by
    intro c hc
    simpa using fun he : c = '=' => h (he ▸ hc)
  cases v with
  | none =>
    have htext : attributeText (name, none) = name := List.append_nil name
    rw [cut, htext, if_neg (by simpa using h), List.takeWhile_eq_self_iff.mpr hfront]
  | some v =>
    rw [cut, attributeText, Option.elim_some, if_pos (by simp), List.takeWhile_append_of_pos hfront,
      List.dropWhile_append_of_pos hfront]
    simp

lemma notMem_cut {c : Char} {s : Str} (h : c ∉ s) : c ∉ (cut s).1 ∧ ∀ v ∈ (cut s).2, c ∉ v := by
  refine ⟨fun hc => h ((List.takeWhile_prefix _).subset hc), fun v hv hc => h ?_⟩
  rw [cut] at hv
  split at hv
  · obtain rfl := Option.some.inj hv
    exact (List.dropWhile_suffix _).subset (List.mem_of_mem_tail hc)
  · cases hv

lemma notMem_cut_name (s : Str) : '=' ∉ (cut s).1 := by
  intro hc
  simpa using List.mem_takeWhile_imp hc

lemma notMem_dropSpace {c : Char} {s : Str} (h : c ∉ s) : c ∉ dropSpace s := by
  unfold dropSpace
  split
  · exact fun hc => h (List.mem_cons_of_mem _ hc)
  · exact h

lemma intercalate_space (first : Str) (rest : List Str) :
    [';', ' '].intercalate (first :: rest) = [';'].intercalate (first :: rest.map (' ' :: ·)) := by
  induction rest generalizing first with
  | nil => rfl
  | cons next rest ih =>
    rw [List.map_cons, List.intercalate_cons_cons, List.intercalate_cons_cons, ih]
    cases rest with
    | nil => simp [List.intercalate_singleton]
    | cons after rest =>
      rw [List.map_cons, List.intercalate_cons_cons, List.intercalate_cons_cons]
      simp

lemma compactJoin_cons (first : Str) (rest : List (Option Str)) :
    compactJoin (some first :: rest) = [';'].intercalate (first :: rest.reduceOption.map (' ' :: ·)) :=
  intercalate_space first rest.reduceOption

lemma setHeader_eq (dev : Bool) (name value : Str) (flags : SetFlags) :
    setHeader dev name value flags = (asked dev name value flags).text := by
  obtain ⟨maxAge, path, domain, noHttponly, noSecure, sameSite⟩ := flags
  have hpair : name ++ "=".toList ++ value = name ++ '=' :: value := by simp
  rw [setHeader, compactJoin_cons, Cookie.text, hpair]
  cases noHttponly <;> cases dev <;> cases noSecure <;> cases maxAge <;> cases domain <;> rfl

lemma parseSetCookie_text_iff (c : Cookie) : parseSetCookie c.text = some c ↔ c.Plain := by
  constructor
  · intro hparse
    rw [parseSetCookie] at hparse
    cases hpieces : c.text.splitOn ';' with
    | nil => rw [hpieces] at hparse; cases hparse
    | cons pair rest =>
      rw [hpieces] at hparse
      have hpiece : ∀ piece ∈ pair :: rest, ';' ∉ piece :=
        fun piece hmem => not_mem_of_mem_splitOn (hpieces ▸ hmem)
      obtain ⟨hpair, hrest⟩ := List.forall_mem_cons.mp hpiece
      obtain ⟨value, hvalue, rfl⟩ := Option.map_eq_some_iff.mp hparse
      refine ⟨⟨notMem_cut_name pair, (notMem_cut hpair).1⟩, (notMem_cut hpair).2 value hvalue, ?_⟩
      intro a ha
      obtain ⟨piece, hmem, rfl⟩ := List.mem_map.mp ha
      exact ⟨notMem_cut_name _, notMem_cut (notMem_dropSpace (hrest piece hmem))⟩
  · rintro ⟨⟨heq, hname⟩, hvalue, hattributes⟩
    have hpieces : ∀ piece ∈ (c.name ++ '=' :: c.value) :: c.attributes.map (fun a => ' ' :: attributeText a),
        ';' ∉ piece := by
      refine List.forall_mem_cons.mpr ⟨by simp [hname, hvalue], fun piece hmem => ?_⟩
      obtain ⟨a, ha, rfl⟩ := List.mem_map.mp hmem
      obtain ⟨-, ha₁, ha₂⟩ := hattributes a ha
      obtain ⟨aname, v⟩ := a
      cases v with
      | none => simpa [attributeText] using ha₁
      | some v => simpa [attributeText, ha₁] using ha₂ v rfl
    have hpair : cut (c.name ++ '=' :: c.value) = (c.name, some c.value) :=
      cut_attributeText (a := (c.name, some c.value)) heq
    have hrest : (c.attributes.map (fun a => ' ' :: attributeText a)).map (fun a => cut (dropSpace a)) =
      c.attributes := by
      rw [List.map_map]
      exact (List.map_congr_left (fun a ha => cut_attributeText (hattributes a ha).1)).trans (List.map_id _)
    rw [parseSetCookie, Cookie.text, List.splitOn_intercalate ';' hpieces (by simp)]
    simp only [hpair, hrest, Option.map_some]

structure Undelimited (name value : Str) (flags : SetFlags) : Prop where
  name : '=' ∉ name ∧ ';' ∉ name
  value : ';' ∉ value
  path : ';' ∉ flags.path
  sameSite : ';' ∉ flags.sameSite
  domain : ∀ domain ∈ flags.domain, ';' ∉ domain

def HeaderText (name value : Str) (flags : SetFlags) : Prop :=
  ∀ s ∈ [name, value, flags.path, flags.sameSite] ++ flags.domain.toList, (HeaderValue.fromStr s).isSome

lemma chars_of_int (n : Int) : ∀ c ∈ (toString n).toList, c.isDigit = true ∨ c = '-' := by
  have hnat : ∀ (n : Nat), ∀ c ∈ (toString n).toList, c.isDigit = true := by
    intro n c hc
    rw [Nat.toString_eq_repr, Nat.toList_repr] at hc
    exact Nat.isDigit_of_mem_toDigits (by decide) (by decide) hc
  intro c hc
  cases n with
  | ofNat n => exact .inl (hnat n c hc)
  | negSucc n =>
    have htext : (toString (Int.negSucc n)).toList = '-' :: (toString (n + 1)).toList := by
      simp [toString, Int.repr]
    rcases List.mem_cons.mp (htext ▸ hc) with rfl | hc
    · exact .inr rfl
    · exact .inl (hnat _ c hc)

lemma forall_asked_attributes (dev : Bool) (name value : Str) (flags : SetFlags) {P Q : Str → Prop}
    (hpath : P "Path".toList) (hhttp : P "HttpOnly".toList) (hsecure : P "Secure".toList)
    (hsite : P "SameSite".toList)
    (hmax : P "Max-Age".toList) (hdomain : P "Domain".toList) (hage : ∀ n : Int, Q (toString n).toList) :
    (∀ a ∈ (asked dev name value flags).attributes, P a.1 ∧ ∀ v ∈ a.2, Q v) ↔
      ∀ v ∈ [flags.path, flags.sameSite] ++ flags.domain.toList, Q v := by
  have hflag : ∀ {absent : Bool} {key : Str}, P key →
      ∀ a ∈ (if absent = true then [] else [(key, none)] : List (Str × Option Str)), P a.1 ∧ ∀ v ∈ a.2, Q v := by
    intro absent key hkey
    cases absent with
    | true => exact nofun
    | false => exact List.forall_mem_singleton.mpr ⟨hkey, nofun⟩
  have hlifetime : ∀ a ∈ (flags.maxAge.map (fun n => ("Max-Age".toList, some (toString n).toList))).toList,
      P a.1 ∧ ∀ v ∈ a.2, Q v := by
    cases flags.maxAge with
    | none => exact nofun
    | some n => exact List.forall_mem_singleton.mpr ⟨hmax, fun v hv => Option.some.inj hv ▸ hage n⟩
  have hdomains : (∀ a ∈ (flags.domain.map (fun domain => ("Domain".toList, some domain))).toList,
      P a.1 ∧ ∀ v ∈ a.2, Q v) ↔ ∀ v ∈ flags.domain.toList, Q v := by
    cases flags.domain with
    | none => exact ⟨nofun, nofun⟩
    | some domain =>
      constructor
      · intro h v hv
        exact (h _ List.mem_cons_self).2 v (List.mem_singleton.mp hv ▸ rfl)
      · intro h
        exact List.forall_mem_singleton.mpr ⟨hdomain, fun v hv => Option.some.inj hv ▸ h domain List.mem_cons_self⟩
  have htext : ∀ {key text : Str}, P key → ((P key ∧ ∀ v ∈ some text, Q v) ↔ Q text) := by
    intro key text hkey
    simp [hkey]
  rw [asked]
  simp only [List.forall_mem_append, List.forall_mem_singleton, List.forall_mem_cons, hdomains,
    htext hpath, htext hsite,
    and_iff_left (hflag hhttp), and_iff_left (hflag hsecure), and_iff_left hlifetime]

lemma asked_plain_iff (dev : Bool) (name value : Str) (flags : SetFlags) :
    (asked dev name value flags).Plain ↔ Undelimited name value flags := by
  have hage : ∀ n : Int, ';' ∉ (toString n).toList := by
    intro n hc
    rcases chars_of_int n ';' hc with hdigit | heq
    · exact absurd hdigit (by decide)
    · exact absurd heq (by decide)
  have hattributes := forall_asked_attributes dev name value flags (P := fun s => '=' ∉ s ∧ ';' ∉ s)
    (Q := fun v => ';' ∉ v) (by decide) (by decide) (by decide) (by decide) (by decide) (by decide) hage
  simp only [and_assoc] at hattributes
  constructor
  · rintro ⟨hname, hvalue, hall⟩
    have htexts := hattributes.mp hall
    exact ⟨hname, hvalue, htexts flags.path (by simp), htexts flags.sameSite (by simp),
      fun domain hdomain => htexts domain (by simp [Option.mem_def.mp hdomain])⟩
  · rintro ⟨hname, hvalue, hpath, hsite, hdomain⟩
    refine ⟨hname, hvalue, hattributes.mpr (fun v hv => ?_)⟩
    rcases List.mem_append.mp hv with hv | hv
    · rcases List.mem_pair.mp hv with rfl | rfl
      · exact hpath
      · exact hsite
    · exact hdomain v (Option.mem_toList.mp hv)

lemma isSome_fromStr_iff {s : Str} :
    (HeaderValue.fromStr s).isSome ↔ ∀ c ∈ s, (String.utf8EncodeChar c).all isHeaderByte = true := by
  rw [HeaderValue.fromStr, utf8, ← List.all_eq_true, ← List.all_flatMap]
  split <;> simp_all

lemma forall_mem_intercalate {P : Char → Prop} {sep : Str} (hsep : ∀ c ∈ sep, P c) (ls : List Str) :
    (∀ c ∈ sep.intercalate ls, P c) ↔ ∀ l ∈ ls, ∀ c ∈ l, P c := by
  induction ls with
  | nil => simp
  | cons l ls ih =>
    cases ls with
    | nil => simp [List.intercalate_singleton]
    | cons next ls =>
      rw [List.intercalate_cons_cons, List.forall_mem_append, List.forall_mem_append, ih, List.forall_mem_cons,
        List.forall_mem_cons (l := next :: ls), List.forall_mem_cons]
      simp only [and_iff_left hsep]

lemma forall_mem_text {P : Char → Prop} (hsemicolon : P ';') (hspace : P ' ') (hequals : P '=') (c : Cookie) :
    (∀ ch ∈ c.text, P ch) ↔ (∀ ch ∈ c.name, P ch) ∧ (∀ ch ∈ c.value, P ch) ∧
      ∀ a ∈ c.attributes, (∀ ch ∈ a.1, P ch) ∧ ∀ v ∈ a.2, ∀ ch ∈ v, P ch := by
  have hattribute : ∀ a : Str × Option Str, (∀ ch ∈ ' ' :: attributeText a, P ch) ↔
      (∀ ch ∈ a.1, P ch) ∧ ∀ v ∈ a.2, ∀ ch ∈ v, P ch := by
    rintro ⟨name, v⟩
    rw [List.forall_mem_cons, and_iff_right hspace, attributeText, List.forall_mem_append]
    cases v with
    | none => simp
    | some v => simp [hequals]
  rw [Cookie.text, forall_mem_intercalate (List.forall_mem_singleton.mpr hsemicolon), List.forall_mem_cons,
    List.forall_mem_append, List.forall_mem_cons, List.forall_mem_map, and_assoc, and_iff_right hequals]
  simp only [hattribute]

lemma fromStr_setHeader_iff (dev : Bool) (name value : Str) (flags : SetFlags) :
    (HeaderValue.fromStr (setHeader dev name value flags)).isSome ↔ HeaderText name value flags := by
  have hage : ∀ n : Int, ∀ c ∈ (toString n).toList, (String.utf8EncodeChar c).all isHeaderByte = true := by
    intro n c hc
    rcases chars_of_int n c hc with hdigit | rfl
    · exact isHeaderByte_of_isDigit hdigit
    · decide
  have hattributes := forall_asked_attributes dev name value flags
    (P := fun s => ∀ c ∈ s, (String.utf8EncodeChar c).all isHeaderByte = true)
    (Q := fun s => ∀ c ∈ s, (String.utf8EncodeChar c).all isHeaderByte = true) (List.all_eq_true.mp rfl)
    (List.all_eq_true.mp rfl) (List.all_eq_true.mp rfl) (List.all_eq_true.mp rfl) (List.all_eq_true.mp rfl)
    (List.all_eq_true.mp rfl) hage
  rw [isSome_fromStr_iff, setHeader_eq, forall_mem_text (by decide) (by decide) (by decide),
    hattributes, HeaderText]
  simp only [isSome_fromStr_iff, List.cons_append, List.nil_append, List.forall_mem_cons]
  rfl

/-- Unless the call fails: a reader of the header finds what was asked for, and the header reaches the response. -/
def CookieSafe (dev : Bool) (name value : Str) (flags : SetFlags) (later : List CookieCall)
    (metadata : Option Metadata) :
    Prop :=
  ∀ metadata', runCalls dev (.set name value flags :: later) metadata = some metadata' →
    parseSetCookie (setHeader dev name value flags) = some (asked dev name value flags) ∧
      Arrives (extractHttpResponseMeta metadata') setCookie (setHeader dev name value flags)

def withoutCookies (http : HttpResponseMeta) : HttpResponseMeta :=
  { http with headers := http.headers.filter (fun e => e.1 ≠ cookieKey) }

lemma getHeader_withoutCookies (http : HttpResponseMeta) {k : Str} (hk : k ≠ cookieKey) :
    getHeader (withoutCookies http).headers k = getHeader http.headers k := by
  rw [getHeader, getHeader, withoutCookies, List.find?_filter]
  congr 2
  funext e
  by_cases he : e.1 = k
  · simp [he, hk]
  · simp [he]

section
variable {metadata metadata' : Option Metadata} {resp headers resp' headers' : Record}
    {cookies cookies' vals : List Value}

lemma multiple_mem_headersOf (hn : headers'.columns.Nodup) (hlist : headers'.get cookieKey = some (.list vals))
    {v : Response.HeaderValue} :
    (cookieKey, v) ∈ headersOf headers' ↔ v = .multiple (vals.filterMap Value.asStr) := by
  rw [← lookup_eq_some_iff (headersOf_nodup _), ← getHeader, getHeader_headersOf hn, hlist,
    Option.bind_some, headerEntry,
    Option.some_inj, eq_comm]

lemma unanswerable_after_call (h : Reads (metadataRecord metadata) resp headers cookies)
    (h' : Reads (metadataRecord metadata') resp' headers' cookies')
    (hsame : Accumulated (metadataRecord metadata) (metadataRecord metadata') resp resp' headers headers')
    (hlist : headers'.get cookieKey = some (.list vals)) :
    Unanswerable (extractHttpResponseMeta metadata') ↔
      Unanswerable (withoutCookies (extractHttpResponseMeta metadata)) := by
  have hstatus : resp'.get "status".toList = resp.get "status".toList := hsame.response _ (by decide)
  have hn : ((extractHttpResponseMeta metadata).headers.map Prod.fst).Nodup := by
    rw [extract_of_reads h]
    exact headersOf_nodup _
  have hn' : ((extractHttpResponseMeta metadata').headers.map Prod.fst).Nodup := by
    rw [extract_of_reads h']
    exact headersOf_nodup _
  have hwithout : ((withoutCookies (extractHttpResponseMeta metadata)).headers.map Prod.fst).Nodup :=
    hn.sublist (List.filter_sublist.map Prod.fst)
  have hget : ∀ k, k ≠ cookieKey → getHeader (extractHttpResponseMeta metadata').headers k =
      getHeader (withoutCookies (extractHttpResponseMeta metadata)).headers k := by
    intro k hk
    rw [getHeader_withoutCookies _ hk, extract_of_reads h, extract_of_reads h']
    exact getHeader_of_sameBut h.headersDistinct h'.headersDistinct hsame.headers hk
  have hstatus' : (extractHttpResponseMeta metadata').status =
    (withoutCookies (extractHttpResponseMeta metadata)).status := by
    rw [withoutCookies, extract_of_reads h, extract_of_reads h', hstatus]
  constructor
  · refine unanswerable_of_sameBut hwithout hn' hstatus' hget (fun v hv _ => ?_)
    rw [extract_of_reads h', multiple_mem_headersOf h'.headersDistinct hlist] at hv
    subst hv
    have hname : (headerName cookieKey).isSome := by decide
    exact ⟨hname, trivial⟩
  · refine unanswerable_of_sameBut hn' hwithout hstatus'.symm (fun k hk => (hget k hk).symm) (fun v hv => ?_)
    exact absurd rfl (of_decide_eq_true (List.mem_filter.mp hv).2)

end

theorem cookieSafe_iff (dev : Bool) (name value : Str) (flags : SetFlags) (later : List CookieCall)
    (metadata : Option Metadata) (resp headers : Record) (cookies : List Value)
    (h : Reads (metadataRecord metadata) resp headers cookies) :
    CookieSafe dev name value flags later metadata ↔
      Undelimited name value flags ∧
        (Unanswerable (withoutCookies (extractHttpResponseMeta metadata)) ∨
          HeaderText name value flags ∧
            ∀ e ∈ (extractHttpResponseMeta metadata).headers, headerName e.1 = some setCookie → e.1 ≠ cookieKey →
              isSingle e.2 = true → e.2 = .single (asked dev name value flags).text) := by
  obtain ⟨metadata', resp', headers', hrun, hreads, hsame, -, hsome⟩ :=
    runCalls_reads h dev (.set name value flags :: later)
  have hlist := hsome (List.cons_ne_nil _ _)
  have hsafe : CookieSafe dev name value flags later metadata ↔
      parseSetCookie (setHeader dev name value flags) = some (asked dev name value flags) ∧
        Arrives (extractHttpResponseMeta metadata') setCookie (setHeader dev name value flags) := by
    refine ⟨fun hall => hall metadata' hrun, fun hboth metadata'' hrun' => ?_⟩
    obtain rfl := Option.some.inj (hrun.symm.trans hrun')
    exact hboth
  rw [hsafe, ← fromStr_setHeader_iff dev, setHeader_eq, parseSetCookie_text_iff, asked_plain_iff,
    ← unanswerable_after_call h hreads hsame hlist]
  refine and_congr_right (fun _ => ?_)
  by_cases hanswers : Unanswerable (extractHttpResponseMeta metadata')
  · refine iff_of_true (everyResponse_of_unanswerable ?_ hanswers _ _) (.inl hanswers)
    rw [extract_of_reads hreads]
    exact headersOf_nodup _
  · rw [or_iff_right hanswers]
    rw [extract_of_reads hreads] at hanswers ⊢
    have hown := (multiple_mem_headersOf hreads.headersDistinct hlist).mpr rfl
    have hheader : (asked dev name value flags).text ∈
        (cookies ++ (CookieCall.set name value flags :: later).map
          (fun call => Value.string (call.header dev))).filterMap
          Value.asStr := by
      rw [← setHeader_eq]
      exact List.mem_filterMap.mpr ⟨_, List.mem_append_right _ List.mem_cons_self, rfl⟩
    rw [arrives_iff unowned_setCookie (by decide) (headersOf_nodup _) hanswers hown hheader]
    refine and_congr_right (fun _ => ?_)
    rw [extract_of_reads h]
    have hmem : ∀ e : Str × Response.HeaderValue, e.1 ≠ cookieKey →
      (e ∈ headersOf headers' ↔ e ∈ headersOf headers) :=
      fun e he => mem_headersOf_of_sameBut h.headersDistinct hreads.headersDistinct hsame.headers he
    constructor
    · exact fun hall e he hname hne hsingle => hall e ((hmem e hne).mpr he) hname hsingle
    · intro hall e he hname hsingle
      by_cases hne : e.1 = cookieKey
      · obtain ⟨k, v⟩ := e
        obtain rfl : k = cookieKey := hne
        obtain rfl := (multiple_mem_headersOf hreads.headersDistinct hlist).mp he
        cases hsingle
      · exact hall e ((hmem e hne).mp he) hname hne hsingle

theorem cookieSafe_session : CookieSafe false "session".toList "abc=1".toList {} [] none := by
  have hreads : Reads (metadataRecord none) [] [] [] :=
    ⟨List.nodup_nil, nofun, rfl, List.nodup_nil, rfl, List.nodup_nil, rfl⟩
  refine (cookieSafe_iff false _ _ _ _ none [] [] [] hreads).mpr ⟨?_, .inr ⟨?_, nofun⟩⟩
  · exact ⟨by decide, by decide, by decide, by decide, nofun⟩
  · simp only [HeaderText, isSome_fromStr_iff, ← List.all_eq_true]
    decide

/-- The value brings a domain with it, and text with a line break is left out of the response. -/
theorem cookieSafe_injected : ¬ CookieSafe false "a".toList "1; Domain=evil.com".toList {} [] none ∧
    ∀ metadata', runCalls false [.set "a".toList "1\n2".toList {}] none = some metadata' →
      ∃ logged response, buildNormalResponse Except.ok (none, extractHttpResponseMeta metadata', .empty) false 0 =
        (logged, .ok response) ∧ response.headers.getAll setCookie = [] := by
  constructor
  · intro hsafe
    obtain ⟨hparse, -⟩ := hsafe _ rfl
    exact absurd (congrArg (Option.map Cookie.value) hparse) (by decide)
  · intro metadata' hrun
    obtain rfl := Option.some.inj hrun
    exact ⟨_, _, rfl, by decide⟩

end HttpNu.Stdlib.CookieSet
