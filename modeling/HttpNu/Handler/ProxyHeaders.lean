import HttpNu.Handler.HeaderOrder
import HttpNu.Handler.ProxyUpload

/-! The headers of the request that `.reverse-proxy` sends: the client's own, the length of the body, the
configured ones, and the host. -/

namespace HttpNu.Handler

open Text Library Http Response
open Commands.ReverseProxy (parseConfig)

variable {Net : Type} {W : World Net}

/-- What is configured for a header under any spelling of its name, as the map is iterated. -/
def entriesFor (name : Str) (headers : Headers) : List Response.HeaderValue :=
  (headers.filter (fun e => headerName e.1 = some name)).map Prod.snd

def lengthText (body : Bytes) : Str := (toString body.length).toList

def ownValues (parts : Parts) (body : Bytes) (name : Str) : List Http.HeaderValue :=
  if name = contentLength ∧ (body ≠ [] ∨ parts.headers.containsKey contentLength) then
    (HeaderValue.fromStr (lengthText body)).toList
  else parts.headers.getAll name

/-- The authority that is put for the host in the end. -/
def forcedHost (W : World Net) (targetUrl : Str) (preserveHost : Bool) (name : Str) : Option Str :=
  if name = host ∧ preserveHost = false then (W.parseUri targetUrl).toOption.bind Uri.authority else none

lemma putHeaders_getAll {headers : Headers} {m m' : HeaderMap} (h : addCustomHeaders headers m = .ok m')
    (name : Str) :
    m'.getAll name = (entriesFor name headers).foldl putValues (m.getAll name) := by
  induction headers generalizing m with
  | nil =>
    obtain rfl := Except.ok.inj h
    rfl
  | cons e rest ih =>
    obtain ⟨k, v⟩ := e
    rw [addCustomHeaders, putHeaders, if_neg (by simp)] at h
    obtain ⟨name', hname, h⟩ := except_bind_ok h
    obtain ⟨m₁, hput, h⟩ := except_bind_ok h
    have hk := parseHeaderName_ok hname
    rw [ih h, putHeader_getAll hput name]
    by_cases he : name' = name
    · rw [if_pos he, entriesFor, entriesFor, List.filter_cons_of_pos (by simpa [he] using hk)]
      rfl
    · rw [if_neg he, entriesFor, entriesFor, List.filter_cons_of_neg (by simp [hk, he])]

lemma withLength_getAll {body : Bytes} {parts : Parts} {m : HeaderMap} (h : withLength body parts.headers = .ok m)
    (name : Str) : m.getAll name = ownValues parts body name := by
  rw [withLength] at h
  rw [ownValues]
  split at h
  · rename_i hlength
    obtain ⟨value, hvalue, h⟩ := except_bind_ok h
    obtain rfl := Except.ok.inj h
    by_cases hname : name = contentLength
    · rw [if_pos ⟨hname, hlength⟩, lengthText, parseHeaderValue_ok hvalue, hname, MultiMap.getAll_insert_self]
      rfl
    · rw [if_neg (fun h => hname h.1), MultiMap.getAll_insert_ne _ hname]
  · rename_i hlength
    obtain rfl := Except.ok.inj h
    rw [if_neg (fun h => hlength h.2)]

lemma withHost_getAll {targetUrl : Str} {preserveHost : Bool} {m m' : HeaderMap}
    (h : withHost W targetUrl preserveHost m = .ok m') (name : Str) :
    m'.getAll name = (forcedHost W targetUrl preserveHost name).elim (m.getAll name)
      (fun authority => (HeaderValue.fromStr authority).toList) := by
  rw [withHost] at h
  rw [forcedHost]
  cases preserveHost with
  | true =>
    obtain rfl := Except.ok.inj h
    simp
  | false =>
    simp only [Bool.false_eq_true, if_false, and_true] at h ⊢
    cases hauthority : (W.parseUri targetUrl).toOption.bind Uri.authority with
    | none =>
      rw [hauthority] at h
      obtain rfl := Except.ok.inj h
      simp
    | some authority =>
      rw [hauthority] at h
      obtain ⟨value, hvalue, h⟩ := except_bind_ok h
      obtain rfl := Except.ok.inj h
      by_cases hname : name = host
      · rw [if_pos hname, hname, MultiMap.getAll_insert_self, Option.elim_some, parseHeaderValue_ok hvalue]
        rfl
      · rw [if_neg hname, MultiMap.getAll_insert_ne _ hname, Option.elim_none]

lemma proxyRequest_getAll {parts : Parts} {targetUrl : Str} {headers : Headers} {preserveHost : Bool}
    {stripped : Option Str} {body : Bytes} {query : Option (List (Str × Str))} {built : ProxyRequest}
    (h : proxyRequest W parts targetUrl headers preserveHost stripped body query = .ok built) (name : Str) :
    built.headers.getAll name = (forcedHost W targetUrl preserveHost name).elim
      ((entriesFor name headers).foldl putValues (ownValues parts body name))
      (fun authority => (HeaderValue.fromStr authority).toList) := by
  rw [proxyRequest] at h
  obtain ⟨uri, _, h⟩ := except_bind_ok h
  obtain ⟨m, hlength, h⟩ := except_bind_ok h
  obtain ⟨m₁, hcustom, h⟩ := except_bind_ok h
  obtain ⟨m₂, hhost, h⟩ := except_bind_ok h
  obtain rfl := Except.ok.inj h
  rw [withHost_getAll hhost, putHeaders_getAll hcustom, withLength_getAll hlength]

/-- The texts that are configured for a header; the setting that forces the host is one for it. -/
def configured (W : World Net) (targetUrl : Str) (preserveHost : Bool) (headers : Headers) (name : Str) :
    List Str :=
  (forcedHost W targetUrl preserveHost name).elim ((entriesFor name headers).flatMap strings)
    (fun authority => [authority])

def Receives (built : ProxyRequest) (name : Str) (texts : List Str) : Prop :=
  (built.headers.getAll name).map HeaderValue.bytes = texts.map utf8

/-- Two entries for one header say the same in both orders, and beside one that has a single text the other has
none. -/
structure Agreeing (v w : Response.HeaderValue) : Prop where
  comm : strings v ++ strings w = strings w ++ strings v
  left : ∀ s, strings v = [s] → strings w = []
  right : ∀ s, strings w = [s] → strings v = []

/-- Every text is valid, some string replaces what was there before, and the order of the entries is of no
account. -/
structure Settled (own : List Http.HeaderValue) (entries : List Response.HeaderValue) : Prop where
  valid : ∀ v ∈ entries, ∀ s ∈ strings v, (HeaderValue.fromStr s).isSome
  alone : own = [] ∨ ∃ v ∈ entries, isSingle v = true
  agree : entries.Pairwise Agreeing

/-- In this order of the entries, none has a text before a string or a list of one. -/
structure SettledInOrder (own : List Http.HeaderValue) (entries : List Response.HeaderValue) : Prop where
  valid : ∀ v ∈ entries, ∀ s ∈ strings v, (HeaderValue.fromStr s).isSome
  alone : own = [] ∨ ∃ v ∈ entries, isSingle v = true
  first : ∀ before v after s, entries = before ++ v :: after → strings v = [s] → before.flatMap strings = []

example : ¬ Agreeing (.multiple ["1".toList, "2".toList]) (.multiple ["3".toList, "4".toList]) :=
  fun h => absurd h.comm (by decide)

lemma Agreeing.symm {v w : Response.HeaderValue} (h : Agreeing v w) : Agreeing w v :=
  ⟨h.comm.symm, h.right, h.left⟩

section
variable {own : List Http.HeaderValue} {entries order order' : List Response.HeaderValue}

lemma Settled.perm (h : Settled own entries) (hp : order.Perm entries) : Settled own order where
  valid v hv := h.valid v (hp.mem_iff.mp hv)
  alone := h.alone.imp_right (fun ⟨v, hv, hsingle⟩ => ⟨v, hp.mem_iff.mpr hv, hsingle⟩)
  agree := (hp.pairwise_iff Agreeing.symm).mpr h.agree

lemma Settled.inOrder (h : Settled own entries) : SettledInOrder own entries where
  valid := h.valid
  alone := h.alone
  first := by
    rintro before v after s rfl hs
    refine List.flatMap_eq_nil_iff.mpr (fun w hw => ?_)
    exact ((List.pairwise_append.mp h.agree).2.2 w hw v List.mem_cons_self).right s hs

lemma Settled.flatMap_eq (h : Settled own entries) (hp : order.Perm entries) :
    order.flatMap strings = entries.flatMap strings := by
  have hcomm : ∀ v ∈ order, ∀ w ∈ order, strings v ++ strings w = strings w ++ strings v := by
    have hsymm : Std.Symm (fun v w => strings v ++ strings w = strings w ++ strings v) := ⟨fun _ _ h => h.symm⟩
    exact ((h.perm hp).agree.imp Agreeing.comm).forall_of_forall (fun _ _ => rfl)
  have hfold : ∀ (l : List Response.HeaderValue) (acc : List Str),
      l.foldl (fun acc v => acc ++ strings v) acc = acc ++ l.flatMap strings := by
    intro l
    induction l with
    | nil => simp
    | cons v l ih => simp [ih]
  have hsame := hp.foldl_eq' (f := fun acc v => acc ++ strings v)
    (fun v hv w hw acc => by rw [List.append_assoc, hcomm v hv w hw, List.append_assoc]) []
  simpa only [hfold, List.nil_append] using hsame

end

def texts (entries : List Response.HeaderValue) : List Http.HeaderValue :=
  (entries.flatMap strings).filterMap HeaderValue.fromStr

lemma map_bytes_eq_iff {values : List Http.HeaderValue} {ss : List Str} :
    values.map HeaderValue.bytes = ss.map utf8 ↔
      (∀ s ∈ ss, (HeaderValue.fromStr s).isSome) ∧ values = ss.filterMap HeaderValue.fromStr := by
  induction ss generalizing values with
  | nil => simp
  | cons s ss ih =>
    cases values with
    | nil =>
      refine iff_of_false (by simp) ?_
      rintro ⟨hvalid, hvalues⟩
      obtain ⟨value, hvalue⟩ := Option.isSome_iff_exists.mp (hvalid s List.mem_cons_self)
      rw [List.filterMap_cons_some hvalue] at hvalues
      cases hvalues
    | cons value values =>
      rw [List.map_cons, List.map_cons, List.cons.injEq, ih, HeaderValue.bytes_eq_utf8_iff, List.forall_mem_cons]
      constructor
      · rintro ⟨hvalue, hvalid, rfl⟩
        exact ⟨⟨by simp [hvalue], hvalid⟩, by rw [List.filterMap_cons_some hvalue]⟩
      · rintro ⟨⟨hsome, hvalid⟩, hvalues⟩
        obtain ⟨value', hvalue⟩ := Option.isSome_iff_exists.mp hsome
        rw [List.filterMap_cons_some hvalue] at hvalues
        obtain ⟨rfl, rfl⟩ := List.cons.inj hvalues
        exact ⟨hvalue, hvalid, rfl⟩

lemma texts_eq_nil {entries : List Response.HeaderValue}
    (hvalid : ∀ v ∈ entries, ∀ s ∈ strings v, (HeaderValue.fromStr s).isSome) :
    texts entries = [] ↔ entries.flatMap strings = [] := by
  constructor
  · intro h
    refine List.eq_nil_iff_forall_not_mem.mpr (fun s hs => ?_)
    obtain ⟨v, hv, hsv⟩ := List.mem_flatMap.mp hs
    have := List.filterMap_eq_nil_iff.mp h s hs
    have hsome := hvalid v hv s hsv
    rw [this] at hsome
    cases hsome
  · intro h
    rw [texts, h]
    rfl

lemma texts_append (entries later : List Response.HeaderValue) :
    texts (entries ++ later) = texts entries ++ texts later := by
  rw [texts, List.flatMap_append, List.filterMap_append, ← texts, ← texts]

lemma putValues_single {values : List Http.HeaderValue} {v : Response.HeaderValue} (h : isSingle v = true) :
    putValues values v = texts [v] := by
  cases v with
  | single s =>
    rw [putValues, texts, List.flatMap_singleton, strings, List.filterMap_cons]
    cases HeaderValue.fromStr s <;> rfl
  | multiple ss => cases h

lemma putValues_multiple {values : List Http.HeaderValue} {v : Response.HeaderValue} (h : isSingle v = false) :
    putValues values v = values ++ texts [v] := by
  cases v with
  | single s => cases h
  | multiple ss => rw [putValues, texts, List.flatMap_singleton, strings]

lemma foldl_putValues_lists {entries : List Response.HeaderValue} (h : ∀ v ∈ entries, isSingle v = false)
    (values : List Http.HeaderValue) : entries.foldl putValues values = values ++ texts entries := by
  induction entries generalizing values with
  | nil => exact (List.append_nil _).symm
  | cons v entries ih =>
    obtain ⟨hv, hrest⟩ := List.forall_mem_cons.mp h
    rw [List.foldl_cons, putValues_multiple hv, ih hrest, List.append_assoc, ← texts_append, List.singleton_append]

lemma prefix_of_concat {α : Type} {entries before after : List α} {v w : α}
    (h : entries ++ [v] = before ++ w :: after) :
    before <+: entries := by
  rcases List.eq_nil_or_concat after with rfl | ⟨after, last, rfl⟩
  · exact (List.append_inj_left' h rfl) ▸ List.prefix_rfl
  · rw [List.concat_eq_append, ← List.cons_append, ← List.append_assoc] at h
    exact ⟨w :: after, (List.append_inj_left' h rfl).symm⟩

lemma first_concat {entries : List Response.HeaderValue} {v : Response.HeaderValue} (h : isSingle v = false) :
    (∀ before w after, entries ++ [v] = before ++ w :: after → isSingle w = true → before.flatMap strings = []) ↔
      ∀ before w after, entries = before ++ w :: after → isSingle w = true → before.flatMap strings = [] := by
  constructor
  · rintro hall before w after rfl hw
    exact hall before w (after ++ [v]) (by simp) hw
  · intro hall before w after hsplit hw
    rcases List.eq_nil_or_concat after with rfl | ⟨after, last, rfl⟩
    · obtain ⟨_, hlast⟩ := List.append_inj' hsplit rfl
      obtain rfl := List.singleton_inj.mp hlast
      rw [h] at hw
      cases hw
    · rw [List.concat_eq_append, ← List.cons_append, ← List.append_assoc] at hsplit
      exact hall before w after (List.append_inj_left' hsplit rfl) hw

lemma foldl_putValues_eq_iff (own : List Http.HeaderValue) {entries : List Response.HeaderValue}
    (hvalid : ∀ v ∈ entries, ∀ s ∈ strings v, (HeaderValue.fromStr s).isSome) :
    entries.foldl putValues own = texts entries ↔ (own = [] ∨ ∃ v ∈ entries, isSingle v = true) ∧
      ∀ before v after, entries = before ++ v :: after → isSingle v = true → before.flatMap strings = [] := by
  induction entries using List.reverseRecOn with
  | nil => simp [texts]
  | append_singleton entries v ih =>
    obtain ⟨hentries, -⟩ := List.forall_mem_append.mp hvalid
    rw [List.foldl_append, texts_append, List.foldl_cons, List.foldl_nil]
    cases hv : isSingle v with
    | true =>
      rw [putValues_single hv, List.self_eq_append_left, texts_eq_nil hentries]
      constructor
      · intro hnone
        refine ⟨.inr ⟨v, by simp, hv⟩, ?_⟩
        rintro before w after hsplit -
        obtain ⟨rest, hrest⟩ := prefix_of_concat hsplit
        rw [← hrest, List.flatMap_append] at hnone
        exact (List.append_eq_nil_iff.mp hnone).1
      · rintro ⟨-, hfirst⟩
        exact hfirst entries v [] rfl hv
    | false =>
      rw [putValues_multiple hv, List.append_left_inj, ih hentries, first_concat hv]
      simp [hv]

lemma strings_of_isSingle {v : Response.HeaderValue} (h : isSingle v = true) : ∃ s, strings v = [s] := by
  cases v with
  | single s => exact ⟨s, rfl⟩
  | multiple ss => cases h

lemma SettledInOrder.foldl_eq {own : List Http.HeaderValue} {entries : List Response.HeaderValue}
    (h : SettledInOrder own entries) :
    entries.foldl putValues own = texts entries := by
  refine (foldl_putValues_eq_iff own h.valid).mpr ⟨h.alone, fun before v after hsplit hsingle => ?_⟩
  obtain ⟨s, hs⟩ := strings_of_isSingle hsingle
  exact h.first before v after s hsplit hs

lemma foldl_putValues_swap_iff {own : List Http.HeaderValue} {before after : List Response.HeaderValue} {s : Str}
    (hvalid : ∀ v ∈ before ++ .multiple [s] :: after, ∀ s ∈ strings v, (HeaderValue.fromStr s).isSome)
    (hput : (before ++ .multiple [s] :: after).foldl putValues own = texts (before ++ .multiple [s] :: after)) :
    (before ++ .single s :: after).foldl putValues own = (before ++ .multiple [s] :: after).foldl putValues own ↔
      before.flatMap strings = [] := by
  obtain ⟨hbefore, hlater⟩ := List.forall_mem_append.mp hvalid
  obtain ⟨value, hvalue⟩ := Option.isSome_iff_exists.mp (hlater _ List.mem_cons_self s List.mem_cons_self)
  have hlists : ∀ v ∈ after, isSingle v = false := by
    intro v hv
    by_contra hsingle
    obtain ⟨left, right, rfl⟩ := List.append_of_mem hv
    have hnone := ((foldl_putValues_eq_iff own hvalid).mp hput).2 (before ++ .multiple [s] :: left)
      v right (by simp)
      (by simpa using hsingle)
    simp [strings] at hnone
  have hone : texts [.multiple [s]] = [value] := by
    rw [texts, List.flatMap_singleton, strings, List.filterMap_cons_some hvalue, List.filterMap_nil]
  have hsplit : (before ++ .multiple [s] :: after).foldl putValues own =
      before.foldl putValues own ++ ([value] ++ texts after) := by
    rw [List.foldl_append, List.foldl_cons, putValues_multiple rfl, hone, foldl_putValues_lists hlists,
      List.append_assoc]
  have hstring : (before ++ .single s :: after).foldl putValues own = [value] ++ texts after := by
    rw [List.foldl_append, List.foldl_cons, putValues, hvalue, foldl_putValues_lists hlists]
    rfl
  have htexts : texts (before ++ ([.multiple [s]] ++ after)) = texts before ++ ([value] ++ texts after) := by
    rw [texts_append, texts_append, hone]
  replace hput := (hsplit.symm.trans hput).trans htexts
  rw [hsplit, hstring, List.self_eq_append_left, List.append_cancel_right hput, texts_eq_nil hbefore]

section
variable {parts : Parts} {targetUrl : Str} {headers : Headers} {preserveHost : Bool} {stripped : Option Str}
    {body : Bytes}
  {query : Option (List (Str × Str))}

/-- What the target gets for the configured headers is what is configured, and a list of one text does what the
text itself would do. -/
def Guarded (W : World Net) (parts : Parts) (targetUrl : Str) (headers : Headers) (preserveHost : Bool)
    (stripped : Option Str) (body : Bytes) (query : Option (List (Str × Str))) (built : ProxyRequest) : Prop :=
  (∀ e ∈ headers, ∀ name, headerName e.1 = some name →
    Receives built name (configured W targetUrl preserveHost headers name)) ∧
  ∀ before k s after, headers = before ++ (k, .multiple [s]) :: after → ∀ built₁,
    proxyRequest W parts targetUrl (before ++ (k, .single s) :: after)
      preserveHost stripped body query = .ok built₁ →
    ∀ name, built₁.headers.getAll name = built.headers.getAll name

def AllSettled (W : World Net) (parts : Parts) (targetUrl : Str) (headers : Headers) (preserveHost : Bool)
    (body : Bytes) : Prop :=
  ∀ e ∈ headers, ∀ name, headerName e.1 = some name → forcedHost W targetUrl preserveHost name = none →
    Settled (ownValues parts body name) (entriesFor name headers)

def AllInOrder (W : World Net) (parts : Parts) (targetUrl : Str) (headers : Headers) (preserveHost : Bool)
    (body : Bytes) : Prop :=
  ∀ e ∈ headers, ∀ name, headerName e.1 = some name → forcedHost W targetUrl preserveHost name = none →
    SettledInOrder (ownValues parts body name) (entriesFor name headers)

lemma entriesFor_append (name : Str) (headers later : Headers) :
    entriesFor name (headers ++ later) = entriesFor name headers ++ entriesFor name later := by
  rw [entriesFor, List.filter_append, List.map_append, ← entriesFor, ← entriesFor]

lemma entriesFor_cons_of_eq {name k : Str} (h : headerName k = some name) (v : Response.HeaderValue)
    (rest : Headers) :
    entriesFor name ((k, v) :: rest) = v :: entriesFor name rest := by
  rw [entriesFor, List.filter_cons_of_pos (by simpa using h), List.map_cons, ← entriesFor]

lemma entriesFor_cons_of_ne {name k : Str} (h : headerName k ≠ some name) (v : Response.HeaderValue)
    (rest : Headers) :
    entriesFor name ((k, v) :: rest) = entriesFor name rest := by
  rw [entriesFor, List.filter_cons_of_neg (by simpa using h), ← entriesFor]

lemma entriesFor_middle {name k : Str} (h : headerName k = some name) (left right : Headers)
    (v : Response.HeaderValue) :
    entriesFor name (left ++ (k, v) :: right) = entriesFor name left ++ v :: entriesFor name right := by
  rw [entriesFor_append, entriesFor_cons_of_eq h]

lemma exists_split_of_entriesFor {name : Str} {headers : Headers} {before after : List Response.HeaderValue}
    {v : Response.HeaderValue} (h : entriesFor name headers = before ++ v :: after) :
    ∃ left k right, headers = left ++ (k, v) :: right ∧ headerName k = some name ∧ entriesFor name left = before ∧
      entriesFor name right = after := by
  induction headers generalizing before with
  | nil => simp [entriesFor] at h
  | cons e rest ih =>
    obtain ⟨k, w⟩ := e
    by_cases hk : headerName k = some name
    · rw [entriesFor_cons_of_eq hk] at h
      cases before with
      | nil =>
        obtain ⟨rfl, rfl⟩ := List.cons.inj h
        exact ⟨[], k, rest, rfl, hk, rfl, rfl⟩
      | cons u before =>
        obtain ⟨rfl, hrest⟩ := List.cons.inj h
        obtain ⟨left, k', right, rfl, hk', hleft, hright⟩ := ih hrest
        exact ⟨(k, w) :: left, k', right, rfl, hk', by rw [entriesFor_cons_of_eq hk, hleft], hright⟩
    · rw [entriesFor_cons_of_ne hk] at h
      obtain ⟨left, k', right, rfl, hk', hleft, hright⟩ := ih h
      exact ⟨(k, w) :: left, k', right, rfl, hk', by rw [entriesFor_cons_of_ne hk, hleft], hright⟩

lemma receives_iff {built : ProxyRequest}
    (h : proxyRequest W parts targetUrl headers preserveHost stripped body query = .ok built) (name : Str) :
    Receives built name (configured W targetUrl preserveHost headers name) ↔
      (forcedHost W targetUrl preserveHost name = none →
        (∀ v ∈ entriesFor name headers, ∀ s ∈ strings v, (HeaderValue.fromStr s).isSome) ∧
          (entriesFor name headers).foldl putValues (ownValues parts body name) =
            texts (entriesFor name headers)) := by
  rw [Receives, proxyRequest_getAll h, configured]
  cases hforced : forcedHost W targetUrl preserveHost name with
  | none =>
    rw [Option.elim_none, Option.elim_none, map_bytes_eq_iff]
    simp only [List.mem_flatMap, forall_exists_index, and_imp, texts, true_imp_iff]
    constructor
    · rintro ⟨hvalid, hput⟩
      exact ⟨fun v hv s hs => hvalid s v hv hs, hput⟩
    · rintro ⟨hvalid, hput⟩
      exact ⟨fun s v hv hs => hvalid v hv s hs, hput⟩
  | some authority =>
    have hvalid : (HeaderValue.fromStr authority).isSome := by
      rw [forcedHost] at hforced
      split at hforced
      · rename_i hhost
        exact ((proxyRequest_ok_iff W _ _ _ _ _ _ _).mp ⟨built, h⟩).2.2 hhost.2 authority hforced
      · cases hforced
    obtain ⟨value, hvalue⟩ := Option.isSome_iff_exists.mp hvalid
    simp [hvalue, HeaderValue.bytes_of_fromStr hvalue]

lemma guarded_iff {built : ProxyRequest}
    (h : proxyRequest W parts targetUrl headers preserveHost stripped body query = .ok built) :
    Guarded W parts targetUrl headers preserveHost stripped body query built ↔
      AllInOrder W parts targetUrl headers preserveHost body := by
  constructor
  · rintro ⟨hreceives, hswap⟩ e he name hname hforced
    obtain ⟨hvalid, hput⟩ := (receives_iff h name).mp (hreceives e he name hname) hforced
    obtain ⟨halone, hfirst⟩ := (foldl_putValues_eq_iff _ hvalid).mp hput
    refine ⟨hvalid, halone, fun before v after s hsplit hs => ?_⟩
    cases v with
    | single s => exact hfirst before _ after hsplit rfl
    | multiple ss =>
      obtain rfl : ss = [s] := hs
      obtain ⟨left, k, right, rfl, hk, rfl, rfl⟩ := exists_split_of_entriesFor hsplit
      rw [hsplit] at hvalid hput
      have hs : (HeaderValue.fromStr s).isSome :=
        hvalid _ (List.mem_append_right _ List.mem_cons_self) s List.mem_cons_self
      obtain ⟨huri, hheaders, hhost⟩ := (proxyRequest_ok_iff W _ _ _ _ _ _ _).mp ⟨built, h⟩
      have hheaders' : ValidHeaders (fun _ => false) (left ++ (k, .single s) :: right) := by
        simp only [ValidHeaders, List.forall_mem_append, List.forall_mem_cons] at hheaders ⊢
        exact ⟨hheaders.1, fun _ => ⟨(hheaders.2.1 rfl).1, hs⟩, hheaders.2.2⟩
      obtain ⟨built₁, h₁⟩ := (proxyRequest_ok_iff W parts targetUrl _ _ _ body _).mpr ⟨huri, hheaders', hhost⟩
      have hsame := hswap left k s right rfl built₁ h₁ name
      rw [proxyRequest_getAll h₁, proxyRequest_getAll h, hforced, Option.elim_none, Option.elim_none, hsplit,
        entriesFor_middle hk] at hsame
      exact (foldl_putValues_swap_iff hvalid hput).mp hsame
  · intro hsettled
    refine ⟨fun e he name hname => (receives_iff h name).mpr (fun hforced => ?_), ?_⟩
    · have hname := hsettled e he name hname hforced
      exact ⟨hname.valid, hname.foldl_eq⟩
    · rintro left k s right rfl built₁ h₁ name
      have hvalid₁ := ((proxyRequest_ok_iff W _ _ _ _ _ _ _).mp ⟨built₁, h₁⟩).2.1 (k, .single s) (by simp) rfl
      obtain ⟨named, hk⟩ := Option.isSome_iff_exists.mp hvalid₁.1
      rw [proxyRequest_getAll h₁, proxyRequest_getAll h]
      by_cases hname : named = name
      · rw [hname] at hk
        cases hforced : forcedHost W targetUrl preserveHost name with
        | some authority => rfl
        | none =>
          have hname := hsettled (k, .multiple [s]) (by simp) name hk hforced
          rw [entriesFor_middle hk] at hname
          rw [Option.elim_none, Option.elim_none, entriesFor_middle hk, entriesFor_middle hk]
          exact (foldl_putValues_swap_iff hname.valid hname.foldl_eq).mpr (hname.first _ _ _ s rfl rfl)
      · have hne : headerName k ≠ some name := by
          rw [hk]
          exact fun h => hname (Option.some.inj h)
        rw [entriesFor_append, entriesFor_append, entriesFor_cons_of_ne hne, entriesFor_cons_of_ne hne]

end

def Buildable (W : World Net) (uri : Uri) (targetUrl : Str) (headers : Headers) (preserveHost : Bool)
    (stripped : Option Str)
    (query : Option (List (Str × Str))) : Prop :=
  (∃ built, W.parseUri (targetUri W targetUrl uri stripped query) = .ok built) ∧
    ValidHeaders (fun _ => false) headers ∧
    (preserveHost = false → ∀ authority ∈ (W.parseUri targetUrl).toOption.bind Uri.authority,
      (HeaderValue.fromStr authority).isSome)

/-- Two requests with the same line, from clients that send whatever headers they like, each with the map of the
configuration in an order of its own: the target gets for the configured names the same values from both, and those
are the configured ones. -/
def Unspoofed (W : World Net) (parts : Parts) (clientHeaders : HeaderMap) (targetUrl : Str) (headers : Headers)
    (preserveHost : Bool) (stripped : Option Str) (body : Bytes) (query : Option (List (Str × Str))) : Prop :=
  ∀ order order', order.Perm headers → order'.Perm headers → ∀ built built',
    proxyRequest W parts targetUrl order preserveHost stripped body query = .ok built →
    proxyRequest W { parts with headers := clientHeaders } targetUrl order' preserveHost stripped body query =
      .ok built' →
      Guarded W parts targetUrl order preserveHost stripped body query built ∧
      Guarded W { parts with headers := clientHeaders } targetUrl order' preserveHost stripped body query built' ∧
      ∀ e ∈ headers, ∀ name, headerName e.1 = some name → built.headers.getAll name = built'.headers.getAll name

lemma bytes_injective : Function.Injective HeaderValue.bytes := by
  rintro ⟨bytes, _⟩ ⟨bytes', _⟩ h
  simpa using h

section
variable {parts : Parts} {clientHeaders : HeaderMap} {targetUrl : Str} {headers order order' : Headers}
  {preserveHost : Bool} {stripped : Option Str} {body : Bytes} {query : Option (List (Str × Str))}

lemma buildable_perm (hp : order.Perm headers) :
    Buildable W parts.uri targetUrl order preserveHost stripped query ↔
    Buildable W parts.uri targetUrl headers preserveHost stripped query := by
  rw [Buildable, Buildable, validHeaders_perm hp]

lemma entriesFor_perm (hp : order.Perm headers) (name : Str) :
    (entriesFor name order).Perm (entriesFor name headers) :=
  (hp.filter _).map _

lemma AllSettled.inOrder (h : AllSettled W parts targetUrl headers preserveHost body) (hp : order.Perm headers) :
    AllInOrder W parts targetUrl order preserveHost body := fun e he name hname hforced =>
  ((h e (hp.mem_iff.mp he) name hname hforced).perm (entriesFor_perm hp name)).inOrder

lemma AllSettled.configured_eq (h : AllSettled W parts targetUrl headers preserveHost body)
    (hp : order.Perm headers)
    {e : Str × Response.HeaderValue} (he : e ∈ headers) {name : Str} (hname : headerName e.1 = some name) :
    configured W targetUrl preserveHost order name = configured W targetUrl preserveHost headers name := by
  rw [configured, configured]
  cases hforced : forcedHost W targetUrl preserveHost name with
  | some authority => rfl
  | none => exact (h e he name hname hforced).flatMap_eq (entriesFor_perm hp name)

lemma exists_orders {name : Str} {v w : Response.HeaderValue} (h : [v, w].Sublist (entriesFor name headers)) :
    ∃ order order', order.Perm headers ∧ order'.Perm headers ∧ ∃ rest,
      entriesFor name order = v :: w :: rest ∧ entriesFor name order' = w :: v :: rest := by
  obtain ⟨pair, hpair, hmap⟩ := List.sublist_map_iff.mp h
  obtain ⟨e, tail, rfl, hv, htail⟩ := List.map_eq_cons_iff.mp hmap.symm
  obtain ⟨e', last, rfl, hw, hlast⟩ := List.map_eq_cons_iff.mp htail
  obtain rfl := List.map_eq_nil_iff.mp hlast
  obtain ⟨k, v⟩ := e
  obtain ⟨k', w⟩ := e'
  obtain rfl := hv
  obtain rfl := hw
  have hnamed : ∀ e ∈ [(k, v), (k', w)], headerName e.1 = some name := fun e he =>
    of_decide_eq_true (List.mem_filter.mp (hpair.subset he)).2
  obtain ⟨hk, hk'⟩ := List.forall_mem_cons.mp hnamed
  replace hk' := List.forall_mem_singleton.mp hk'
  obtain ⟨rest, hrest⟩ := (hpair.trans List.filter_sublist).exists_perm_append
  refine ⟨(k, v) :: (k', w) :: rest, (k', w) :: (k, v) :: rest, hrest.symm, ?_, entriesFor name rest, ?_, ?_⟩
  · exact (List.Perm.swap _ _ _).trans hrest.symm
  · rw [entriesFor_cons_of_eq hk, entriesFor_cons_of_eq hk']
  · rw [entriesFor_cons_of_eq hk', entriesFor_cons_of_eq hk]

lemma Unspoofed.inOrder (h : Unspoofed W parts clientHeaders targetUrl headers preserveHost stripped body query)
    (hb : Buildable W parts.uri targetUrl headers preserveHost stripped query) (hp : order.Perm headers)
    (hp' : order'.Perm headers) :
    AllInOrder W parts targetUrl order preserveHost body ∧
      AllInOrder W { parts with headers := clientHeaders } targetUrl order' preserveHost body ∧
      ∀ e ∈ headers, ∀ name, headerName e.1 = some name → forcedHost W targetUrl preserveHost name = none →
        texts (entriesFor name order) = texts (entriesFor name order') := by
  have hbuild : Buildable W parts.uri targetUrl order preserveHost stripped query := (buildable_perm hp).mpr hb
  have hbuild' : Buildable W parts.uri targetUrl order' preserveHost stripped query := (buildable_perm hp').mpr hb
  obtain ⟨built, hbuilt⟩ := (proxyRequest_ok_iff W parts targetUrl order _ stripped body _).mpr hbuild
  obtain ⟨built', hbuilt'⟩ :=
    (proxyRequest_ok_iff W { parts with headers := clientHeaders } targetUrl order' _ stripped
    body _).mpr hbuild'
  obtain ⟨hguarded, hguarded', hsame⟩ := h order order' hp hp' built built' hbuilt hbuilt'
  have horder := (guarded_iff hbuilt).mp hguarded
  have horder' := (guarded_iff hbuilt').mp hguarded'
  refine ⟨horder, horder', fun e he name hname hforced => ?_⟩
  have hgets := hsame e he name hname
  rwa [proxyRequest_getAll hbuilt, proxyRequest_getAll hbuilt', hforced, Option.elim_none, Option.elim_none,
    (horder e (hp.mem_iff.mpr he) name hname hforced).foldl_eq,
    (horder' e (hp'.mem_iff.mpr he) name hname hforced).foldl_eq] at hgets

lemma agreeing_of_orders {own : List Http.HeaderValue} {v w : Response.HeaderValue}
    {rest : List Response.HeaderValue}
    (h : SettledInOrder own (v :: w :: rest)) (h' : SettledInOrder own (w :: v :: rest))
    (hsame : texts (v :: w :: rest) = texts (w :: v :: rest)) : Agreeing v w where
  comm := by
    have hvalid := h.valid
    simp only [List.forall_mem_cons] at hvalid
    obtain ⟨hv, hw, -⟩ := hvalid
    simp only [texts, List.flatMap_cons, List.filterMap_append, ← List.append_assoc] at hsame
    replace hsame := List.append_cancel_right hsame
    rw [← List.filterMap_append, ← List.filterMap_append] at hsame
    apply filterMap_fromStr_inj _ _ hsame
    · exact fun s hs => (List.mem_append.mp hs).elim (hv s) (hw s)
    · exact fun s hs => (List.mem_append.mp hs).elim (hw s) (hv s)
  left s hs := by simpa using h'.first [w] v rest s rfl hs
  right s hs := by simpa using h.first [v] w rest s rfl hs

lemma Unspoofed.agree (h : Unspoofed W parts clientHeaders targetUrl headers preserveHost stripped body query)
    (hb : Buildable W parts.uri targetUrl headers preserveHost stripped query) {e : Str × Response.HeaderValue}
    (he : e ∈ headers) {name : Str} (hname : headerName e.1 = some name)
    (hforced : forcedHost W targetUrl preserveHost name = none) : (entriesFor name headers).Pairwise Agreeing := by
  refine List.pairwise_iff_forall_sublist.mpr (fun {v w} hpair => ?_)
  obtain ⟨order, order', hp, hp', rest, hv, hw⟩ := exists_orders hpair
  obtain ⟨horder, _, hsame⟩ := h.inOrder hb hp hp'
  obtain ⟨horder', _, _⟩ := h.inOrder hb hp' hp
  replace hsame := hsame e he name hname hforced
  replace horder := horder e (hp.mem_iff.mpr he) name hname hforced
  replace horder' := horder' e (hp'.mem_iff.mpr he) name hname hforced
  rw [hv] at horder hsame
  rw [hw] at horder' hsame
  exact agreeing_of_orders horder horder' hsame

end

theorem unspoofed_iff (W : World Net) (parts : Parts) (clientHeaders : HeaderMap) (targetUrl : Str)
    (headers : Headers)
    (preserveHost : Bool) (stripped : Option Str) (body : Bytes) (query : Option (List (Str × Str))) :
    Unspoofed W parts clientHeaders targetUrl headers preserveHost stripped body query ↔
      ¬ Buildable W parts.uri targetUrl headers preserveHost stripped query ∨
        (AllSettled W parts targetUrl headers preserveHost body ∧
          AllSettled W { parts with headers := clientHeaders } targetUrl headers preserveHost body) := by
  constructor
  · intro h
    refine or_iff_not_imp_left.mpr (fun hbuildable => ?_)
    have hbuildable := not_not.mp hbuildable
    obtain ⟨horder, horder', _⟩ := h.inOrder hbuildable (List.Perm.refl _) (List.Perm.refl _)
    refine ⟨fun e he name hname hforced => ?_, fun e he name hname hforced => ?_⟩
    · have hsettled := horder e he name hname hforced
      exact ⟨hsettled.valid, hsettled.alone, h.agree hbuildable he hname hforced⟩
    · have hsettled := horder' e he name hname hforced
      exact ⟨hsettled.valid, hsettled.alone, h.agree hbuildable he hname hforced⟩
  · rintro (hbuildable | ⟨hsettled, hsettled'⟩) order order' hp hp' built built' hbuilt hbuilt'
    · exact absurd ((buildable_perm hp).mp ((proxyRequest_ok_iff W _ _ _ _ _ _ _).mp ⟨built, hbuilt⟩)) hbuildable
    · have hguarded := (guarded_iff hbuilt).mpr (hsettled.inOrder hp)
      have hguarded' := (guarded_iff hbuilt').mpr (hsettled'.inOrder hp')
      refine ⟨hguarded, hguarded', fun e he name hname => bytes_injective.list_map ?_⟩
      have hgets : (built.headers.getAll name).map HeaderValue.bytes = _ :=
        hguarded.1 e (hp.mem_iff.mpr he) name hname
      have hgets' : (built'.headers.getAll name).map HeaderValue.bytes = _ :=
        hguarded'.1 e (hp'.mem_iff.mpr he) name hname
      rw [hgets, hgets', hsettled.configured_eq hp he hname, hsettled'.configured_eq hp' he hname]

def protoKey : Str := "x-forwarded-proto".toList

def protoOptions : Value :=
  .record [("headers".toList, .record [("X-Forwarded-Proto".toList, .list [.string "https".toList])])]

def httpValue : Http.HeaderValue := ⟨utf8 "http".toList, by decide⟩

theorem unspoofed_list : ¬ Unspoofed grammarWorld evilParts ⟨[(protoKey, httpValue)]⟩ backend.text
    (parseConfig (some protoOptions)).headers true none [] none := by
  intro h
  obtain ⟨_, _, hsame⟩ := h _ _ (List.Perm.refl _) (List.Perm.refl _) _ _ rfl rfl
  exact absurd (hsame _ List.mem_cons_self protoKey (by decide)) (by decide)

def LengthRight (built : ProxyRequest) : Prop :=
  (built.headers.getAll contentLength = [] ∧ built.body = []) ∨
    ∃ value, built.headers.getAll contentLength = [value] ∧ parseLength value = some built.body.length

/-- No valid text is configured for the length, or the last one is the length of the body: as a string, or in a
list when it is the only one and the body is empty and came without a length. -/
def KeepsLength (parts : Parts) (headers : Headers) (body : Bytes) : Prop :=
  texts (entriesFor contentLength headers) = [] ∨
    ∃ before v after value, entriesFor contentLength headers = before ++ v :: after ∧ texts [v] = [value] ∧
      texts after = [] ∧ parseLength value = some body.length ∧
      (isSingle v = true ∨ (texts before = [] ∧ body = [] ∧ parts.headers.containsKey contentLength = false))

lemma chars_of_isDigit {s : Str} {value : Http.HeaderValue} (h : HeaderValue.fromStr s = some value)
    (hdigit : ∀ c ∈ s, c.isDigit = true) : value.chars = s := by
  rw [HeaderValue.chars, HeaderValue.bytes_of_fromStr h, utf8, List.map_flatMap]
  refine (List.flatMap_congr (fun c hc => ?_)).trans (List.flatMap_singleton' s)
  have hbound := hdigit c hc
  simp only [Char.isDigit, ge_iff_le, Bool.and_eq_true, decide_eq_true_eq, UInt32.le_iff_toNat_le] at hbound
  have hval : c.val.toNat ≤ 57 := hbound.2
  have hsize : c.utf8Size = 1 := by
    rw [Char.utf8Size_eq_one_iff, UInt32.le_iff_toNat_le]
    exact hval.trans (by decide)
  have hbyte : c.val.toUInt8.toNat = c.toNat := by
    rw [UInt32.toNat_toUInt8]
    exact Nat.mod_eq_of_lt (by omega)
  rw [String.utf8EncodeChar_eq_singleton hsize, List.map_singleton, hbyte, Char.ofNat_toNat]

lemma parseLength_lengthText {body : Bytes} {value : Http.HeaderValue}
    (h : HeaderValue.fromStr (lengthText body) = some value) : parseLength value = some body.length := by
  have htext : lengthText body = Nat.toDigits 10 body.length := by
    rw [lengthText, Nat.toString_eq_repr, Nat.toList_repr]
  have hdigit : ∀ c ∈ lengthText body, c.isDigit = true := by
    intro c hc
    rw [htext] at hc
    exact Nat.isDigit_of_mem_toDigits (by decide) (by decide) hc
  have hfold : ∀ (cs : Str) (n : Nat), cs.foldl (fun n c => n * 10 + (c.toNat - '0'.toNat)) n =
    Nat.ofDigitChars 10 cs n := by
    intro cs n
    simp only [Nat.ofDigitChars, Nat.mul_comm]
  rw [parseLength, chars_of_isDigit h hdigit,
    if_pos ⟨htext ▸ Nat.toDigits_ne_nil, List.all_eq_true.mpr hdigit⟩, hfold, htext,
    Nat.ofDigitChars_ten_toDigits]

def ValidStrings (entries : List Response.HeaderValue) : Prop := ∀ v ∈ entries, isSingle v = true → texts [v] ≠ []

lemma isSingle_of_texts_nil {entries : List Response.HeaderValue} (hvalid : ValidStrings entries)
    (h : texts entries = []) :
    ∀ v ∈ entries, isSingle v = false := by
  intro v hv
  by_contra hsingle
  obtain ⟨before, after, rfl⟩ := List.append_of_mem hv
  rw [← List.singleton_append, texts_append, texts_append, List.append_eq_nil_iff, List.append_eq_nil_iff] at h
  exact hvalid v hv (by simpa using hsingle) h.2.1

lemma foldl_putValues_texts_nil {entries : List Response.HeaderValue} (hvalid : ValidStrings entries)
    (h : texts entries = []) (values : List Http.HeaderValue) : entries.foldl putValues values = values := by
  rw [foldl_putValues_lists (isSingle_of_texts_nil hvalid h), h, List.append_nil]

lemma foldl_putValues_eq_nil {entries : List Response.HeaderValue} (hvalid : ValidStrings entries)
    {own : List Http.HeaderValue} (h : entries.foldl putValues own = []) : texts entries = [] ∧ own = [] := by
  induction entries using List.reverseRecOn with
  | nil => exact ⟨rfl, h⟩
  | append_singleton entries v ih =>
    rw [List.foldl_append, List.foldl_cons, List.foldl_nil] at h
    cases hv : isSingle v with
    | true =>
      rw [putValues_single hv] at h
      exact absurd h (hvalid v (by simp) hv)
    | false =>
      rw [putValues_multiple hv, List.append_eq_nil_iff] at h
      obtain ⟨htexts, hown⟩ := ih (fun w hw => hvalid w (List.mem_append_left _ hw)) h.1
      exact ⟨by rw [texts_append, htexts, h.2, List.append_nil], hown⟩

lemma exists_last_text {entries : List Response.HeaderValue} (h : texts entries ≠ []) :
    ∃ before v after, entries = before ++ v :: after ∧ texts [v] ≠ [] ∧ texts after = [] := by
  induction entries using List.reverseRecOn with
  | nil => exact absurd rfl h
  | append_singleton entries v ih =>
    by_cases hv : texts [v] = []
    · rw [texts_append, hv, List.append_nil] at h
      obtain ⟨before, w, after, rfl, hw, hafter⟩ := ih h
      exact ⟨before, w, after ++ [v], by simp, hw, by rw [texts_append, hafter, hv, List.append_nil]⟩
    · exact ⟨entries, v, [], rfl, hv, rfl⟩

lemma ownValues_length (parts : Parts) (body : Bytes) :
    (ownValues parts body contentLength = [] ∧ body = [] ∧ parts.headers.containsKey contentLength = false) ∨
      ∃ value, ownValues parts body contentLength = [value] ∧ parseLength value = some body.length := by
  rw [ownValues]
  by_cases hlength : body ≠ [] ∨ parts.headers.containsKey contentLength = true
  · obtain ⟨value, hvalue⟩ := Option.isSome_iff_exists.mp (fromStr_digits body.length)
    refine .inr ⟨value, ?_, parseLength_lengthText hvalue⟩
    rw [if_pos ⟨rfl, hlength⟩, lengthText, hvalue]
    rfl
  · rw [not_or, not_not, Bool.not_eq_true] at hlength
    refine .inl ⟨?_, hlength⟩
    rw [if_neg (by simp [hlength.1, hlength.2])]
    simpa [MultiMap.containsKey] using hlength.2

section
variable {parts : Parts} {targetUrl : Str} {headers : Headers} {preserveHost : Bool} {stripped : Option Str}
    {body : Bytes}
  {query : Option (List (Str × Str))} {built : ProxyRequest}

lemma getAll_contentLength
    (h : proxyRequest W parts targetUrl headers preserveHost stripped body query = .ok built) :
    built.headers.getAll contentLength =
      (entriesFor contentLength headers).foldl putValues (ownValues parts body contentLength) := by
  rw [proxyRequest_getAll h, forcedHost, if_neg (fun h => absurd h.1 (by decide)), Option.elim_none]

lemma validStrings_entriesFor (name : Str)
    (h : proxyRequest W parts targetUrl headers preserveHost stripped body query = .ok built) :
    ValidStrings (entriesFor name headers) := by
  intro v hv hsingle
  obtain ⟨e, he, rfl⟩ := List.mem_map.mp hv
  obtain ⟨k, v⟩ := e
  have hvalid := (((proxyRequest_ok_iff W _ _ _ _ _ _ _).mp ⟨built, h⟩).2.1 _ (List.mem_of_mem_filter he) rfl).2
  cases v with
  | single s =>
    obtain ⟨value, hvalue⟩ := Option.isSome_iff_exists.mp hvalid
    simp [texts, strings, hvalue]
  | multiple ss => cases hsingle

lemma lengthRight_iff (h : proxyRequest W parts targetUrl headers preserveHost stripped body query = .ok built) :
    LengthRight built ↔ KeepsLength parts headers body := by
  have hvalid := validStrings_entriesFor contentLength h
  -- only what is put last decides
  have hlast : ∀ {before v after}, entriesFor contentLength headers = before ++ v :: after → texts after = [] →
      built.headers.getAll contentLength =
        putValues (before.foldl putValues (ownValues parts body contentLength)) v := by
    intro before v after hsplit hafter
    rw [hsplit] at hvalid
    rw [getAll_contentLength h, hsplit, List.foldl_append, List.foldl_cons,
      foldl_putValues_texts_nil (fun w hw => hvalid w (List.mem_append_right _ (List.mem_cons_of_mem v hw)))
        hafter]
  rw [LengthRight, KeepsLength, proxyRequest_body W h]
  constructor
  · intro hright
    refine or_iff_not_imp_left.mpr (fun htexts => ?_)
    obtain ⟨before, v, after, hsplit, hv, hafter⟩ := exists_last_text htexts
    have hget := hlast hsplit hafter
    cases hsingle : isSingle v with
    | true =>
      rw [putValues_single hsingle] at hget
      rw [hget] at hright
      obtain ⟨value, hvalue, hparse⟩ := hright.resolve_left (fun h => hv h.1)
      exact ⟨before, v, after, value, hsplit, hvalue, hafter, hparse, .inl hsingle⟩
    | false =>
      rw [putValues_multiple hsingle] at hget
      rw [hget] at hright
      obtain ⟨value, hvalue, hparse⟩ := hright.resolve_left (fun h => hv (List.append_eq_nil_iff.mp h.1).2)
      obtain ⟨hbefore, hvalue⟩ | ⟨_, hnone⟩ := List.append_eq_singleton_iff.mp hvalue
      · rw [hsplit] at hvalid
        obtain ⟨htexts, hown⟩ := foldl_putValues_eq_nil (fun w hw => hvalid w (List.mem_append_left _ hw)) hbefore
        obtain ⟨_, hbody, hkey⟩ | ⟨value', hvalue', _⟩ := ownValues_length parts body
        · exact ⟨before, v, after, value, hsplit, hvalue, hafter, hparse, .inr ⟨htexts, hbody, hkey⟩⟩
        · cases hown.symm.trans hvalue'
      · exact absurd hnone hv
  · rintro (htexts | ⟨before, v, after, value, hsplit, hvalue, hafter, hparse, hkept⟩)
    · rw [getAll_contentLength h, foldl_putValues_texts_nil hvalid htexts]
      obtain ⟨hown, hbody, _⟩ | hown := ownValues_length parts body
      · exact .inl ⟨hown, hbody⟩
      · exact .inr hown
    · refine .inr ⟨value, ?_, hparse⟩
      rw [hlast hsplit hafter]
      cases hsingle : isSingle v with
      | true => rw [putValues_single hsingle, hvalue]
      | false =>
        obtain ⟨hbefore, hbody, hkey⟩ := hkept.resolve_left (by simp [hsingle])
        rw [hsplit] at hvalid
        have hown : ownValues parts body contentLength = [] := by
          obtain ⟨hown, _⟩ | ⟨value', hvalue', _⟩ := ownValues_length parts body
          · exact hown
          · rw [ownValues, if_neg (by simp [hbody, hkey])]
            simpa [MultiMap.containsKey] using hkey
        rw [putValues_multiple hsingle,
          foldl_putValues_texts_nil (fun w hw => hvalid w (List.mem_append_left _ hw)) hbefore,
          hown, hvalue, List.nil_append]

end

theorem lengthKept_iff (W : World Net) (parts : Parts) (targetUrl : Str) (headers : Headers) (preserveHost : Bool)
    (stripped : Option Str) (body : Bytes) (query : Option (List (Str × Str))) :
    (∀ built, proxyRequest W parts targetUrl headers preserveHost stripped body query = .ok built →
      LengthRight built) ↔
      ¬ Buildable W parts.uri targetUrl headers preserveHost stripped query ∨ KeepsLength parts headers body := by
  constructor
  · intro h
    refine or_iff_not_imp_left.mpr (fun hbuildable => ?_)
    obtain ⟨built, hbuilt⟩ :=
      (proxyRequest_ok_iff W parts targetUrl headers _ stripped body _).mpr (not_not.mp hbuildable)
    exact (lengthRight_iff hbuilt).mp (h built hbuilt)
  · rintro (hbuildable | hkeeps) built hbuilt
    · exact absurd ((proxyRequest_ok_iff W _ _ _ _ _ _ _).mp ⟨built, hbuilt⟩) hbuildable
    · exact (lengthRight_iff hbuilt).mpr hkeeps

def passedOptions : Value := .record [("headers".toList, .record [("content-length".toList, .string "5".toList)])]

theorem length_passed : ¬ ∀ built, proxyRequest grammarWorld uploadParts backend.text
    (parseConfig (some passedOptions)).headers true none (utf8 "ab".toList) none = .ok built →
      LengthRight built := by
  intro h
  obtain ⟨hnone, _⟩ | ⟨value, hvalue, hparse⟩ := h _ rfl
  · exact absurd hnone (by decide)
  · obtain rfl : fiveValue = value := (List.cons.inj hvalue).1
    exact absurd hparse (by decide)

end HttpNu.Handler
