import HttpNu.Library.DatedStore
import HttpNu.Stdlib.Cookies
import HttpNu.Stdlib.CookieText

/-! Sessions: cookies through the responses of a handler, a browser that keeps them, and `cookie parse`. -/

namespace HttpNu.Stdlib.CookieSession

open Text Library Library.DatedStore Request Handler CookieSet

structure Visit where
  host : Str
  path : Str
  secure : Bool

structure Key where
  name : Str
  domain : Str
  path : Str
  deriving DecidableEq

structure Kept where
  value : Str
  hostOnly : Bool
  secure : Bool
  deriving DecidableEq

abbrev Jar := List (Entry Key Kept)

def lower (s : Str) : Str := s.map Char.toLower

/-- The last label of an address is a number, and a name in brackets is an address too. -/
def isHostName (host : Str) : Bool :=
  !host.contains ':' && !((host.splitOn '.').getLast?.getD []).all Char.isDigit

def domainMatches (host domain : Str) : Bool :=
  host = domain || (isHostName host && ('.' :: domain).isSuffixOf host)

def pathMatches (path cookiePath : Str) : Bool :=
  path = cookiePath || (cookiePath.isPrefixOf path &&
    (cookiePath.getLast? = some '/' || (path.drop cookiePath.length).head? = some '/'))

def defaultPath (path : Str) : Str :=
  if path.head? ≠ some '/' || path.count '/' ≤ 1 then "/".toList else (path.rdropWhile (· ≠ '/')).dropLast

/-- The domain of a cookie and whether it is for this host alone; none if the host may not set it. -/
def scopeOf (host : Str) (domain : Option Str) : Option (Str × Bool) :=
  let domain := lower (domain.elim [] (fun d => if d.head? = some '.' then d.tail else d))
  if domain = [] then some (host, true)
  else if domainMatches host domain then some (domain, false)
  else none

def pathOf (visit : Visit) (path : Option Str) : Str :=
  (path.filter (fun path => path.head? = some '/')).getD (defaultPath visit.path)

def readDigits (s : Str) : Option Nat :=
  if s ≠ [] ∧ s.all Char.isDigit then some (Nat.ofDigitChars 10 s 0) else none

def readAge (s : Str) : Option Int :=
  if s.head? = some '-' then (readDigits s.tail).map (fun n => -(n : Int)) else (readDigits s).map Int.ofNat

def expiry (now : Nat) (age : Int) : Nat := if age ≤ 0 then 0 else now + age.toNat

/-- A browser takes spaces and tabs from both ends. -/
def isWsp (c : Char) : Bool := c = ' ' || c = '\t'

def strip (s : Str) : Str := trimMatches isWsp s

def attributeOf (c : Cookie) (name : String) : Option Str :=
  (c.attributes.filter (fun a => lower (strip a.1) = lower name.toList)).getLast?.map
    (fun a => strip (a.2.getD []))

def readLine (visit : Visit) (now : Nat) (line : Str) : Option (Entry Key Kept) := do
  let c ← parseSetCookie line
  let (domain, hostOnly) ← scopeOf visit.host (attributeOf c "Domain")
  let secure := (attributeOf c "Secure").isSome
  if strip c.name = [] || secure && !visit.secure then none
  else some ⟨⟨strip c.name, domain, pathOf visit (attributeOf c "Path")⟩, ⟨strip c.value, hostOnly, secure⟩,
    ((attributeOf c "Max-Age").bind readAge).map (expiry now)⟩

def Sends (visit : Visit) (now : Nat) (e : Entry Key Kept) : Prop :=
  e.Alive now ∧ pathMatches visit.path e.key.path = true ∧ (e.value.secure = true → visit.secure = true) ∧
    if e.value.hostOnly then visit.host = e.key.domain else domainMatches visit.host e.key.domain = true

instance (visit : Visit) (now : Nat) (e : Entry Key Kept) : Decidable (Sends visit now e) :=
  inferInstanceAs (Decidable (_ ∧ _))

def cookieText (e : Entry Key Kept) : Str := e.key.name ++ '=' :: e.value.value

/-- The request has one `Cookie` header with these cookies, or none where there are none. -/
def Carries (request : RequestParts) (sent : Jar) : Prop :=
  if sent = [] then request.headers.getAll "cookie".toList = []
  else ∃ v, request.headers.getAll "cookie".toList = [v] ∧
    v.bytes = utf8 ("; ".toList.intercalate (sent.map cookieText))

structure Exchange where
  now : Nat
  visit : Visit
  metadata : Option Metadata
  calls : List CookieCall
  response : NormalResponse

/-- The handler has set no cookies but by the calls, and the response is built from what they leave. -/
def Exchange.Served (dev : Bool) (e : Exchange) : Prop :=
  ∃ resp headers, Reads (metadataRecord e.metadata) resp headers [] ∧
    (∀ entry ∈ Response.headersOf headers, Http.headerName entry.1 ≠ some setCookie) ∧
    ∃ metadata' compressFull inferred body useBrotli requestId order logged,
      runCalls dev e.calls e.metadata = some metadata' ∧
      order.Perm (Response.extractHttpResponseMeta metadata').headers ∧
      buildNormalResponse compressFull
        (inferred, ⟨(Response.extractHttpResponseMeta metadata').status, order⟩, body)
        useBrotli requestId = (logged, .ok e.response)

def receive (jar : Jar) (e : Exchange) : Jar :=
  let kept := (e.response.headers.getAll setCookie).filterMap
    (fun v => readLine e.visit e.now (fromUtf8Lossy v.bytes))
  kept.foldl put jar

def jarAfter (exchanges : List Exchange) : Jar := exchanges.foldl receive []

def wanted (dev : Bool) (visit : Visit) (now : Nat) : CookieCall → Option (Entry Key Kept)
  | .set name value flags => do
    let (domain, hostOnly) ← scopeOf visit.host flags.domain
    let secure := !(dev || flags.noSecure)
    if secure && !visit.secure then none
    else some ⟨⟨name, domain, pathOf visit (some flags.path)⟩, ⟨value, hostOnly, secure⟩,
      flags.maxAge.map (expiry now)⟩
  | .delete name path domain => do
    let (domain, hostOnly) ← scopeOf visit.host domain
    return ⟨⟨name, domain, pathOf visit (some path)⟩, ⟨[], hostOnly, false⟩, some 0⟩

def history (dev : Bool) (exchanges : List Exchange) : List (Entry Key Kept) :=
  exchanges.flatMap (fun e => e.calls.filterMap (wanted dev e.visit e.now))

structure Word (s : Str) : Prop where
  trimmed : Cookies.Trimmed s
  undelimited : ';' ∉ s
  visible : (utf8 s).all Http.isVisibleAscii = true

structure Name (s : Str) : Prop extends Word s where
  nonempty : s ≠ []
  unassigned : '=' ∉ s

def PlainCall : CookieCall → Prop
  | .set name value flags =>
    Name name ∧ Word value ∧ Word flags.path ∧ Word flags.sameSite ∧ ∀ domain ∈ flags.domain, Word domain
  | .delete name path domain => Name name ∧ Word path ∧ ∀ d ∈ domain, Word d

def dropped (name path : Str) (domain : Option Str) : Cookie where
  name := name
  value := []
  attributes := [("Path".toList, some path), ("Max-Age".toList, some "0".toList)] ++
    (domain.map (fun domain => ("Domain".toList, some domain))).toList

def CookieCall.cookie (dev : Bool) : CookieCall → Cookie
  | .set name value flags => asked dev name value flags
  | .delete name path domain => dropped name path domain

lemma header_eq (dev : Bool) (call : CookieCall) : call.header dev = (CookieCall.cookie dev call).text := by
  cases call with
  | set name value flags => exact setHeader_eq dev name value flags
  | delete name path domain =>
    have hpair : name ++ "=".toList = name ++ '=' :: [] := rfl
    rw [CookieCall.header, deleteHeader, compactJoin_cons, Cookie.text, hpair]
    cases domain <;> rfl

lemma isDigit_of_mem_toString {n : Nat} {c : Char} (hc : c ∈ (toString n).toList) : c.isDigit = true := by
  rw [Nat.toString_eq_repr, Nat.toList_repr] at hc
  exact Nat.isDigit_of_mem_toDigits (by decide) (by decide) hc

lemma readDigits_toString (n : Nat) : readDigits (toString n).toList = some n := by
  have hall : (toString n).toList.all Char.isDigit = true :=
    List.all_eq_true.mpr (fun c hc => isDigit_of_mem_toString hc)
  have hdigits : (toString n).toList = Nat.toDigits 10 n := by rw [Nat.toString_eq_repr, Nat.toList_repr]
  rw [readDigits, if_pos ⟨by rw [hdigits]; exact Nat.toDigits_ne_nil, hall⟩, hdigits,
    Nat.ofDigitChars_ten_toDigits]

lemma readAge_toString (n : Int) : readAge (toString n).toList = some n := by
  cases n with
  | ofNat n =>
    have htext : (toString (Int.ofNat n)).toList = (toString n).toList := rfl
    have hhead : (toString n).toList.head? ≠ some '-' := fun h =>
      absurd (isDigit_of_mem_toString (List.mem_of_mem_head? h)) (by decide)
    rw [readAge, htext, if_neg hhead, readDigits_toString]
    rfl
  | negSucc n =>
    have htext : (toString (Int.negSucc n)).toList = '-' :: (toString (n + 1)).toList := by
      simp [toString, Int.repr]
    rw [readAge, htext, if_pos (List.head?_cons), List.tail_cons, readDigits_toString]
    rfl

lemma isWsp_of_not_trimmable {c : Char} (h : isTrimmable c = false) : isWsp c = false := by
  have hspace : c ≠ ' ' := by
    rintro rfl
    cases h
  have htab : c ≠ '\t' := by
    rintro rfl
    cases h
  simp [isWsp, hspace, htab]

lemma Word.strip {s : Str} (h : Word s) : strip s = s :=
  trimMatches_eq_self (fun c hc => isWsp_of_not_trimmable (h.trimmed.1 c hc))
    (fun c hc => isWsp_of_not_trimmable (h.trimmed.2 c hc))

lemma isWsp_of_isDigit {c : Char} (h : c.isDigit = true) : isWsp c = false := by
  have hspace : c ≠ ' ' := by
    rintro rfl
    cases h
  have htab : c ≠ '\t' := by
    rintro rfl
    cases h
  simp [isWsp, hspace, htab]

lemma strip_toString (n : Int) : strip (toString n).toList = (toString n).toList := by
  have hspace : ∀ c ∈ (toString n).toList, isWsp c = false := by
    intro c hc
    rcases chars_of_int n c hc with hdigit | rfl
    · exact isWsp_of_isDigit hdigit
    · decide
  exact trimMatches_eq_self (fun c hc => hspace c (List.mem_of_mem_head? hc))
    (fun c hc => hspace c (List.mem_of_getLast? hc))

section

variable (dev : Bool) (name value : Str) (flags : SetFlags)

lemma asked_path : attributeOf (asked dev name value flags) "Path" = some (strip flags.path) := by
  obtain ⟨maxAge, path, domain, noHttponly, noSecure, sameSite⟩ := flags
  cases noHttponly <;> cases dev <;> cases noSecure <;> cases maxAge <;> cases domain <;> rfl

lemma asked_domain : attributeOf (asked dev name value flags) "Domain" = flags.domain.map strip := by
  obtain ⟨maxAge, path, domain, noHttponly, noSecure, sameSite⟩ := flags
  cases noHttponly <;> cases dev <;> cases noSecure <;> cases maxAge <;> cases domain <;> rfl

lemma asked_secure : (attributeOf (asked dev name value flags) "Secure").isSome = !(dev || flags.noSecure) := by
  obtain ⟨maxAge, path, domain, noHttponly, noSecure, sameSite⟩ := flags
  cases noHttponly <;> cases dev <;> cases noSecure <;> cases maxAge <;> cases domain <;> rfl

lemma asked_maxAge : (attributeOf (asked dev name value flags) "Max-Age").bind readAge = flags.maxAge := by
  have hage : attributeOf (asked dev name value flags) "Max-Age" =
      flags.maxAge.map (fun n => strip (toString n).toList) := by
    obtain ⟨maxAge, path, domain, noHttponly, noSecure, sameSite⟩ := flags
    cases noHttponly <;> cases dev <;> cases noSecure <;> cases maxAge <;> cases domain <;> rfl
  rw [hage]
  cases flags.maxAge with
  | none => rfl
  | some n => rw [Option.map_some, Option.bind_some, strip_toString, readAge_toString]

end

def Visible (c : Char) : Prop := (String.utf8EncodeChar c).all Http.isVisibleAscii = true

instance (c : Char) : Decidable (Visible c) := inferInstanceAs (Decidable (_ = true))

lemma all_visible_iff {s : Str} : (utf8 s).all Http.isVisibleAscii = true ↔ ∀ c ∈ s, Visible c := by
  rw [utf8, List.all_flatMap, List.all_eq_true]
  rfl

lemma isSome_fromStr_of_visible {s : Str} (h : ∀ c ∈ s, Visible c) :
    (Http.HeaderValue.fromStr s).isSome = true := by
  refine isSome_fromStr_iff.mpr (fun c hc => List.all_eq_true.mpr (fun b hb => ?_))
  have hvisible := List.all_eq_true.mp (h c hc) b hb
  simp only [Http.isVisibleAscii, Bool.or_eq_true, Bool.and_eq_true, decide_eq_true_eq] at hvisible
  simp only [Http.isHeaderByte, Bool.or_eq_true, Bool.and_eq_true, decide_eq_true_eq]
  refine hvisible.imp_left (fun hrange => ⟨hrange.1, ?_⟩)
  rintro rfl
  exact absurd hrange.2 (by decide)

lemma visible_of_isDigit {c : Char} (h : c.isDigit = true) : Visible c := by
  simp only [Char.isDigit, ge_iff_le, Bool.and_eq_true, decide_eq_true_eq, UInt32.le_iff_toNat_le] at h
  have hlow : 48 ≤ c.toNat := h.1
  have hhigh : c.toNat ≤ 57 := h.2
  rw [← Char.ofNat_toNat c]
  generalize c.toNat = n at hlow hhigh
  interval_cases n <;> decide

lemma visible_toString (n : Int) : ∀ c ∈ (toString n).toList, Visible c := by
  intro c hc
  rcases chars_of_int n c hc with hdigit | rfl
  · exact visible_of_isDigit hdigit
  · decide

lemma forall_dropped_attributes (name : Str) {path : Str} {domain : Option Str} {P Q : Str → Prop}
    (hpath : P "Path".toList) (hage : P "Max-Age".toList) (hdomain : P "Domain".toList) (hzero : Q "0".toList)
    (hvalue : Q path) (hvalues : ∀ d ∈ domain, Q d) :
    ∀ a ∈ (dropped name path domain).attributes, P a.1 ∧ ∀ v ∈ a.2, Q v := by
  refine List.forall_mem_append.mpr
    ⟨List.forall_mem_cons.mpr ⟨⟨hpath, ?_⟩, List.forall_mem_singleton.mpr ⟨hage, ?_⟩⟩, ?_⟩
  · exact fun v hv => Option.some.inj hv ▸ hvalue
  · exact fun v hv => Option.some.inj hv ▸ hzero
  · cases domain with
    | none => exact List.forall_mem_nil _
    | some d => exact List.forall_mem_singleton.mpr ⟨hdomain, fun v hv => Option.some.inj hv ▸ hvalues d rfl⟩

variable {dev : Bool} {call : CookieCall}

lemma cookie_plain (h : PlainCall call) : (CookieCall.cookie dev call).Plain := by
  cases call with
  | set name value flags =>
    obtain ⟨hname, hvalue, hpath, hsite, hdomain⟩ := h
    exact (asked_plain_iff dev name value flags).mpr ⟨⟨hname.unassigned, hname.undelimited⟩, hvalue.undelimited,
      hpath.undelimited, hsite.undelimited, fun d hd => (hdomain d hd).undelimited⟩
  | delete name path domain =>
    obtain ⟨hname, hpath, hdomain⟩ := h
    have hattributes := forall_dropped_attributes name (P := fun s => '=' ∉ s ∧ ';' ∉ s) (Q := fun v => ';' ∉ v)
      (by decide) (by decide) (by decide) (by decide) hpath.undelimited (fun d hd => (hdomain d hd).undelimited)
    exact ⟨⟨hname.unassigned, hname.undelimited⟩, List.not_mem_nil, fun a ha => and_assoc.mp (hattributes a ha)⟩

lemma Word.chars {s : Str} (h : Word s) : ∀ c ∈ s, Visible c := all_visible_iff.mp h.visible

lemma cookie_visible (h : PlainCall call) : ∀ c ∈ (CookieCall.cookie dev call).text, Visible c := by
  rw [forall_mem_text (P := Visible) (by decide) (by decide) (by decide)]
  cases call with
  | set name value flags =>
    obtain ⟨hname, hvalue, hpath, hsite, hdomain⟩ := h
    refine ⟨hname.chars, hvalue.chars, ?_⟩
    refine (forall_asked_attributes dev name value flags (P := fun s => ∀ c ∈ s, Visible c)
      (Q := fun s => ∀ c ∈ s, Visible c) (all_visible_iff.mp rfl) (all_visible_iff.mp rfl) (all_visible_iff.mp rfl)
      (all_visible_iff.mp rfl) (all_visible_iff.mp rfl) (all_visible_iff.mp rfl) visible_toString).mpr ?_
    refine List.forall_mem_append.mpr
      ⟨List.forall_mem_cons.mpr ⟨hpath.chars, List.forall_mem_singleton.mpr hsite.chars⟩, ?_⟩
    exact fun d hd => (hdomain d (Option.mem_toList.mp hd)).chars
  | delete name path domain =>
    obtain ⟨hname, hpath, hdomain⟩ := h
    exact ⟨hname.chars, List.forall_mem_nil _, forall_dropped_attributes name (P := fun s => ∀ c ∈ s, Visible c)
      (Q := fun s => ∀ c ∈ s, Visible c) (all_visible_iff.mp rfl) (all_visible_iff.mp rfl) (all_visible_iff.mp rfl)
      (all_visible_iff.mp rfl) hpath.chars (fun d hd => (hdomain d hd).chars)⟩

lemma readLine_header (h : PlainCall call) (visit : Visit) (now : Nat) :
    readLine visit now (call.header dev) = wanted dev visit now call := by
  rw [readLine, header_eq, (parseSetCookie_text_iff _).mpr (cookie_plain h)]
  cases call with
  | set name value flags =>
    obtain ⟨hname, hvalue, hpath, hsite, hdomain⟩ := h
    have hdomains : flags.domain.map strip = flags.domain := by
      cases hd : flags.domain with
      | none => rfl
      | some d => rw [Option.map_some, (hdomain d hd).strip]
    have hnames : strip (asked dev name value flags).name = name := hname.strip
    have hvalues : strip (asked dev name value flags).value = value := hvalue.strip
    simp only [CookieCall.cookie, asked_domain, asked_path, asked_secure, asked_maxAge, hdomains,
      hpath.strip, wanted,
      hnames, hvalues, hname.nonempty, bind, Option.bind_some, decide_false, Bool.false_or]
  | delete name path domain =>
    obtain ⟨hname, hpath, hdomain⟩ := h
    have hdomains : attributeOf (dropped name path domain) "Domain" = domain.map strip := by cases domain <;> rfl
    have hpaths : attributeOf (dropped name path domain) "Path" = some (strip path) := by cases domain <;> rfl
    have hsecure : attributeOf (dropped name path domain) "Secure" = none := by cases domain <;> rfl
    have hage : (attributeOf (dropped name path domain) "Max-Age").bind readAge = some 0 := by cases domain <;> rfl
    have hnames : strip (dropped name path domain).name = name := hname.strip
    have hsame : domain.map strip = domain := by
      cases hd : domain with
      | none => rfl
      | some d => rw [Option.map_some, (hdomain d hd).strip]
    simp only [CookieCall.cookie, hdomains, hpaths, hsecure, hage, hpath.strip, hsame, wanted, hnames,
      hname.nonempty,
      bind, Option.bind_some, decide_false, Bool.false_or]
    rfl

lemma served_lines {e : Exchange} (h : e.Served dev) (hplain : ∀ call ∈ e.calls, PlainCall call) :
    (e.response.headers.getAll setCookie).map Http.HeaderValue.bytes =
      (e.calls.map (CookieCall.header dev)).map utf8 := by
  obtain ⟨resp, headers, hreads, hfree, metadata', compressFull, inferred, body, useBrotli, requestId,
    order, logged,
    hrun, horder, hbuilt⟩ := h
  obtain ⟨metadata'', resp', headers', hrun', hreads', hsame, -, -⟩ := runCalls_reads hreads dev e.calls
  obtain rfl := Option.some.inj (hrun.symm.trans hrun')
  have hcookies : (List.map (fun call => Value.string (CookieCall.header dev call)) e.calls).filterMap
    Value.asStr =
      e.calls.map (CookieCall.header dev) := by
    rw [List.filterMap_map, ← List.filterMap_eq_map]
    rfl
  have hvalid : ∀ s ∈ (ownEntry (Response.headersOf headers') cookieKey).flatMap strings,
      (Http.HeaderValue.fromStr s).isSome := by
    rw [ownEntry_of_reads hreads', List.nil_append, hcookies]
    intro s hs
    obtain ⟨call, hcall, rfl⟩ := List.mem_map.mp hs
    rw [header_eq]
    exact isSome_fromStr_of_visible (cookie_visible (hplain call hcall))
  have hagree : OthersAgree (Response.headersOf headers') setCookie cookieKey := by
    intro entry hentry hname hne
    have hold := (mem_headersOf_of_sameBut hreads.headersDistinct hreads'.headersDistinct hsame.headers hne).mp
      hentry
    exact absurd hname (hfree entry hold)
  have hextract : (Response.extractHttpResponseMeta metadata').headers = Response.headersOf headers' := by
    rw [extract_of_reads hreads']
  have hanswers : ¬ Unanswerable (Response.extractHttpResponseMeta metadata') := by
    intro hnever
    refine everyResponse_of_unanswerable ?_ hnever setCookie (fun _ => False) _ _ _ _ _ _ _ _ horder hbuilt
    rw [hextract]
    exact headersOf_nodup _
  rw [← hextract] at hvalid hagree
  have hn : ((Response.extractHttpResponseMeta metadata').headers.map Prod.fst).Nodup := by
    rw [hextract]
    exact headersOf_nodup _
  have hlines := (carriesLines_own_iff unowned_setCookie (by decide) hn hanswers hvalid).mpr hagree
  rw [hextract, ownEntry_of_reads hreads', List.nil_append, hcookies] at hlines
  exact hlines _ _ _ _ _ _ _ _ horder hbuilt

lemma receive_eq {e : Exchange} (h : e.Served dev) (hplain : ∀ call ∈ e.calls, PlainCall call) (jar : Jar) :
    receive jar e = (e.calls.filterMap (wanted dev e.visit e.now)).foldl put jar := by
  have hlines : (e.response.headers.getAll setCookie).filterMap
        (fun v => readLine e.visit e.now (fromUtf8Lossy v.bytes)) =
      ((e.response.headers.getAll setCookie).map Http.HeaderValue.bytes).filterMap
        (fun bytes => readLine e.visit e.now (fromUtf8Lossy bytes)) := by
    rw [List.filterMap_map]
    rfl
  rw [receive, hlines, served_lines h hplain, List.filterMap_map, List.filterMap_map]
  congr 1
  apply List.filterMap_congr
  intro call hcall
  simp only [Function.comp, fromUtf8Lossy_utf8, readLine_header (hplain call hcall)]

lemma jarAfter_eq {exchanges : List Exchange} (hserved : ∀ e ∈ exchanges, e.Served dev)
    (hplain : ∀ e ∈ exchanges, ∀ call ∈ e.calls, PlainCall call) :
    jarAfter exchanges = putAll (history dev exchanges) := by
  induction exchanges using List.reverseRecOn with
  | nil => rfl
  | append_singleton exchanges e ih =>
    have hlast : e ∈ exchanges ++ [e] := List.mem_concat_self
    have ih := ih (fun x hx => hserved x (List.mem_append_left _ hx))
      (fun x hx => hplain x (List.mem_append_left _ hx))
    rw [jarAfter, List.foldl_concat, ← jarAfter, ih, receive_eq (hserved e hlast) (hplain e hlast), putAll, putAll,
      ← List.foldl_append, history, history, List.flatMap_append, List.flatMap_singleton]

lemma word_nil : Word [] where
  trimmed := by simp [Cookies.Trimmed]
  undelimited := List.not_mem_nil
  visible := rfl

lemma wanted_word {visit : Visit} {now : Nat} {e : Entry Key Kept} (h : PlainCall call)
    (hwanted : wanted dev visit now call = some e) : Name e.key.name ∧ Word e.value.value := by
  cases call with
  | set name value flags =>
    obtain ⟨scope, _, hkept⟩ := Option.bind_eq_some_iff.mp hwanted
    dsimp only at hkept
    split at hkept
    · cases hkept
    · obtain rfl := Option.some.inj hkept
      exact ⟨h.1, h.2.1⟩
  | delete name path domain =>
    obtain ⟨scope, _, hkept⟩ := Option.bind_eq_some_iff.mp hwanted
    obtain rfl := Option.some.inj hkept
    exact ⟨h.1, word_nil⟩

section

variable {exchanges : List Exchange}

lemma mem_history {e : Entry Key Kept} (h : e ∈ history dev exchanges)
    (hplain : ∀ e ∈ exchanges, ∀ call ∈ e.calls, PlainCall call) : Name e.key.name ∧ Word e.value.value := by
  obtain ⟨x, hx, hmem⟩ := List.mem_flatMap.mp h
  obtain ⟨call, hcall, hwanted⟩ := List.mem_filterMap.mp hmem
  exact wanted_word (hplain x hx call hcall) hwanted

lemma eq_toList_of_mem_iff {α : Type} {l : List α} {o : Option α} (hn : l.Nodup) (h : ∀ x, x ∈ l ↔ o = some x) :
    l = o.toList := by
  cases o with
  | none => exact List.eq_nil_iff_forall_not_mem.mpr (fun x hx => by cases (h x).mp hx)
  | some z =>
    have hperm : l.Perm [z] := by
      refine (List.perm_ext_iff_of_nodup hn (List.nodup_singleton z)).mpr (fun x => ?_)
      rw [h x, List.mem_singleton, Option.some_inj, eq_comm]
    exact List.perm_singleton.mp hperm

def current (entries : List (Entry Key Kept)) (visit : Visit) (now : Nat) (name : Str) : Option (Entry Key Kept) :=
  (entries.filter (fun e => e.key.name = name)).getLast?.filter (fun e => Sends visit now e)

lemma sent_of_name {entries sent : List (Entry Key Kept)} {visit : Visit} {now : Nat}
    (hsent : sent.Perm ((putAll entries).filter (fun e => Sends visit now e))) {name : Str} {key : Key}
    (hkey : ∀ e ∈ entries, e.key.name = name → e.key = key) :
    sent.filter (fun e => e.key.name = name) = (current entries visit now name).toList := by
  have hnodup : sent.Nodup := hsent.nodup_iff.mpr ((nodup_putAll entries).of_map.filter _)
  refine eq_toList_of_mem_iff (hnodup.filter _) (fun x => ?_)
  rw [List.mem_filter, hsent.mem_iff, List.mem_filter, mem_putAll, current, Option.filter_eq_some_iff,
    decide_eq_true_eq,
    decide_eq_true_eq]
  have hsame : ∀ x ∈ entries, x.key.name = name →
      entries.filter (fun e => e.key = x.key) = entries.filter (fun e => e.key.name = name) := by
    intro x hx hname
    refine List.filter_congr (fun e he => ?_)
    rw [decide_eq_decide]
    constructor
    · intro heq
      rw [heq, hname]
    · intro heq
      rw [hkey e he heq, hkey x hx hname]
  constructor
  · rintro ⟨⟨hlast, hsends⟩, hname⟩
    have hx : x ∈ entries := (List.mem_filter.mp (List.mem_of_getLast? hlast)).1
    exact ⟨hsame x hx hname ▸ hlast, hsends⟩
  · rintro ⟨hlast, hsends⟩
    obtain ⟨hx, hname⟩ := List.mem_filter.mp (List.mem_of_getLast? hlast)
    have hname := of_decide_eq_true hname
    exact ⟨⟨(hsame x hx hname).symm ▸ hlast, hsends⟩, hname⟩

lemma toStr_of_visible {v : Http.HeaderValue} {s : Str} (hv : v.bytes = utf8 s) (h : ∀ c ∈ s, Visible c) :
    v.toStr = some s := by
  have hvisible : v.visible = true := by rw [Http.HeaderValue.visible, hv, all_visible_iff.mpr h]
  have hchars : v.chars = s := utf8_injective ((utf8_chars hvisible).trans hv)
  rw [Http.HeaderValue.toStr, if_pos hvisible, hchars]

lemma cookieParse_sent {request : RequestParts} {sent : Jar} (hcarries : Carries request sent)
    (hsent : ∀ e ∈ sent, Name e.key.name ∧ Word e.value.value) :
    ∃ cookies, Cookies.cookieParse (requestToValue request) = some cookies ∧
      ∀ name, cookies.get name =
        (sent.filter (fun e => e.key.name = name)).getLast?.map (fun e => .string e.value.value) := by
  let parts : List Cookies.Part := sent.map (fun e => .inl (e.key.name, e.value.value))
  have hplain : ∀ part ∈ parts, part.Plain := by
    intro part hpart
    obtain ⟨e, he, rfl⟩ := List.mem_map.mp hpart
    obtain ⟨hname, hvalue⟩ := hsent e he
    exact ⟨hname.unassigned, hname.undelimited, hname.trimmed, hvalue.undelimited, hvalue.trimmed⟩
  have htext : parts.map Cookies.Part.text = sent.map cookieText := by
    rw [List.map_map]
    rfl
  have hheader : ((request.headers.getAll "cookie".toList).getLast?.bind Http.HeaderValue.toStr).getD [] =
      "; ".toList.intercalate (sent.map cookieText) := by
    rw [Carries] at hcarries
    split at hcarries
    · rename_i hnone
      rw [hcarries, hnone]
      rfl
    · obtain ⟨v, hall, hv⟩ := hcarries
      have hvisible : ∀ c ∈ "; ".toList.intercalate (sent.map cookieText), Visible c := by
        refine (forall_mem_intercalate (P := Visible) (all_visible_iff.mp rfl) _).mpr (fun l hl => ?_)
        obtain ⟨e, he, rfl⟩ := List.mem_map.mp hl
        obtain ⟨hname, hvalue⟩ := hsent e he
        exact List.forall_mem_append.mpr ⟨hname.chars, List.forall_mem_cons.mpr ⟨by decide, hvalue.chars⟩⟩
      rw [hall, List.getLast?_singleton, Option.bind_some, toStr_of_visible hv hvisible, Option.getD_some]
  refine ⟨_, Cookies.cookieParse_requestToValue request, fun name => ?_⟩
  rw [hheader, ← htext, Cookies.get_parseCookies_join hplain]
  have hpairs : parts.filterMap Cookies.Part.pair? = sent.map (fun e => (e.key.name, e.value.value)) := by
    rw [List.filterMap_map, ← List.filterMap_eq_map]
    rfl
  rw [hpairs, List.filter_map, List.getLast?_map, Option.map_map]
  rfl

/-- A request brings back what the last call for a name set, until it was deleted or has expired. -/
theorem session_remembers (dev : Bool) (exchanges : List Exchange) (hserved : ∀ e ∈ exchanges, e.Served dev)
    (hplain : ∀ e ∈ exchanges, ∀ call ∈ e.calls, PlainCall call) (visit : Visit) (now : Nat) (sent : Jar)
    (hsent : sent.Perm ((jarAfter exchanges).filter (fun e => Sends visit now e))) (request : RequestParts)
    (hcarries : Carries request sent) :
    ∃ cookies, Cookies.cookieParse (requestToValue request) = some cookies ∧
      ∀ name key, (∀ e ∈ history dev exchanges, e.key.name = name → e.key = key) →
        cookies.get name =
          (current (history dev exchanges) visit now name).map (fun e => .string e.value.value) := by
  rw [jarAfter_eq hserved hplain] at hsent
  have hwords : ∀ e ∈ sent, Name e.key.name ∧ Word e.value.value := by
    intro e he
    have hkept := mem_putAll.mp (List.mem_filter.mp (hsent.mem_iff.mp he)).1
    exact mem_history (List.mem_filter.mp (List.mem_of_getLast? hkept)).1 hplain
  obtain ⟨cookies, hparse, hget⟩ := cookieParse_sent hcarries hwords
  refine ⟨cookies, hparse, fun name key hkey => ?_⟩
  rw [hget, sent_of_name hsent hkey]
  cases current (history dev exchanges) visit now name <;> rfl

end

def shop : Visit := ⟨"shop.test".toList, "/login".toList, true⟩

def loginCalls : List CookieCall :=
  [.set "session".toList "abc=1".toList { maxAge := some 3600 },
    .set "theme".toList "dark".toList { maxAge := some 60, path := "/shop".toList }]

def logoutCalls : List CookieCall := [.delete "session".toList "/".toList none]

def cart : RequestParts where
  proto := "HTTP/1.1".toList
  method := "GET".toList
  authority := none
  remoteIp := none
  remotePort := none
  trustedIp := none
  headers := ⟨[("cookie".toList, ⟨utf8 "theme=dark".toList, by decide⟩)]⟩
  uri := ⟨"/shop/cart".toList, none, "/shop/cart".toList, none⟩
  path := "/shop/cart".toList
  query := []

lemma served_of_built {metadata : Option Metadata} {calls : List CookieCall} {logged : List Logging.Event}
    {response : NormalResponse} (hrun : runCalls dev calls none = some metadata)
    (hbuilt : buildNormalResponse Except.ok (none, Response.extractHttpResponseMeta metadata, .empty) false 0 =
      (logged, .ok response)) (now : Nat) (visit : Visit) :
    Exchange.Served dev ⟨now, visit, none, calls, response⟩ := by
  have htyped : ∀ v, Record.get (metadataRecord none) contentTypeKey = some v → ∃ ct, v = .string ct := by
    intro v hv
    cases hv
  exact ⟨[], [], ⟨List.nodup_nil, htyped, rfl, List.nodup_nil, rfl, List.nodup_nil, rfl⟩, List.forall_mem_nil _,
    metadata, Except.ok, none, .empty, false, 0, _, logged, hrun, List.Perm.refl _, hbuilt⟩

instance (s : Str) : Decidable (Cookies.Trimmed s) :=
  decidable_of_iff (s.head?.all (fun c => !isTrimmable c) ∧ s.getLast?.all (fun c => !isTrimmable c))
    (by simp [Cookies.Trimmed, Option.all_eq_true])

lemma login_plain : ∀ call ∈ loginCalls, PlainCall call := by
  have hslash : Word "/".toList := ⟨by decide, by decide, by decide⟩
  have hlax : Word "Lax".toList := ⟨by decide, by decide, by decide⟩
  have hdomain : ∀ d ∈ (none : Option Str), Word d := by
    intro d hd
    cases hd
  refine List.forall_mem_cons.mpr ⟨?_, List.forall_mem_singleton.mpr ?_⟩
  · exact ⟨⟨⟨by decide, by decide, by decide⟩, by decide, by decide⟩,
      ⟨by decide, by decide, by decide⟩, hslash, hlax,
      hdomain⟩
  · exact ⟨⟨⟨by decide, by decide, by decide⟩, by decide, by decide⟩, ⟨by decide, by decide, by decide⟩,
      ⟨by decide, by decide, by decide⟩, hlax, hdomain⟩

lemma logout_plain : ∀ call ∈ logoutCalls, PlainCall call := by
  have hdomain : ∀ d ∈ (none : Option Str), Word d := by
    intro d hd
    cases hd
  exact List.forall_mem_singleton.mpr
    ⟨⟨⟨by decide, by decide, by decide⟩, by decide, by decide⟩, ⟨by decide, by decide, by decide⟩, hdomain⟩

theorem session_remembers_theme :
    ∃ login logout : Exchange, login.calls = loginCalls ∧ logout.calls = logoutCalls ∧
      (∀ e ∈ [login, logout], e.Served false) ∧
      ∃ cookies, Cookies.cookieParse (requestToValue cart) = some cookies ∧
        cookies.get "theme".toList = some (.string "dark".toList) ∧ cookies.get "session".toList = none := by
  obtain ⟨first, hfirst⟩ : ∃ response, Exchange.Served false ⟨0, shop, none, loginCalls, response⟩ :=
    ⟨_, served_of_built rfl rfl 0 shop⟩
  obtain ⟨second, hsecond⟩ : ∃ response, Exchange.Served false ⟨30, shop, none, logoutCalls, response⟩ :=
    ⟨_, served_of_built rfl rfl 30 shop⟩
  have hserved : ∀ e ∈ [⟨0, shop, none, loginCalls, first⟩, ⟨30, shop, none, logoutCalls, second⟩],
      Exchange.Served false e := List.forall_mem_cons.mpr ⟨hfirst, List.forall_mem_singleton.mpr hsecond⟩
  have hplain : ∀ e ∈ [(⟨0, shop, none, loginCalls, first⟩ : Exchange), ⟨30, shop, none, logoutCalls, second⟩],
      ∀ call ∈ e.calls, PlainCall call :=
    List.forall_mem_cons.mpr ⟨login_plain, List.forall_mem_singleton.mpr logout_plain⟩
  let theme : Key := ⟨"theme".toList, shop.host, "/shop".toList⟩
  let session : Key := ⟨"session".toList, shop.host, "/".toList⟩
  have hhistory : history false [⟨0, shop, none, loginCalls, first⟩, ⟨30, shop, none, logoutCalls, second⟩] =
      [⟨session, ⟨"abc=1".toList, true, true⟩, some 3600⟩, ⟨theme, ⟨"dark".toList, true, true⟩, some 60⟩,
        ⟨session, ⟨[], true, false⟩, some 0⟩] := rfl
  have hcarries : Carries cart [⟨theme, ⟨"dark".toList, true, true⟩, some 60⟩] := ⟨_, rfl, rfl⟩
  have hsent : [⟨theme, ⟨"dark".toList, true, true⟩, some 60⟩].Perm ((jarAfter [⟨0, shop, none, loginCalls, first⟩,
      ⟨30, shop, none, logoutCalls, second⟩]).filter
        (fun e => Sends ⟨shop.host, "/shop/cart".toList, true⟩ 40 e)) := by
    rw [jarAfter_eq hserved hplain, hhistory]
    exact List.Perm.of_eq rfl
  obtain ⟨cookies, hparse, hget⟩ := session_remembers false _ hserved hplain _ 40 _ hsent cart hcarries
  rw [hhistory] at hget
  exact ⟨_, _, rfl, rfl, hserved, cookies, hparse, hget "theme".toList theme (by decide),
    hget "session".toList session (by decide)⟩

end HttpNu.Stdlib.CookieSession
