import HttpNu.Request.RequestValue
import HttpNu.Worker

/-! The router: routes tried in order, and handlers mounted under a part of the path. -/

namespace HttpNu.Stdlib.Router

open Text
open Worker (PipelineData Outcome)

/-- A request as a handler receives it: no column is there twice. -/
@[ext] structure RequestRecord where
  fields : Record
  distinct : fields.columns.Nodup

namespace RequestRecord

def follow (req : RequestRecord) (col : Str) : Option Value := req.fields.follow col

def upsert (req : RequestRecord) (col : Str) (v : Value) : RequestRecord :=
  ⟨req.fields.upsert col v, Record.nodup_upsert req.distinct col v⟩

@[simp] lemma follow_upsert_self (req : RequestRecord) (col : Str) (v : Value) :
    (req.upsert col v).follow col = some v := by
  rw [follow, Record.follow_eq_get (req.upsert col v).distinct]
  exact Record.get_upsert_self ..

lemma follow_upsert_ne (req : RequestRecord) {col other : Str} (h : other ≠ col) (v : Value) :
    (req.upsert col v).follow other = req.follow other := by
  rw [follow, follow, Record.follow_eq_get (req.upsert col v).distinct, Record.follow_eq_get req.distinct]
  exact Record.get_upsert_ne _ h v

def ofParts (request : RequestParts) : RequestRecord :=
  ⟨Request.requestToValue request, Request.columns_requestToValue request⟩

end RequestRecord

abbrev Handler := PipelineData → RequestRecord → Outcome

/-- A test that gives a context or null, and a handler that takes the context as well; errors are their texts. -/
structure Route where
  test : RequestRecord → Except Str (Option Record)
  handle : PipelineData → RequestRecord → Record → Outcome

def asText (col : Str) : Option Value → Except Str Str
  | some (.string s) => .ok s
  | some _ => .error "Input type not supported.".toList
  | none => .error ("Cannot find column '".toList ++ col ++ "'".toList)

def pathOf (req : RequestRecord) : Except Str Str := asText "path".toList (req.follow "path".toList)

/-- `metadata set { merge {'http.response': ..} }` on a string -/
def withHttpResponse (body : Str) (response : Record) : Outcome :=
  .ok (.value (.string body) (some ⟨none, [("http.response".toList, .record response)]⟩))

def fallback : Route where
  test _ := .ok (some [])
  handle _ _ _ := withHttpResponse "No route configured".toList [("status".toList, .int 501)]

def findMatch (req : RequestRecord) : List Route → Except Str (Route × Record)
  | [] => .ok (fallback, [])
  | rt :: routes =>
    match rt.test req with
    | .error err => .error err
    | .ok (some ctx) => .ok (rt, ctx)
    | .ok none => findMatch req routes

def dispatchExecute (body : PipelineData) (found : Route × Record) (req : RequestRecord) : Outcome :=
  found.1.handle body req found.2

def dispatch (body : PipelineData) (req : RequestRecord) (routes : List Route) : Outcome :=
  match findMatch req routes with
  | .error err => .err err
  | .ok found => dispatchExecute body found req

def strLength (s : Str) : Nat := (utf8 s).length

/-- `str substring n..`, in bytes; what is left of a character that is cut is not readable. -/
def substringFrom : Nat → Str → Str
  | _, [] => []
  | n, c :: s =>
    if n = 0 then c :: s
    else if c.utf8Size ≤ n then substringFrom (n - c.utf8Size) s
    else List.replicate (c.utf8Size - n) '\uFFFD' ++ s

variable (R : Rendering)

def mountPrefix (req : RequestRecord) : Str :=
  match req.follow "mount_prefix".toList with
  | none => []
  | some .nothing => []
  | some (.string s) => s
  | some other => R.toExpandedString other

def href (req : RequestRecord) (path : Str) : Str := mountPrefix R req ++ path

def redirect (location : Str) : Outcome :=
  withHttpResponse [] [("status".toList, .int 302),
    ("headers".toList, .record [("location".toList, .string location)])]

def mounted (mountedAt path : Str) (req : RequestRecord) : RequestRecord :=
  (req.upsert "path".toList (.string (substringFrom (strLength mountedAt) path))).upsert "mount_prefix".toList
    (.string (mountPrefix R req ++ mountedAt))

def mount (mountedAt : Str) (handler : Handler) : Route where
  test req := do
    let path ← pathOf req
    return if path = mountedAt ∨ mountedAt ++ ['/'] <+: path then
      some [("prefix".toList, .string mountedAt)] else none
  handle body req ctx :=
    match (do return (← pathOf req, ← asText "prefix".toList (Record.follow ctx "prefix".toList))) with
    | .error err => .err err
    | .ok (path, mountedAt) =>
      if path = mountedAt then redirect (mountedAt ++ ['/']) else handler body (mounted R mountedAt path req)

structure Level where
  before : List Route
  mountedAt : Str
  after : List Route

def Level.routes (level : Level) (next : Handler) : List Route :=
  level.before ++ mount R level.mountedAt next :: level.after

def chain : List Level → Handler → Handler
  | [], inner => inner
  | level :: levels, inner => fun body req => dispatch body req (level.routes R (chain levels inner))

def prefixes (levels : List Level) : Str := levels.flatMap Level.mountedAt

def Reaches (levels : List Level) (req received : RequestRecord) : Prop :=
  ∀ inner body, chain R levels inner body req = inner body received

variable {R}

lemma substringFrom_zero (s : Str) : substringFrom 0 s = s := by cases s <;> simp [substringFrom]

lemma substringFrom_append (s t : Str) : substringFrom (strLength s) (s ++ t) = t := by
  induction s with
  | nil => exact substringFrom_zero t
  | cons c s ih =>
    have hlength : strLength (c :: s) = c.utf8Size + strLength s := length_utf8_cons c s
    have hpos := c.utf8Size_pos
    rw [hlength, List.cons_append, substringFrom, if_neg (by omega), if_pos (by omega),
      Nat.add_sub_cancel_left, ih]

lemma findMatch_skip {req : RequestRecord} {before : List Route} (h : ∀ rt ∈ before, rt.test req = .ok none)
    (routes : List Route) : findMatch req (before ++ routes) = findMatch req routes := by
  induction before with
  | nil => rfl
  | cons rt before ih =>
    rw [List.cons_append, findMatch, h rt List.mem_cons_self]
    exact ih (fun rt' hmem => h rt' (List.mem_cons_of_mem rt hmem))

lemma findMatch_before (req : RequestRecord) (before : List Route) :
    (∀ rt ∈ before, rt.test req = .ok none) ∨ ∃ found, ∀ routes, findMatch req (before ++ routes) = found := by
  induction before with
  | nil => exact Or.inl nofun
  | cons rt before ih =>
    cases ht : rt.test req with
    | error err => exact Or.inr ⟨.error err, fun routes => by rw [List.cons_append, findMatch, ht]⟩
    | ok ctx =>
      cases ctx with
      | some ctx => exact Or.inr ⟨.ok (rt, ctx), fun routes => by rw [List.cons_append, findMatch, ht]⟩
      | none =>
        rcases ih with hpass | ⟨found, hfound⟩
        · exact Or.inl (List.forall_mem_cons.mpr ⟨ht, hpass⟩)
        · exact Or.inr ⟨found, fun routes => by rw [List.cons_append, findMatch, ht]; exact hfound routes⟩

def Level.Passes (level : Level) (req : RequestRecord) : Prop := ∀ rt ∈ level.before, rt.test req = .ok none

lemma boundary_ne {mountedAt path : Str} (h : mountedAt ++ ['/'] <+: path) : path ≠ mountedAt := by
  rintro rfl
  have hlength := h.length_le
  simp at hlength

lemma mount_test {req : RequestRecord} {path : Str} (h : pathOf req = .ok path) (mountedAt : Str)
    (handler : Handler) :
    (mount R mountedAt handler).test req =
      .ok (if path = mountedAt ∨ mountedAt ++ ['/'] <+: path then some [("prefix".toList, .string mountedAt)]
        else none) := by
  simp only [mount, h]
  rfl

lemma mount_test_error {req : RequestRecord} {err : Str} (h : pathOf req = .error err) (mountedAt : Str)
    (handler : Handler) : (mount R mountedAt handler).test req = .error err := by
  simp only [mount, h]
  rfl

lemma mount_handle {req : RequestRecord} {path : Str} (h : pathOf req = .ok path) (mountedAt : Str)
    (handler : Handler) (body : PipelineData) :
    (mount R mountedAt handler).handle body req [("prefix".toList, .string mountedAt)] =
      if path = mountedAt then redirect (mountedAt ++ ['/']) else handler body (mounted R mountedAt path req) := by
  simp only [mount, h]
  rfl

lemma dispatch_mount {level : Level} {req : RequestRecord} {path : Str} (hpass : level.Passes req)
    (hpath : pathOf req = .ok path) (haccept : path = level.mountedAt ∨ level.mountedAt ++ ['/'] <+: path)
    (next : Handler) (body : PipelineData) :
    dispatch body req (level.routes R next) =
      if path = level.mountedAt then redirect (level.mountedAt ++ ['/'])
      else next body (mounted R level.mountedAt path req) := by
  rw [dispatch, Level.routes, findMatch_skip hpass, findMatch, mount_test hpath, if_pos haccept]
  exact mount_handle hpath level.mountedAt next body

lemma dispatch_mounted {level : Level} {req : RequestRecord} {path : Str} (hpass : level.Passes req)
    (hpath : pathOf req = .ok path) (hbound : level.mountedAt ++ ['/'] <+: path) (next : Handler)
    (body : PipelineData) :
    dispatch body req (level.routes R next) = next body (mounted R level.mountedAt path req) := by
  rw [dispatch_mount hpass hpath (Or.inr hbound), if_neg (boundary_ne hbound)]

lemma dispatch_redirect {level : Level} {req : RequestRecord} (hpass : level.Passes req)
    (hpath : pathOf req = .ok level.mountedAt) (next : Handler) (body : PipelineData) :
    dispatch body req (level.routes R next) = redirect (level.mountedAt ++ ['/']) := by
  rw [dispatch_mount hpass hpath (Or.inl rfl), if_pos rfl]

lemma dispatch_elsewhere (level : Level) (req : RequestRecord) :
    (level.Passes req ∧ ∃ path, pathOf req = .ok path ∧ level.mountedAt ++ ['/'] <+: path) ∨
      ∃ outcome : PipelineData → Outcome, ∀ next body, dispatch body req (level.routes R next) = outcome body := by
  rcases findMatch_before req level.before with hpass | ⟨found, hfound⟩
  · cases hpath : pathOf req with
    | error err =>
      refine Or.inr ⟨fun _ => .err err, fun next body => ?_⟩
      rw [dispatch, Level.routes, findMatch_skip hpass, findMatch, mount_test_error hpath]
    | ok path =>
      by_cases hbound : level.mountedAt ++ ['/'] <+: path
      · exact Or.inl ⟨hpass, path, rfl, hbound⟩
      by_cases heq : path = level.mountedAt
      · exact Or.inr ⟨fun _ => _, fun next body => dispatch_redirect hpass (heq ▸ hpath) next body⟩
      · refine Or.inr ⟨fun body => dispatch body req level.after, fun next body => ?_⟩
        rw [dispatch, Level.routes, findMatch_skip hpass, findMatch, mount_test hpath,
          if_neg (not_or.mpr ⟨heq, hbound⟩), ← dispatch]
  · refine Or.inr ⟨fun body => dispatch body req level.before, fun next body => ?_⟩
    have hbefore := hfound []
    rw [List.append_nil] at hbefore
    simp only [dispatch, Level.routes, hfound, hbefore]

lemma mounted_path (mountedAt rest : Str) (req : RequestRecord) :
    pathOf (mounted R mountedAt (mountedAt ++ rest) req) = .ok rest := by
  rw [pathOf, mounted, RequestRecord.follow_upsert_ne _ (by decide), RequestRecord.follow_upsert_self,
    substringFrom_append]
  rfl

lemma mounted_mountPrefix (mountedAt path : Str) (req : RequestRecord) :
    (mounted R mountedAt path req).follow "mount_prefix".toList =
      some (.string (mountPrefix R req ++ mountedAt)) :=
  RequestRecord.follow_upsert_self ..

lemma mounted_other (mountedAt path : Str) (req : RequestRecord) {col : Str} (hpath : col ≠ "path".toList)
    (hcol : col ≠ "mount_prefix".toList) : (mounted R mountedAt path req).follow col = req.follow col := by
  rw [mounted, RequestRecord.follow_upsert_ne _ hcol, RequestRecord.follow_upsert_ne _ hpath]

lemma mountPrefix_of_follow {req : RequestRecord} {s : Str}
    (h : req.follow "mount_prefix".toList = some (.string s)) :
    mountPrefix R req = s := by rw [mountPrefix, h]

lemma chain_cons (level : Level) (levels : List Level) (inner : Handler) (body : PipelineData)
    (req : RequestRecord) :
    chain R (level :: levels) inner body req = dispatch body req (level.routes R (chain R levels inner)) := rfl

lemma reaches_cons {level : Level} {levels : List Level} {req received : RequestRecord}
    (h : Reaches R (level :: levels) req received) :
    ∃ rest, pathOf req = .ok (level.mountedAt ++ '/' :: rest) ∧
      Reaches R levels (mounted R level.mountedAt (level.mountedAt ++ '/' :: rest) req) received := by
  rcases dispatch_elsewhere (R := R) level req with ⟨hpass, path, hpath, rest, rfl⟩ | ⟨outcome, hout⟩
  · rw [List.append_assoc, List.singleton_append] at hpath
    refine ⟨rest, hpath, fun inner body => ?_⟩
    rw [← h inner body, chain_cons, dispatch_mounted hpass hpath ⟨rest, by simp⟩]
  · have hconst : ∀ (inner : Handler) (body : PipelineData), inner body received = outcome body := by
      intro inner body
      rw [← h inner body, chain_cons, hout]
    have hpanic := hconst (fun _ _ => .panic) .empty
    have hempty := hconst (fun _ _ => .ok .empty) .empty
    rw [← hpanic] at hempty
    cases hempty

lemma reaches_nil {req received : RequestRecord} (h : Reaches R [] req received) : received = req := by
  by_contra hne
  have hout := h (fun _ r => open Classical in if r = req then .panic else .ok .empty) .empty
  simp [chain, hne] at hout

lemma reaches_of_mounted {level : Level} {levels : List Level} {req received : RequestRecord} {rest : Str}
    (hpass : level.Passes req) (hpath : pathOf req = .ok (level.mountedAt ++ '/' :: rest))
    (h : Reaches R levels (mounted R level.mountedAt (level.mountedAt ++ '/' :: rest) req) received) :
    Reaches R (level :: levels) req received := by
  intro inner body
  rw [chain_cons, dispatch_mounted hpass hpath ⟨rest, by simp⟩, h inner body]

/-- The invariant of the way in: what was taken from the path was added to the prefix. -/
structure Handed (R : Rendering) (taken : Str) (req received : RequestRecord) : Prop where
  path : ∃ rest, pathOf req = .ok (taken ++ '/' :: rest) ∧ pathOf received = .ok ('/' :: rest)
  mountPrefix : received.follow "mount_prefix".toList = some (.string (mountPrefix R req ++ taken))
  other : ∀ col, col ≠ "path".toList → col ≠ "mount_prefix".toList → received.follow col = req.follow col

lemma handed_mounted {mountedAt rest : Str} {req : RequestRecord}
    (h : pathOf req = .ok (mountedAt ++ '/' :: rest)) :
    Handed R mountedAt req (mounted R mountedAt (mountedAt ++ '/' :: rest) req) where
  path := ⟨rest, h, mounted_path ..⟩
  mountPrefix := mounted_mountPrefix ..
  other _ := mounted_other _ _ _

lemma Handed.trans {taken more : Str} {req mid received : RequestRecord} (h₁ : Handed R taken req mid)
    (h₂ : Handed R more mid received) : Handed R (taken ++ more) req received where
  path := by
    obtain ⟨rest, hreq, hmid⟩ := h₁.path
    obtain ⟨rest', hmid', hreceived⟩ := h₂.path
    rw [hmid] at hmid'
    refine ⟨rest', ?_, hreceived⟩
    rw [hreq, List.append_assoc, Except.ok.inj hmid']
  mountPrefix := by
    rw [h₂.mountPrefix, mountPrefix_of_follow h₁.mountPrefix, List.append_assoc]
  other col hpath hprefix := (h₂.other col hpath hprefix).trans (h₁.other col hpath hprefix)

lemma reaches_handed {level : Level} {levels : List Level} {req received : RequestRecord}
    (h : Reaches R (level :: levels) req received) : Handed R (prefixes (level :: levels)) req received := by
  induction levels generalizing level req with
  | nil =>
    obtain ⟨rest, hpath, hreach⟩ := reaches_cons h
    obtain rfl := reaches_nil hreach
    simpa [prefixes] using handed_mounted hpath
  | cons next levels ih =>
    obtain ⟨rest, hpath, hreach⟩ := reaches_cons h
    exact (handed_mounted hpath).trans (ih hreach)

lemma pathOf_ofParts (request : RequestParts) : pathOf (.ofParts request) = .ok request.path := by
  have hpath : (RequestRecord.ofParts request).follow "path".toList = some (.string request.path) := by
    rw [RequestRecord.follow, Record.follow_eq_get (RequestRecord.ofParts request).distinct]
    rfl
  rw [pathOf, hpath]
  rfl

lemma mountPrefix_ofParts (request : RequestParts) : mountPrefix R (.ofParts request) = [] := by
  have hnone : (RequestRecord.ofParts request).follow "mount_prefix".toList = none := by
    rw [Option.eq_none_iff_forall_not_mem]
    intro v hv
    have hmem := (Record.follow_eq_some_iff (RequestRecord.ofParts request).distinct).mp hv
    have hcol : "mount_prefix".toList ∈ Request.requestColumns :=
      (Request.columns_sublist request).subset (List.mem_map.mpr ⟨_, hmem, rfl⟩)
    exact absurd hcol (by decide)
  rw [mountPrefix, hnone]

theorem reaches_ofParts {level : Level} {levels : List Level} {request : RequestParts} {received : RequestRecord}
    (h : Reaches R (level :: levels) (.ofParts request) received) :
    ∃ rest, pathOf received = .ok ('/' :: rest) ∧
      received.follow "mount_prefix".toList = some (.string (prefixes (level :: levels))) ∧
      href R received ('/' :: rest) = request.path := by
  obtain ⟨⟨rest, hreq, hreceived⟩, hprefix, _⟩ := reaches_handed h
  rw [mountPrefix_ofParts, List.nil_append] at hprefix
  refine ⟨rest, hreceived, hprefix, ?_⟩
  rw [pathOf_ofParts] at hreq
  rw [href, mountPrefix_of_follow hprefix, Except.ok.inj hreq]

/-- What the innermost handler of nested mounts receives, and which paths a mount accepts. -/
theorem reaches_mounted {level : Level} {levels : List Level} {req received : RequestRecord}
    (h : Reaches R (level :: levels) req received) :
    (∃ path rest, pathOf req = .ok path ∧ pathOf received = .ok ('/' :: rest) ∧
      received.follow "mount_prefix".toList =
        some (.string (mountPrefix R req ++ prefixes (level :: levels))) ∧
      mountPrefix R received ++ '/' :: rest = mountPrefix R req ++ path ∧
      href R received ('/' :: rest) = mountPrefix R req ++ path ∧
      ∀ col, col ≠ "path".toList → col ≠ "mount_prefix".toList → received.follow col = req.follow col) ∧
    ∀ (mountedAt : Str) (handler : Handler) (any : RequestRecord) (ctx : Record),
      (mount R mountedAt handler).test any = .ok (some ctx) →
        ∃ path, pathOf any = .ok path ∧ (path = mountedAt ∨ ∃ rest, path = mountedAt ++ '/' :: rest) := by
  obtain ⟨⟨rest, hreq, hreceived⟩, hprefix, hother⟩ := reaches_handed h
  refine ⟨⟨_, rest, hreq, hreceived, hprefix, ?_, ?_, hother⟩, ?_⟩
  · rw [mountPrefix_of_follow hprefix, List.append_assoc]
  · rw [href, mountPrefix_of_follow hprefix, List.append_assoc]
  · intro mountedAt handler any ctx htest
    cases hpath : pathOf any with
    | error err =>
      rw [mount_test_error hpath] at htest
      cases htest
    | ok path =>
      rw [mount_test hpath] at htest
      split at htest
      · rename_i haccept
        refine ⟨path, rfl, haccept.imp_right ?_⟩
        rintro ⟨rest, rfl⟩
        exact ⟨rest, by simp⟩
      · cases htest

def site : Level := ⟨[], "/é".toList, []⟩
def blog : Level := ⟨[], "/blog".toList, [fallback]⟩

def post : RequestRecord := ⟨[("path".toList, .string "/é/blog/post".toList)], by decide⟩

def mountedPost : RequestRecord := mounted .plain site.mountedAt (site.mountedAt ++ '/' :: "blog/post".toList) post

def receivedPost : RequestRecord :=
  mounted .plain blog.mountedAt (blog.mountedAt ++ '/' :: "post".toList) mountedPost

lemma mountedPost_path : pathOf mountedPost = .ok (blog.mountedAt ++ '/' :: "post".toList) := by
  rw [mountedPost, mounted_path]
  rfl

lemma reaches_post : Reaches .plain [site, blog] post receivedPost := by
  have hpath : pathOf post = .ok (site.mountedAt ++ '/' :: "blog/post".toList) := rfl
  have hlast : Reaches .plain [] receivedPost receivedPost := fun _ _ => rfl
  exact reaches_of_mounted nofun hpath (reaches_of_mounted nofun mountedPost_path hlast)

theorem reaches_mounted_post : href .plain receivedPost "/post".toList = "/é/blog/post".toList := by
  obtain ⟨⟨path, rest, hpath, hrest, _, _, hhref, _⟩, _⟩ := reaches_mounted reaches_post
  obtain rfl : "/é/blog/post".toList = path := Except.ok.inj hpath
  rw [receivedPost, mounted_path] at hrest
  rw [← Except.ok.inj hrest] at hhref
  exact hhref

end HttpNu.Stdlib.Router
