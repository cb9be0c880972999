import HttpNu.Handler.ProxyTarget

/-! The path that `.static` hands to the directory, and the redirects that come of it. -/

namespace HttpNu.Handler

open Text Library UriReference Http Response Worker Logging

variable {Net : Type} (W : World Net)

/-- A parser of URIs that reads what begins with a slash as a path, up to the query or the fragment. -/
def OriginForm (parseUri : Str → Except Str Uri) : Prop :=
  ∀ text uri, parseUri text = .ok uri → text.head? = some '/' →
    uri.path = text.takeWhile (fun c => c ≠ '?' && c ≠ '#')

def staticCommand (root path : Str) (fallback : Option Str) : Response := ⟨200, [], .static root path fallback⟩

abbrev Directory := StaticRequest → Awaited (Except Str StaticResponse)

def served (config : AppConfig Net) (addr : Option (Request.IpAddr × UInt16)) (parts : Parts)
    (evaluation : Evaluation)
    (requestId : Nat) (directory : Directory) : List Event × Handled :=
  handle { W with serveDir := fun _ _ => directory } config addr parts evaluation requestId

structure CallsStatic (config : AppConfig Net) (addr : Option (Request.IpAddr × UInt16)) (parts : Parts)
    (evaluation : Evaluation) (root path : Str) (fallback : Option Str) : Prop where
  route : ¬ (config.datastar = true ∧ parts.uri.path = datastarJsPath)
  special : firstSpecial evaluation.clonePanics (evaluation.run (requestOf W config addr parts)) =
    some (staticCommand root path fallback)

/-- The directory gets this request, and what it reads is the client's. -/
def Hands (respond : Directory → List Event × Handled) (request : StaticRequest) : Prop :=
  ∃ answer : Awaited (Except Str StaticResponse) → List Event × Handled,
    (∀ directory, respond directory = answer (directory request)) ∧
    ∀ status headers bytes, ∃ guard, (answer (.ready (.ok ⟨status, headers, .ready (.ok bytes)⟩))).2 =
      .responded ⟨status, headers, .logging (.full bytes) guard⟩

/-- The directory gets the path that was passed, and its redirect, the path with a slash, names no host. -/
def StaysOnSite (respond : Directory → List Event × Handled) (path : Str) : Prop :=
  ∃ request, Hands respond request ∧ request.uri.path = path ∧ (split (request.uri.path ++ ['/'])).authority = none

def read (status : UInt16) : Awaited (Except Str StaticResponse) := .ready (.ok ⟨status, .empty, .ready (.ok [])⟩)

lemma read_ne {answer : Awaited (Except Str StaticResponse) → List Event × Handled}
    (h : ∀ status headers bytes, ∃ guard, (answer (.ready (.ok ⟨status, headers, .ready (.ok bytes)⟩))).2 =
      .responded ⟨status, headers, .logging (.full bytes) guard⟩) : answer (read 200) ≠ answer (read 404) := by
  intro hsame
  obtain ⟨guard, hok⟩ := h 200 .empty []
  obtain ⟨guard', hmissing⟩ := h 404 .empty []
  have hreply := Handled.responded.inj (hok.symm.trans ((congrArg Prod.snd hsame).trans hmissing))
  have hstatus : (200 : UInt16) = 404 := congrArg Reply.status hreply
  exact absurd hstatus (by decide)

lemma Hands.unique {respond : Directory → List Event × Handled} {request request' : StaticRequest}
    (h : Hands respond request) (h' : Hands respond request') : request = request' := by
  classical
  obtain ⟨answer, hanswer, -⟩ := h
  obtain ⟨answer', hanswer', hread'⟩ := h'
  by_contra hne
  -- a directory that tells the two requests apart
  have hsame := (hanswer (fun _ => read 200)).symm.trans (hanswer' (fun _ => read 200))
  have hother := (hanswer (fun r => if r = request then read 200 else read 404)).symm.trans
    (hanswer' (fun r => if r = request then read 200 else read 404))
  rw [if_pos rfl, if_neg (Ne.symm hne)] at hother
  exact read_ne hread' (hsame.symm.trans hother)

lemma Hands.not_constant {respond : Directory → List Event × Handled} {request : StaticRequest}
    (h : Hands respond request) {result : List Event × Handled}
    (hconstant : ∀ directory, respond directory = result) :
    False := by
  obtain ⟨answer, hanswer, hread⟩ := h
  apply read_ne hread
  calc answer (read 200) = result := (hanswer (fun _ => read 200)).symm.trans (hconstant _)
    _ = answer (read 404) := (hconstant (fun _ => read 404)).symm.trans (hanswer _)

variable {W} {config : AppConfig Net} {addr : Option (Request.IpAddr × UInt16)} {parts : Parts}
    {evaluation : Evaluation}
  {root path : Str} {fallback : Option Str}

lemma hands_uri (h : CallsStatic W config addr parts evaluation root path fallback) (requestId : Nat)
    {request : StaticRequest} (hhands : Hands (served W config addr parts evaluation requestId) request) :
    W.parseUri ('/' :: path) = .ok request.uri := by
  cases haborted : evaluation.aborted with
  | true =>
    have hconstant : ∀ directory, served W config addr parts evaluation requestId directory =
        ([.request requestId (requestOf W config addr parts), .complete requestId 0], .aborted) := by
      intro directory
      rw [served, handle, handleInner_eq, dispatch, if_neg (by simpa using h.route), if_pos haborted]
      rfl
    exact (hhands.not_constant hconstant).elim
  | false =>
    have hdispatch : ∀ guard directory,
        dispatch { W with serveDir := fun _ _ => directory } config addr parts evaluation guard =
          staticResponse { W with serveDir := fun _ _ => directory } guard parts root path fallback := by
      intro guard directory
      rw [dispatch_eq h.route haborted]
      change respondWith _ guard parts
        (firstSpecial evaluation.clonePanics (evaluation.run (requestOf W config addr parts))) _ = _
      rw [h.special]
      rfl
    cases hparse : W.parseUri ('/' :: path) with
    | error err =>
      have hconstant : ∀ directory, served W config addr parts evaluation requestId directory =
          ([.request requestId (requestOf W config addr parts), .complete requestId 0], .panicked) := by
        intro directory
        rw [served, handle, handleInner_eq, hdispatch, staticResponse]
        simp only [hparse]
        rfl
      exact (hhands.not_constant hconstant).elim
    | ok uri =>
      have hserved : Hands (served W config addr parts evaluation requestId)
        ⟨uri, parts.method, parts.headers⟩ := by
        refine ⟨fun answer => served W config addr parts evaluation requestId (fun _ => answer), ?_, ?_⟩
        · intro directory
          simp only [served, handle, handleInner_eq, hdispatch, staticResponse, hparse]
          rfl
        · intro status headers bytes
          refine ⟨.new requestId, ?_⟩
          simp only [served, handle, handleInner_eq, hdispatch, staticResponse, hparse]
          rfl
      rw [hserved.unique hhands |>.symm]

/-- Whatever the path, the directory gets one that begins with two slashes, so that its redirect names a host. -/
theorem static_doubled (horigin : OriginForm W.parseUri) (hslash : path.head? = some '/')
    (h : CallsStatic W config addr parts evaluation root path fallback) (requestId : Nat) :
    ¬ StaysOnSite (served W config addr parts evaluation requestId) path ∧
      ∀ request, Hands (served W config addr parts evaluation requestId) request → ∃ rest,
        request.uri.path = '/' :: '/' :: rest ∧
        (split (request.uri.path ++ ['/'])).authority =
          some ((rest ++ ['/']).takeWhile (fun c => !endsAuthority c)) := by
  obtain ⟨rest, rfl⟩ := List.head?_eq_some_iff.mp hslash
  have hall : ∀ request, Hands (served W config addr parts evaluation requestId) request → ∃ rest,
      request.uri.path = '/' :: '/' :: rest ∧
      (split (request.uri.path ++ ['/'])).authority =
        some ((rest ++ ['/']).takeWhile (fun c => !endsAuthority c)) := by
    intro request hhands
    have hpath := horigin _ _ (hands_uri h requestId hhands) rfl
    refine ⟨rest.takeWhile (fun c => c ≠ '?' && c ≠ '#'), by rw [hpath]; rfl, ?_⟩
    rw [hpath]
    exact (split_slashes _).2
  refine ⟨?_, hall⟩
  rintro ⟨request, hhands, -, hauthority⟩
  obtain ⟨rest, -, hsome⟩ := hall request hhands
  rw [hauthority] at hsome
  cases hsome

def originWorld : World Unit :=
  { bareWorld with parseUri := fun text => .ok ⟨text, none, text.takeWhile (fun c => c ≠ '?' && c ≠ '#'), none⟩ }

lemma originForm_originWorld : OriginForm originWorld.parseUri := by
  intro text uri huri _
  obtain rfl := Except.ok.inj huri
  rfl

def serving (path : Str) : Evaluation :=
  ⟨fun _ => ⟨[staticCommand "/srv".toList path none], .ok .empty⟩, false, none, false⟩

lemma callsStatic_serving (path : Str) :
    CallsStatic originWorld ⟨[], false⟩ none getRoot (serving path) "/srv".toList path none :=
  ⟨by simp, rfl⟩

theorem static_doubled_evil :
    ¬ StaysOnSite (served originWorld ⟨[], false⟩ none getRoot (serving "/evil.com".toList) 7)
    "/evil.com".toList :=
  (static_doubled originForm_originWorld (by decide) (callsStatic_serving _) 7).1

theorem static_redirect_evil : ∃ request,
    Hands (served originWorld ⟨[], false⟩ none getRoot (serving "/evil.com".toList) 7) request ∧
      (split (request.uri.path ++ ['/'])).authority = some "evil.com".toList ∧
      ¬ StaysOnSite (served originWorld ⟨[], false⟩ none getRoot (serving "/evil.com".toList) 7)
      "/evil.com".toList := by
  have hhands : Hands (served originWorld ⟨[], false⟩ none getRoot (serving "/evil.com".toList) 7)
      ⟨⟨"//evil.com".toList, none, "//evil.com".toList, none⟩, "GET".toList, .empty⟩ := by
    refine ⟨fun answer => served originWorld ⟨[], false⟩ none getRoot (serving "/evil.com".toList)
      7 (fun _ => answer), ?_, ?_⟩
    · exact fun directory => rfl
    · exact fun status headers bytes => ⟨.new 7, rfl⟩
  refine ⟨_, hhands, by decide, ?_⟩
  rintro ⟨request, hrequest, hpath, -⟩
  rw [← hhands.unique hrequest] at hpath
  exact absurd hpath (by decide)

end HttpNu.Handler
