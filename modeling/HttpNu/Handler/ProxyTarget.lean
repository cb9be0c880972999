import HttpNu.Handler.AccessLog
import HttpNu.Library.UriReference

/-! Where `.reverse-proxy` sends a request. -/

namespace HttpNu.Handler

open Text Library UriReference Http Response

/-- A parser of URIs that finds scheme and authority where the grammar has them; the case of a scheme is free. -/
def ReadsGrammar (parseUri : Str → Except Str Uri) (schemeOf : Uri → Option Str) : Prop :=
  ∀ text uri scheme authority, parseUri text = .ok uri → (split text).scheme = some scheme →
    (split text).authority = some authority →
      (schemeOf uri).map (List.map Char.toLower) = some (scheme.map Char.toLower) ∧ uri.authority = some authority

variable {Net : Type} {W : World Net}

lemma proxyPath_head (uri : Uri) (stripped : Option Str) : (proxyPath uri stripped).head? = some '/' := by
  rw [proxyPath]
  split
  · assumption
  · rfl

lemma targetUri_append (targetUrl : Str) (uri : Uri) (stripped : Option Str) (query : Option (List (Str × Str))) :
    ∃ rest, targetUri W targetUrl uri stripped query = targetUrl ++ '/' :: rest := by
  obtain ⟨path, hpath⟩ := List.head?_eq_some_iff.mp (proxyPath_head uri stripped)
  simp only [targetUri, hpath]
  split_ifs
  · exact ⟨path, rfl⟩
  · exact ⟨path ++ '?' :: _, by rw [List.append_assoc, List.cons_append]⟩

lemma proxyRequest_uri {parts : Parts} {targetUrl : Str} {headers : Headers} {preserveHost : Bool}
    {stripped : Option Str} {requestBody : Bytes} {query : Option (List (Str × Str))} {built : ProxyRequest}
    (h : proxyRequest W parts targetUrl headers preserveHost stripped requestBody query = .ok built) :
    W.parseUri (targetUri W targetUrl parts.uri stripped query) = .ok built.uri := by
  rw [proxyRequest] at h
  cases huri : W.parseUri (targetUri W targetUrl parts.uri stripped query) with
  | error err => simp [huri, bind, Except.bind] at h
  | ok uri =>
    obtain ⟨m, hm⟩ := withLength_ok requestBody parts.headers
    cases hput : addCustomHeaders headers m with
    | error err => simp [huri, hm, hput, bind, Except.bind] at h
    | ok m₁ =>
      cases hhost : withHost W targetUrl preserveHost m₁ with
      | error err => simp [huri, hm, hput, hhost, bind, Except.bind] at h
      | ok m₂ =>
        simp only [huri, hm, hput, hhost, bind, Except.bind, pure, Except.pure, Except.ok.injEq] at h
        rw [← h]

theorem proxyRequest_stays {schemeOf : Uri → Option Str} (hreads : ReadsGrammar W.parseUri schemeOf)
    (target : Hierarchical) {parts : Parts} {headers : Headers} {preserveHost : Bool} {stripped : Option Str}
    {requestBody : Bytes} {query : Option (List (Str × Str))} {built : ProxyRequest}
    (h : proxyRequest W parts target.text headers preserveHost stripped requestBody query = .ok built) :
    (schemeOf built.uri).map (List.map Char.toLower) = some (target.scheme.map Char.toLower) ∧
      built.uri.authority = some target.authority := by
  obtain ⟨rest, hrest⟩ := targetUri_append (W := W) target.text parts.uri stripped query
  have hparse := proxyRequest_uri h
  rw [hrest] at hparse
  have hslash : ∀ c ∈ ('/' :: rest).head?, endsAuthority c = true := by simp [endsAuthority]
  obtain ⟨hscheme, hauthority⟩ := split_text_append target hslash
  exact hreads _ _ _ _ hparse hscheme hauthority

def grammarWorld : World Unit :=
  { bareWorld with
    parseUri := fun text => .ok ⟨text, (split text).authority, (split text).path, (split text).query⟩ }

def schemeByGrammar (uri : Uri) : Option Str := (split uri.text).scheme

def backend : Hierarchical where
  scheme := "http".toList
  authority := "backend".toList
  path := []
  scheme_ne := by decide
  scheme_ends := by simp [endsScheme, endsAuthority]
  authority_ends := by simp [endsAuthority]
  path_head := nofun

/-- The request of the attack: its path without the `/api` in front reads `@evil.com/`. -/
def evilParts : Parts :=
  ⟨"HTTP/1.1".toList, "GET".toList, ⟨"/api@evil.com/".toList, none, "/api@evil.com/".toList, none⟩, .empty⟩

theorem proxyRequest_stays_evil :
    ∃ built, proxyRequest grammarWorld evilParts backend.text [] true (some "/api".toList) [] none = .ok built ∧
      built.uri.authority = some "backend".toList := by
  have hreads : ReadsGrammar grammarWorld.parseUri schemeByGrammar := by
    rintro text uri scheme authority huri hscheme hauthority
    obtain rfl := Except.ok.inj huri
    exact ⟨by rw [schemeByGrammar, hscheme]; rfl, hauthority⟩
  have hbuilt : proxyRequest grammarWorld evilParts backend.text [] true (some "/api".toList) [] none =
      .ok ⟨⟨"http://backend/@evil.com/".toList, some "backend".toList, "/@evil.com/".toList, none⟩, "GET".toList,
        .empty, []⟩ := rfl
  exact ⟨_, hbuilt, (proxyRequest_stays hreads backend hbuilt).2⟩

end HttpNu.Handler
