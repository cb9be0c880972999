import HttpNu.Http
import HttpNu.Request.Address

/-! `resolve_trusted_ip`: the client address behind a chain of trusted proxies. -/

namespace HttpNu.Request

open Library Text Http

variable {Net : Type} (contains : Net → IpAddr → Bool)

def xForwardedFor : Str := "x-forwarded-for".toList

def isTrusted (trustedProxies : List Net) (ip : IpAddr) : Bool :=
  trustedProxies.any (fun net => contains net ip)

/-- A missing remote address (a Unix socket) counts as trusted. -/
def remoteIsTrusted (trustedProxies : List Net) : Option IpAddr → Bool
  | some ip => isTrusted contains trustedProxies ip
  | none => true

/-- The loop over the entries, from right to left, with the leftmost address seen so far. -/
def scan (trustedProxies : List Net) (remoteIp : Option IpAddr) : List Str → Option IpAddr → Option IpAddr
  | [], leftmostIp => leftmostIp.or remoteIp
  | ipStr :: rest, leftmostIp =>
    match IpAddr.parse ipStr with
    | some ip =>
      if isTrusted contains trustedProxies ip then scan trustedProxies remoteIp rest (some ip) else some ip
    | none => scan trustedProxies remoteIp rest leftmostIp

def entries (xff : Str) : List Str := (xff.splitOn ',').map trim

def resolveTrustedIp (headers : HeaderMap) (remoteIp : Option IpAddr) (trustedProxies : List Net) :
    Option IpAddr :=
  if trustedProxies = [] then remoteIp
  else if remoteIsTrusted contains trustedProxies remoteIp = false then remoteIp
  else
    match headers.get xForwardedFor with
    | none => remoteIp
    | some v =>
      match v.toStr with
      | none => none
      | some xff => scan contains trustedProxies remoteIp (entries xff).reverse none

def addressesIn (xff : Str) : List IpAddr := (entries xff).filterMap IpAddr.parse

def addresses (v : HeaderValue) : List IpAddr := addressesIn v.chars

def lastUntrusted (trustedProxies : List Net) (ips : List IpAddr) : Option IpAddr :=
  ips.reverse.find? (fun ip => !isTrusted contains trustedProxies ip)

def chosen (trustedProxies : List Net) (remoteIp : Option IpAddr) (ips : List IpAddr) : Option IpAddr :=
  (lastUntrusted contains trustedProxies ips).or (ips.head?.or remoteIp)

lemma scan_eq (trustedProxies : List Net) (remoteIp : Option IpAddr) (strs : List Str)
    (leftmostIp : Option IpAddr) :
    scan contains trustedProxies remoteIp strs leftmostIp =
      ((strs.filterMap IpAddr.parse).find? (fun ip => !isTrusted contains trustedProxies ip)).or
        ((strs.filterMap IpAddr.parse).getLast?.or (leftmostIp.or remoteIp)) := by
  induction strs generalizing leftmostIp with
  | nil => simp [scan]
  | cons ipStr rest ih =>
    cases hp : IpAddr.parse ipStr with
    | none => simp [scan, hp, ih]
    | some ip =>
      cases ht : isTrusted contains trustedProxies ip with
      | false => simp [scan, hp, ht]
      | true =>
        simp only [scan, hp, ht, if_true, ih, List.filterMap_cons, List.find?_cons, Bool.not_true]
        cases rest.filterMap IpAddr.parse with
        | nil => simp
        | cons ip' ips => simp [List.getLast?_cons, Option.or_some]

lemma scan_entries (trustedProxies : List Net) (remoteIp : Option IpAddr) (xff : Str) :
    scan contains trustedProxies remoteIp (entries xff).reverse none =
      chosen contains trustedProxies remoteIp (addressesIn xff) := by
  simp [scan_eq, chosen, lastUntrusted, addressesIn, List.filterMap_reverse]

lemma entries_space (s : Str) : entries (' ' :: s) = entries s := by
  simp only [entries, List.splitOn_cons_eq_if_modifyHead]
  cases hs : s.splitOn ',' with
  | nil => exact absurd hs (List.splitOn_ne_nil _ _)
  | cons l ls => simp [List.modifyHead]

lemma addressesIn_comma (s t : Str) :
    addressesIn (s ++ ',' :: ' ' :: t) = addressesIn s ++ addressesIn t := by
  have ht := entries_space t
  simp only [entries] at ht
  simp [addressesIn, entries, List.splitOn_append_cons_self, ht]

lemma addresses_join (vs : List HeaderValue) : addresses (HeaderValue.join vs) = vs.flatMap addresses := by
  induction vs with
  | nil => decide
  | cons v vs ih =>
    cases vs with
    | nil => simp [HeaderValue.join]
    | cons w vs =>
      rw [HeaderValue.join, List.flatMap_cons, ← ih, addresses, HeaderValue.chars_comma, addressesIn_comma]
      rfl

variable {trustedProxies : List Net} {remoteIp : Option IpAddr}

lemma resolveTrustedIp_eq (hp : trustedProxies ≠ [])
    (hr : remoteIsTrusted contains trustedProxies remoteIp = true) (headers : HeaderMap) :
    resolveTrustedIp contains headers remoteIp trustedProxies =
      match headers.get xForwardedFor with
      | none => remoteIp
      | some v => if v.visible then chosen contains trustedProxies remoteIp (addresses v) else none := by
  simp only [resolveTrustedIp, if_neg hp, hr, Bool.true_eq_false, if_false]
  cases headers.get xForwardedFor with
  | none => rfl
  | some v => cases hv : v.visible <;> simp [HeaderValue.toStr, hv, scan_entries, addresses]

lemma lastUntrusted_append (ips ips' : List IpAddr) :
    lastUntrusted contains trustedProxies (ips ++ ips') =
      (lastUntrusted contains trustedProxies ips').or (lastUntrusted contains trustedProxies ips) := by
  simp [lastUntrusted]

lemma lastUntrusted_untrusted {ips : List IpAddr} {ip : IpAddr}
    (h : lastUntrusted contains trustedProxies ips = some ip) :
    isTrusted contains trustedProxies ip = false := by
  simpa using List.find?_some h

/-- When the scan of a prefix of the chain answers as the scan of the whole chain does. -/
def PrefixDecides (trustedProxies : List Net) (remoteIp : Option IpAddr) (ips later : List IpAddr) : Prop :=
  match lastUntrusted contains trustedProxies later with
  | some ip => lastUntrusted contains trustedProxies ips = some ip
  | none => ips ≠ [] ∨ later = [] ∨ later.head? = remoteIp

lemma chosen_trusted (hr : remoteIsTrusted contains trustedProxies remoteIp = true) {ips : List IpAddr}
    {ip : IpAddr} (hn : lastUntrusted contains trustedProxies ips = none)
    (h : chosen contains trustedProxies remoteIp ips = some ip) :
    isTrusted contains trustedProxies ip = true := by
  rw [chosen, hn, Option.none_or] at h
  cases ips with
  | nil =>
    obtain rfl : remoteIp = some ip := by simpa using h
    exact hr
  | cons ip' ips =>
    obtain rfl : ip' = ip := by simpa using h
    simp only [lastUntrusted, List.find?_eq_none, List.mem_reverse, Bool.not_eq_true',
      Bool.not_eq_false] at hn
    exact hn ip' List.mem_cons_self

lemma chosen_prefix_iff (hr : remoteIsTrusted contains trustedProxies remoteIp = true)
    (ips later : List IpAddr) :
    chosen contains trustedProxies remoteIp ips = chosen contains trustedProxies remoteIp (ips ++ later) ↔
      PrefixDecides contains trustedProxies remoteIp ips later := by
  simp only [PrefixDecides]
  cases hl : lastUntrusted contains trustedProxies later with
  | some ip =>
    have hw : chosen contains trustedProxies remoteIp (ips ++ later) = some ip := by
      simp [chosen, lastUntrusted_append, hl]
    rw [hw]
    constructor
    · intro h
      cases hn : lastUntrusted contains trustedProxies ips with
      | none =>
        have ht := chosen_trusted contains hr hn h
        rw [lastUntrusted_untrusted contains hl] at ht
        cases ht
      | some ip' =>
        rw [chosen, hn, Option.some_or] at h
        exact h
    · intro h
      rw [chosen, h, Option.some_or]
  | none =>
    simp only [chosen, lastUntrusted_append, hl, Option.none_or]
    cases ips with
    | cons ip ips => simp
    | nil =>
      cases later with
      | nil => simp
      | cons ip later => simp [lastUntrusted, eq_comm]

/-- When the first line of a header that is repeated decides as all its lines together do. -/
def FirstLineDecides (trustedProxies : List Net) (remoteIp : Option IpAddr) : List HeaderValue → Prop
  | [] => True
  | first :: later =>
    remoteIsTrusted contains trustedProxies remoteIp = false ∨ later = [] ∨ first.visible = false ∨
      if later.all HeaderValue.visible then
        PrefixDecides contains trustedProxies remoteIp (addresses first) (later.flatMap addresses)
      else addresses first = [] ∧ remoteIp = none

def joinForwarded (headers : HeaderMap) : HeaderMap :=
  headers.insert xForwardedFor (HeaderValue.join (headers.getAll xForwardedFor))

lemma resolveTrustedIp_joined (hp : trustedProxies ≠ [])
    (hr : remoteIsTrusted contains trustedProxies remoteIp = true) (headers : HeaderMap) :
    resolveTrustedIp contains (joinForwarded headers) remoteIp trustedProxies =
      if (headers.getAll xForwardedFor).all HeaderValue.visible then
        chosen contains trustedProxies remoteIp ((headers.getAll xForwardedFor).flatMap addresses)
      else none := by
  rw [resolveTrustedIp_eq contains hp hr, joinForwarded, MultiMap.get_insert_self]
  simp only [HeaderValue.visible_join, addresses_join]

lemma chosen_eq_none {ips : List IpAddr} :
    chosen contains trustedProxies remoteIp ips = none ↔ ips = [] ∧ remoteIp = none := by
  cases ips with
  | nil => simp [chosen, lastUntrusted]
  | cons ip ips => simp [chosen]

theorem resolveTrustedIp_joined_iff (headers : HeaderMap) (remoteIp : Option IpAddr)
    (trustedProxies : List Net) (hp : trustedProxies ≠ []) :
    resolveTrustedIp contains headers remoteIp trustedProxies =
        resolveTrustedIp contains (joinForwarded headers) remoteIp trustedProxies ↔
      FirstLineDecides contains trustedProxies remoteIp (headers.getAll xForwardedFor) := by
  cases hr : remoteIsTrusted contains trustedProxies remoteIp with
  | false =>
    have hd : FirstLineDecides contains trustedProxies remoteIp (headers.getAll xForwardedFor) := by
      cases headers.getAll xForwardedFor with
      | nil => trivial
      | cons first later => exact Or.inl hr
    simp [resolveTrustedIp, hr, hd]
  | true =>
    rw [resolveTrustedIp_joined contains hp hr, resolveTrustedIp_eq contains hp hr, MultiMap.get]
    cases headers.getAll xForwardedFor with
    | nil => simp [FirstLineDecides, chosen, lastUntrusted]
    | cons first later =>
      simp only [FirstLineDecides, hr, List.head?_cons, List.all_cons, List.flatMap_cons,
        Bool.true_eq_false, false_or]
      cases hv : first.visible with
      | false => simp
      | true =>
        cases later with
        | nil => simp
        | cons second later =>
          cases ha : (second :: later).all HeaderValue.visible with
          | false => simp [chosen_eq_none contains]
          | true => simpa using chosen_prefix_iff contains hr (addresses first) _

def containsV4 (net : BitVec 32 × Nat) : IpAddr → Bool
  | .v4 addr => addr >>> (32 - net.2) = net.1 >>> (32 - net.2)
  | .v6 _ => false

def spoofedLines : HeaderMap :=
  ⟨[(xForwardedFor, ⟨utf8 "1.1.1.1".toList, by decide⟩), (xForwardedFor, ⟨utf8 "5.6.7.8".toList, by decide⟩)]⟩

theorem spoofed_line_decides :
    resolveTrustedIp containsV4 spoofedLines (some (.v4 0x0a000002)) [(0x0a000000, 8)] =
        some (.v4 0x01010101) ∧
      resolveTrustedIp containsV4 (joinForwarded spoofedLines) (some (.v4 0x0a000002)) [(0x0a000000, 8)] =
        some (.v4 0x05060708) := by
  decide +kernel

theorem resolveTrustedIp_joined_iff_spoofed :
    [((0x0a000000 : BitVec 32), 8)] ≠ [] ∧
      ¬ FirstLineDecides containsV4 [(0x0a000000, 8)] (some (.v4 0x0a000002))
        (spoofedLines.getAll xForwardedFor) := by
  refine ⟨by decide, ?_⟩
  rw [← resolveTrustedIp_joined_iff containsV4 spoofedLines _ _ (by decide)]
  decide +kernel

end HttpNu.Request
