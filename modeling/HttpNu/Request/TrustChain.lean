import HttpNu.Request.TrustedIp

/-! What `resolve_trusted_ip` answers on one forwarding line, and when it has no answer. -/

namespace HttpNu.Request

open Library Text Http

section Answers

variable {α β : Type} (f : α → Option β)

def FirstAnswer (es : List α) (b : β) : Prop :=
  ∃ left e right, es = left ++ e :: right ∧ f e = some b ∧ ∀ e' ∈ left, f e' = none

def LastAnswer (es : List α) (b : β) : Prop :=
  ∃ left e right, es = left ++ e :: right ∧ f e = some b ∧ ∀ e' ∈ right, f e' = none

variable {f}

lemma firstAnswer_iff {es : List α} {b : β} : FirstAnswer f es b ↔ es.findSome? f = some b :=
  List.findSome?_eq_some_iff.symm

lemma lastAnswer_iff {es : List α} {b : β} : LastAnswer f es b ↔ es.reverse.findSome? f = some b := by
  rw [List.findSome?_eq_some_iff]
  constructor
  · rintro ⟨left, e, right, rfl, hb, hright⟩
    exact ⟨right.reverse, e, left.reverse, by simp, hb, by simpa using hright⟩
  · rintro ⟨right, e, left, hes, hb, hright⟩
    refine ⟨left.reverse, e, right.reverse, ?_, hb, by simpa using hright⟩
    simpa using congrArg List.reverse hes

lemma find?_filterMap_eq (p : β → Bool) (es : List α) :
    (es.filterMap f).find? p = es.findSome? (fun e => (f e).filter p) := by
  induction es with
  | nil => rfl
  | cons e es ih =>
    cases he : f e with
    | none => simp [he, ih]
    | some b => cases hb : p b <;> simp [Option.filter, he, hb, ih]

end Answers

variable {Net : Type} (contains : Net → IpAddr → Bool)

def untrustedAddress (trustedProxies : List Net) (entry : Str) : Option IpAddr :=
  (IpAddr.parse entry).filter (fun ip => !isTrusted contains trustedProxies ip)

/-- The forwarding line is not asked: there are no proxies, the remote address is known and in no trusted
range, or there is no such line. -/
def Direct (trustedProxies : List Net) (remoteIp : Option IpAddr) (line : Option Str) : Prop :=
  trustedProxies = [] ∨ (∃ ip, remoteIp = some ip ∧ ∀ net ∈ trustedProxies, contains net ip = false) ∨ line = none

/-- The rightmost untrusted address of the chain, else its leftmost address, else the remote address. -/
def OfChain (trustedProxies : List Net) (remoteIp : Option IpAddr) (es : List Str) (result : Option IpAddr) :
    Prop :=
  (∃ ip, LastAnswer (untrustedAddress contains trustedProxies) es ip ∧ result = some ip) ∨
    (∀ e ∈ es, untrustedAddress contains trustedProxies e = none) ∧
      ((∃ ip, FirstAnswer IpAddr.parse es ip ∧ result = some ip) ∨
        (∀ e ∈ es, IpAddr.parse e = none) ∧ result = remoteIp)

def Reference (trustedProxies : List Net) (remoteIp : Option IpAddr) (line : Option Str)
    (result : Option IpAddr) : Prop :=
  (Direct contains trustedProxies remoteIp line ∧ result = remoteIp) ∨
    (¬ Direct contains trustedProxies remoteIp line ∧
      ∀ xff, line = some xff → OfChain contains trustedProxies remoteIp (entries xff) result)

variable {contains} {trustedProxies : List Net} {remoteIp : Option IpAddr}

lemma lastUntrusted_eq (xff : Str) :
    lastUntrusted contains trustedProxies (addressesIn xff) =
      (entries xff).reverse.findSome? (untrustedAddress contains trustedProxies) := by
  rw [lastUntrusted, addressesIn, ← List.filterMap_reverse, find?_filterMap_eq]
  rfl

lemma chosen_iff (xff : Str) (result : Option IpAddr) :
    chosen contains trustedProxies remoteIp (addressesIn xff) = result ↔
      OfChain contains trustedProxies remoteIp (entries xff) result := by
  have hnone : (∀ e ∈ entries xff, untrustedAddress contains trustedProxies e = none) ↔
      (entries xff).reverse.findSome? (untrustedAddress contains trustedProxies) = none := by simp
  rw [chosen, lastUntrusted_eq, addressesIn, List.head?_filterMap, OfChain, hnone]
  simp only [lastAnswer_iff, firstAnswer_iff, ← List.findSome?_eq_none_iff]
  cases (entries xff).reverse.findSome? (untrustedAddress contains trustedProxies) with
  | some ip => simp [eq_comm]
  | none => cases (entries xff).findSome? IpAddr.parse <;> simp [eq_comm]

lemma remoteIsTrusted_eq_false :
    remoteIsTrusted contains trustedProxies remoteIp = false ↔
      ∃ ip, remoteIp = some ip ∧ ∀ net ∈ trustedProxies, contains net ip = false := by
  cases remoteIp <;> simp [remoteIsTrusted, isTrusted]

lemma resolveTrustedIp_direct {headers : HeaderMap}
    (h : Direct contains trustedProxies remoteIp ((headers.get xForwardedFor).map HeaderValue.chars)) :
    resolveTrustedIp contains headers remoteIp trustedProxies = remoteIp := by
  rw [resolveTrustedIp]
  rcases h with hp | hr | hline
  · rw [if_pos hp]
  · rw [if_pos (remoteIsTrusted_eq_false.mpr hr), ite_self]
  · rw [Option.map_eq_none_iff.mp hline, ite_self, ite_self]

lemma resolveTrustedIp_chain {headers : HeaderMap} {v : HeaderValue} (hv : headers.get xForwardedFor = some v)
    (h : ¬ Direct contains trustedProxies remoteIp (some v.chars)) :
    resolveTrustedIp contains headers remoteIp trustedProxies =
      if v.visible then chosen contains trustedProxies remoteIp (addresses v) else none := by
  rw [Direct, ← remoteIsTrusted_eq_false, not_or, not_or, Bool.not_eq_false] at h
  rw [resolveTrustedIp_eq contains h.1 h.2.1, hv]

theorem resolveTrustedIp_reference (contains : Net → IpAddr → Bool) (headers : HeaderMap)
    (remoteIp : Option IpAddr) (trustedProxies : List Net) (result : Option IpAddr)
    (htext : ∀ v ∈ (headers.getAll xForwardedFor).head?, v.visible = true) :
    resolveTrustedIp contains headers remoteIp trustedProxies = result ↔
      Reference contains trustedProxies remoteIp ((headers.getAll xForwardedFor).head?.map HeaderValue.chars)
        result := by
  change _ ↔ Reference contains trustedProxies remoteIp ((headers.get xForwardedFor).map HeaderValue.chars) result
  by_cases hd : Direct contains trustedProxies remoteIp ((headers.get xForwardedFor).map HeaderValue.chars)
  · simp [Reference, hd, resolveTrustedIp_direct hd, eq_comm]
  · cases hv : headers.get xForwardedFor with
    | none => exact absurd (Or.inr (Or.inr (by rw [hv]; rfl))) hd
    | some v =>
      have hchain : ¬ Direct contains trustedProxies remoteIp (some v.chars) := by
        rw [hv] at hd
        exact hd
      have hvisible : v.visible = true := htext v hv
      rw [resolveTrustedIp_chain hv hchain, if_pos hvisible]
      simp only [Reference, Option.map_some, hchain, false_and, false_or, not_false_eq_true, true_and,
        Option.some.injEq, forall_eq']
      exact chosen_iff v.chars result

def chainOf (line : Str) (h : (utf8 line).all isHeaderByte = true) : HeaderMap :=
  ⟨[(xForwardedFor, ⟨utf8 line, h⟩)]⟩

def spoofedChain : HeaderMap := chainOf "1.1.1.1, 5.6.7.8, proxy, 10.0.0.1".toList (by decide)

theorem resolveTrustedIp_reference_spoofed :
    Reference containsV4 [(0x0a000000, 8)] (some (.v4 0x0a000002))
      (some "1.1.1.1, 5.6.7.8, proxy, 10.0.0.1".toList) (some (.v4 0x05060708)) := by
  have hline : (spoofedChain.getAll xForwardedFor).head?.map HeaderValue.chars =
      some "1.1.1.1, 5.6.7.8, proxy, 10.0.0.1".toList := by decide +kernel
  rw [← hline]
  exact (resolveTrustedIp_reference containsV4 spoofedChain (some (.v4 0x0a000002)) [(0x0a000000, 8)]
    (some (.v4 0x05060708)) (by decide +kernel)).mp (by decide +kernel)

def proxyEntry (contains : Net → IpAddr → Bool) (trustedProxies : List Net) (entry : Str) : Bool :=
  (IpAddr.parse entry).any (isTrusted contains trustedProxies)

lemma lastUntrusted_left (left left' right : List Str) {e : Str} {ip : IpAddr}
    (he : untrustedAddress contains trustedProxies e = some ip) :
    lastUntrusted contains trustedProxies ((left ++ e :: right).filterMap IpAddr.parse) =
        lastUntrusted contains trustedProxies ((left' ++ e :: right).filterMap IpAddr.parse) ∧
      ∃ e' ∈ e :: right, ∃ ip', IpAddr.parse e' = some ip' ∧
        lastUntrusted contains trustedProxies ((left ++ e :: right).filterMap IpAddr.parse) = some ip' := by
  obtain ⟨hparse, huntrusted⟩ := Option.filter_eq_some_iff.mp he
  have hfound : ∃ ip', lastUntrusted contains trustedProxies ((e :: right).filterMap IpAddr.parse) = some ip' := by
    apply Option.isSome_iff_exists.mp
    rw [lastUntrusted, List.find?_isSome]
    exact ⟨ip, by simp [hparse], huntrusted⟩
  obtain ⟨ip', hlast⟩ := hfound
  have hmem : ip' ∈ (e :: right).filterMap IpAddr.parse := by
    simpa using List.mem_of_find?_eq_some hlast
  obtain ⟨e', he', hparse'⟩ := List.mem_filterMap.mp hmem
  simp only [List.filterMap_append, lastUntrusted_append, hlast, Option.some_or, true_and]
  exact ⟨e', he', ip', hparse', rfl⟩

/-- An entry that parses to an untrusted address hides everything to its left. -/
theorem resolveTrustedIp_left (contains : Net → IpAddr → Bool) (trustedProxies : List Net)
    (remoteIp : Option IpAddr) (headers headers' : HeaderMap) (v v' : HeaderValue) (left left' right : List Str)
    (e : Str) (ip : IpAddr) (hr : remoteIsTrusted contains trustedProxies remoteIp = true)
    (hv : headers.getAll xForwardedFor = [v]) (hv' : headers'.getAll xForwardedFor = [v'])
    (htext : v.visible = true) (htext' : v'.visible = true)
    (hes : entries v.chars = left ++ e :: right) (hes' : entries v'.chars = left' ++ e :: right)
    (hparse : IpAddr.parse e = some ip) (hip : isTrusted contains trustedProxies ip = false) :
    resolveTrustedIp contains headers remoteIp trustedProxies =
        resolveTrustedIp contains headers' remoteIp trustedProxies ∧
      (trustedProxies ≠ [] → ∃ e' ∈ e :: right, ∃ ip', IpAddr.parse e' = some ip' ∧
        resolveTrustedIp contains headers remoteIp trustedProxies = some ip') := by
  by_cases hp : trustedProxies = []
  · simp [resolveTrustedIp, hp]
  · have he : untrustedAddress contains trustedProxies e = some ip := by
      simp [untrustedAddress, hparse, hip, Option.filter]
    obtain ⟨heq, e', he', ip', hparse', hlast⟩ := lastUntrusted_left left left' right he
    rw [resolveTrustedIp_eq contains hp hr, resolveTrustedIp_eq contains hp hr, MultiMap.get,
      MultiMap.get, hv, hv']
    simp only [List.head?_cons, htext, htext', if_true, chosen, addresses, addressesIn, hes, hes']
    rw [← heq, hlast]
    exact ⟨rfl, fun _ => ⟨e', he', ip', hparse', rfl⟩⟩

def otherChain : HeaderMap := chainOf "9.9.9.9, 5.6.7.8, proxy, 10.0.0.1".toList (by decide)

theorem resolveTrustedIp_left_spoofed :
    resolveTrustedIp containsV4 spoofedChain (some (.v4 0x0a000002)) [(0x0a000000, 8)] =
      resolveTrustedIp containsV4 otherChain (some (.v4 0x0a000002)) [(0x0a000000, 8)] :=
  (resolveTrustedIp_left containsV4 [(0x0a000000, 8)] (some (.v4 0x0a000002)) spoofedChain otherChain _ _
    ["1.1.1.1".toList] ["9.9.9.9".toList] ["proxy".toList, "10.0.0.1".toList] "5.6.7.8".toList (.v4 0x05060708)
    (by decide +kernel) rfl rfl (by decide +kernel) (by decide +kernel) (by decide +kernel) (by decide +kernel)
    (by decide +kernel) (by decide +kernel)).1

/-- An entry that is no address, such as one with a port, is passed over. -/
theorem unparsedEntry_hidesNothing :
    ¬ ∀ (trustedProxies : List (BitVec 32 × Nat)) (remoteIp : Option IpAddr) (headers headers' : HeaderMap)
      (v v' : HeaderValue) (left left' right : List Str) (e : Str),
      remoteIsTrusted containsV4 trustedProxies remoteIp = true →
        headers.getAll xForwardedFor = [v] → headers'.getAll xForwardedFor = [v'] →
        entries v.chars = left ++ e :: right → entries v'.chars = left' ++ e :: right →
        proxyEntry containsV4 trustedProxies e = false →
        (∀ e' ∈ right, proxyEntry containsV4 trustedProxies e' = true) →
        resolveTrustedIp containsV4 headers remoteIp trustedProxies =
          resolveTrustedIp containsV4 headers' remoteIp trustedProxies := by
  intro h
  have h := h [(0x0a000000, 8)] (some (.v4 0x0a000002)) (chainOf "1.1.1.1, 5.6.7.8:443".toList (by decide))
    (chainOf "9.9.9.9, 5.6.7.8:443".toList (by decide)) _ _ ["1.1.1.1".toList] ["9.9.9.9".toList] []
    "5.6.7.8:443".toList (by decide +kernel) rfl rfl (by decide +kernel) (by decide +kernel) (by decide +kernel)
    (by simp)
  exact absurd h (by decide +kernel)

variable (contains)

/-- A known remote address gives an answer, which is that address or one of the forwarding header, and it is the
remote address when the header gives none. -/
def KeepsAddress (headers : HeaderMap) (remoteIp : IpAddr) (trustedProxies : List Net) : Prop :=
  (∃ ip, resolveTrustedIp contains headers (some remoteIp) trustedProxies = some ip ∧
      (ip = remoteIp ∨ ∃ v ∈ headers.getAll xForwardedFor, ∃ e ∈ entries v.chars, IpAddr.parse e = some ip)) ∧
    ((∀ v ∈ headers.getAll xForwardedFor, v.visible = false ∨ ∀ e ∈ entries v.chars, IpAddr.parse e = none) →
      resolveTrustedIp contains headers (some remoteIp) trustedProxies = some remoteIp)

variable {contains}

variable (contains trustedProxies) in
lemma chosen_kept (ips : List IpAddr) (remoteIp : IpAddr) :
    ∃ ip, chosen contains trustedProxies (some remoteIp) ips = some ip ∧ (ip = remoteIp ∨ ip ∈ ips) := by
  rw [chosen]
  cases hl : lastUntrusted contains trustedProxies ips with
  | some ip =>
    have hmem : ip ∈ ips.reverse := List.mem_of_find?_eq_some hl
    exact ⟨ip, rfl, Or.inr (List.mem_reverse.mp hmem)⟩
  | none =>
    cases ips with
    | nil => exact ⟨remoteIp, rfl, Or.inl rfl⟩
    | cons ip ips => exact ⟨ip, rfl, Or.inr List.mem_cons_self⟩

lemma keepsAddress_remote {headers : HeaderMap} {remoteIp : IpAddr}
    (h : resolveTrustedIp contains headers (some remoteIp) trustedProxies = some remoteIp) :
    KeepsAddress contains headers remoteIp trustedProxies :=
  ⟨⟨remoteIp, h, Or.inl rfl⟩, fun _ => h⟩

theorem keepsAddress_iff (contains : Net → IpAddr → Bool) (headers : HeaderMap) (remoteIp : IpAddr)
    (trustedProxies : List Net) :
    KeepsAddress contains headers remoteIp trustedProxies ↔
      trustedProxies = [] ∨ isTrusted contains trustedProxies remoteIp = false ∨
        ∀ v ∈ (headers.getAll xForwardedFor).head?, v.visible = true := by
  by_cases hd : Direct contains trustedProxies (some remoteIp) ((headers.get xForwardedFor).map HeaderValue.chars)
  · refine iff_of_true (keepsAddress_remote (resolveTrustedIp_direct hd)) ?_
    rcases hd with hp | hr | hline
    · exact Or.inl hp
    · exact Or.inr (Or.inl (remoteIsTrusted_eq_false.mpr hr))
    · have hnone : (headers.getAll xForwardedFor).head? = none := Option.map_eq_none_iff.mp hline
      exact Or.inr (Or.inr (by simp [hnone]))
  · cases hv : headers.get xForwardedFor with
    | none => exact absurd (Or.inr (Or.inr (by rw [hv]; rfl))) hd
    | some v =>
      have hchain : ¬ Direct contains trustedProxies (some remoteIp) (some v.chars) := by
        rw [hv] at hd
        exact hd
      have hp : trustedProxies ≠ [] := fun hp => hchain (Or.inl hp)
      have hr : ¬ isTrusted contains trustedProxies remoteIp = false :=
        fun hr => hchain (Or.inr (Or.inl (remoteIsTrusted_eq_false.mp hr)))
      have hhead : (headers.getAll xForwardedFor).head? = some v := hv
      rw [hhead, or_iff_right hp, or_iff_right hr]
      simp only [Option.mem_some_iff, forall_eq']
      constructor
      · rintro ⟨⟨ip, hip, _⟩, _⟩
        rw [resolveTrustedIp_chain hv hchain] at hip
        by_contra hvisible
        simp [hvisible] at hip
      · intro hvisible
        have hresolve := resolveTrustedIp_chain hv hchain
        rw [if_pos hvisible] at hresolve
        rw [KeepsAddress, hresolve]
        refine ⟨?_, fun hnone => ?_⟩
        · obtain ⟨ip, hip, hkept⟩ := chosen_kept contains trustedProxies (addresses v) remoteIp
          refine ⟨ip, hip, hkept.imp_right fun hmem => ?_⟩
          obtain ⟨e, he, hparse⟩ := List.mem_filterMap.mp hmem
          exact ⟨v, List.mem_of_head? hhead, e, he, hparse⟩
        · have hparse := (hnone v (List.mem_of_head? hhead)).resolve_left (by simp [hvisible])
          have hnil : addresses v = [] := List.filterMap_eq_nil_iff.mpr hparse
          rw [hnil]
          rfl

/-- A byte that is no ASCII text is allowed in a header, and hides the remote address as well. -/
theorem obsText_losesAddress :
    ¬ KeepsAddress containsV4 ⟨[(xForwardedFor, ⟨[0xff], by decide⟩)]⟩ (.v4 0x0a000002) [(0x0a000000, 8)] := by
  rintro ⟨⟨ip, hip, _⟩, _⟩
  have hnone : resolveTrustedIp containsV4 ⟨[(xForwardedFor, ⟨[0xff], by decide⟩)]⟩ (some (.v4 0x0a000002))
      [(0x0a000000, 8)] = none := by decide +kernel
  rw [hnone] at hip
  cases hip

end HttpNu.Request
