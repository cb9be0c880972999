import HttpNu.Request.RequestValue

/-! `cookie parse`: the cookies of a request record. -/

namespace HttpNu.Stdlib.Cookies

open Text Library Request

/-- The pieces of a string between the places where a separator stands; the characters of one that was found
are skipped. -/
def splitRowFrom (sep : Str) : Nat → Str → List Str
  | _, [] => [[]]
  | skipped + 1, _ :: cs => splitRowFrom sep skipped cs
  | 0, c :: cs =>
    if sep.isPrefixOf (c :: cs) then [] :: splitRowFrom sep (sep.length - 1) cs
    else (splitRowFrom sep 0 cs).modifyHead (c :: ·)

def splitRow (sep s : Str) : List Str := splitRowFrom sep 0 s

/-- `split row "=" --number 2`, when that gives two pieces. -/
def splitPair (pair : Str) : Option (Str × Str) :=
  if pair.contains '=' then some (pair.takeWhile (· ≠ '='), (pair.dropWhile (· ≠ '=')).tail) else none

/-- The cookies of a `Cookie` header; a later one replaces an earlier one of its name. -/
def parseCookies (header : Str) : Record :=
  let pairs := ((splitRow "; ".toList header).filter (· ≠ [])).filterMap splitPair
  pairs.foldl (fun cookies p => cookies.upsert (strTrim p.1) (.string (strTrim p.2))) []

def cookieParse (request : Record) : Option Record := do
  let headers ← (← request.follow "headers".toList).asRecord
  let header ← (Value.orDefault (.string []) (headers.follow "cookie".toList)).asStr
  return parseCookies header

lemma follow_headersRecord (headers : Http.HeaderMap) (name : Str) :
    (headersRecord headers).follow name =
      (headers.getAll name).getLast?.map (fun v => .string (v.toStr.getD [])) := by
  rw [Record.follow, Record.get, ← List.head?_filter, List.filter_reverse, List.head?_reverse,
    headersRecord, List.filter_map, List.getLast?_map, MultiMap.getAll, List.getLast?_map, Option.map_map,
    Option.map_map]
  rfl

lemma cookieParse_requestToValue (request : RequestParts) :
    cookieParse (requestToValue request) =
      some (parseCookies
        (((request.headers.getAll "cookie".toList).getLast?.bind Http.HeaderValue.toStr).getD [])) := by
  simp only [cookieParse, follow_headers, bind, Option.bind_some, Value.asRecord, follow_headersRecord]
  cases (request.headers.getAll "cookie".toList).getLast? <;> rfl

example : cookieParse (requestToValue splitCookies) = some [("b".toList, .string "2".toList)] := rfl

lemma splitRowFrom_ne_nil (sep : Str) (skipped : ℕ) (s : Str) : splitRowFrom sep skipped s ≠ [] := by
  induction s generalizing skipped with
  | nil => cases skipped <;> simp [splitRowFrom]
  | cons c s ih =>
    cases skipped with
    | succ skipped => exact ih skipped
    | zero =>
      rw [splitRowFrom]
      split
      · simp
      · simpa using ih 0

lemma splitRow_of_notMem {s : Str} (h : ';' ∉ s) : splitRow [';', ' '] s = [s] := by
  rw [splitRow]
  induction s with
  | nil => rfl
  | cons c s ih =>
    obtain ⟨hc, hs⟩ := not_or.mp (mt List.mem_cons.mpr h)
    rw [splitRowFrom, if_neg (by simp [List.isPrefixOf, hc]), ih hs]
    rfl

lemma splitRow_append (s rest : Str) :
    splitRow [';', ' '] (s ++ ';' :: ' ' :: rest) = splitRow [';', ' '] s ++ splitRow [';', ' '] rest := by
  rw [splitRow, splitRow]
  -- two characters are read at once where the separator stands
  induction hn : s.length using Nat.strong_induction_on generalizing s with
  | _ n ih =>
    rcases s with _ | ⟨c, s⟩
    · rfl
    · by_cases hfound : [';', ' '].isPrefixOf (c :: s)
      · obtain ⟨tail, htail⟩ := List.isPrefixOf_iff_prefix.mp hfound
        obtain ⟨rfl, rfl⟩ : ';' = c ∧ ' ' :: tail = s := by simpa using htail
        have hrest := ih tail.length (by simp [← hn]) tail rfl
        exact congrArg ([] :: ·) hrest
      · have hnext : ¬ [';', ' '].isPrefixOf (c :: (s ++ ';' :: ' ' :: rest)) := by
          rcases s with _ | ⟨d, s⟩
          · simp [List.isPrefixOf]
          · simpa [List.isPrefixOf] using hfound
        rw [List.cons_append, splitRowFrom, if_neg hnext, ih s.length (by simp [← hn]) s rfl, splitRowFrom,
          if_neg hfound]
        have hne : splitRowFrom [';', ' '] 0 s ≠ [] := splitRowFrom_ne_nil _ _ _
        obtain ⟨piece, pieces, hpieces⟩ := List.exists_cons_of_ne_nil hne
        rw [hpieces]
        rfl

lemma mem_of_mem_splitRow {sep s piece : Str} {c : Char} (h : piece ∈ splitRow sep s) (hc : c ∈ piece) :
    c ∈ s := by
  rw [splitRow] at h
  generalize 0 = skipped at h
  induction s generalizing skipped piece with
  | nil => cases skipped <;> simp_all [splitRowFrom]
  | cons d s ih =>
    cases skipped with
    | succ skipped => exact List.mem_cons_of_mem d (ih hc _ h)
    | zero =>
      rw [splitRowFrom] at h
      split at h
      · rcases List.mem_cons.mp h with rfl | h
        · cases hc
        · exact List.mem_cons_of_mem d (ih hc _ h)
      · obtain ⟨first, pieces, hpieces⟩ := List.exists_cons_of_ne_nil (splitRowFrom_ne_nil sep 0 s)
        rw [hpieces, List.modifyHead_cons, List.mem_cons] at h
        rcases h with rfl | h
        · rcases List.mem_cons.mp hc with rfl | hc
          · exact List.mem_cons_self
          · exact List.mem_cons_of_mem d (ih hc _ (hpieces ▸ List.mem_cons_self))
        · exact List.mem_cons_of_mem d (ih hc _ (hpieces ▸ List.mem_cons_of_mem first h))

lemma get_foldl_upsert (pairs : List (Str × Str)) (rec : Record) (name : Str) :
    (pairs.foldl (fun cookies p => Record.upsert cookies p.1 (.string p.2)) rec).get name =
      ((pairs.filter (fun p => p.1 = name)).getLast?.map (fun p => .string p.2)).or (rec.get name) := by
  induction pairs using List.reverseRecOn with
  | nil => rfl
  | append_singleton pairs p ih =>
    rw [List.foldl_append, List.foldl_cons, List.foldl_nil, List.filter_append]
    by_cases hp : p.1 = name
    · rw [hp, Record.get_upsert_self, List.filter_cons_of_pos (by simpa using hp), List.filter_nil,
        List.getLast?_concat]
      rfl
    · rw [Record.get_upsert_ne _ (Ne.symm hp), ih, List.filter_cons_of_neg (by simpa using hp), List.filter_nil,
        List.append_nil]

lemma nodup_foldl_upsert (pairs : List (Str × Str)) {rec : Record} (h : rec.columns.Nodup) :
    (pairs.foldl (fun cookies p => Record.upsert cookies p.1 (.string p.2)) rec).columns.Nodup := by
  induction pairs generalizing rec with
  | nil => exact h
  | cons p pairs ih => exact ih (Record.nodup_upsert h _ _)

def headerPairs (header : Str) : List (Str × Str) :=
  ((splitRow [';', ' '] header).filter (· ≠ [])).filterMap splitPair

lemma headerPairs_append (s rest : Str) :
    headerPairs (s ++ ';' :: ' ' :: rest) = headerPairs s ++ headerPairs rest := by
  rw [headerPairs, splitRow_append, List.filter_append, List.filterMap_append]
  rfl

def Trimmed (s : Str) : Prop := (∀ c ∈ s.head?, isTrimmable c = false) ∧ ∀ c ∈ s.getLast?, isTrimmable c = false

lemma strTrim_of_trimmed {s : Str} (h : Trimmed s) : strTrim s = s := trimMatches_eq_self h.1 h.2

abbrev Part := (Str × Str) ⊕ Str

def Part.text : Part → Str := Sum.elim (fun p => p.1 ++ '=' :: p.2) id

def Part.Plain : Part → Prop
  | .inl (name, value) => '=' ∉ name ∧ ';' ∉ name ∧ Trimmed name ∧ ';' ∉ value ∧ Trimmed value
  | .inr text => '=' ∉ text

def Part.pair? : Part → Option (Str × Str) := Sum.getLeft?

lemma headerPairs_text {part : Part} (h : part.Plain) : headerPairs part.text = part.pair?.toList := by
  rcases part with ⟨name, value⟩ | text
  · obtain ⟨heq, hname, -, hvalue, -⟩ := h
    have htext : ';' ∉ Part.text (.inl (name, value)) := by simp [Part.text, hname, hvalue]
    have hfront : ∀ c ∈ name, (decide (c ≠ '=')) = true := by
      intro c hc
      simpa using fun he : c = '=' => heq (he ▸ hc)
    rw [headerPairs, splitRow_of_notMem htext, List.filter_cons_of_pos (by simp [Part.text])]
    rw [List.filter_nil, List.filterMap_cons, splitPair, Part.text, if_pos (by simp), Sum.elim_inl,
      List.takeWhile_append_of_pos hfront, List.dropWhile_append_of_pos hfront]
    simp [Part.pair?]
  · have hnone : ∀ piece ∈ (splitRow [';', ' '] text).filter (· ≠ []), splitPair piece = none := by
      intro piece hpiece
      have heq : '=' ∉ piece := fun hmem => h (mem_of_mem_splitRow (List.mem_filter.mp hpiece).1 hmem)
      simp [splitPair, heq]
    exact List.filterMap_eq_nil_iff.mpr hnone

lemma headerPairs_join {parts : List Part} (h : ∀ part ∈ parts, part.Plain) :
    headerPairs ([';', ' '].intercalate (parts.map Part.text)) = parts.filterMap Part.pair? := by
  induction parts with
  | nil => rfl
  | cons part parts ih =>
    obtain ⟨hpart, hparts⟩ := List.forall_mem_cons.mp h
    have htext := headerPairs_text hpart
    cases parts with
    | nil =>
      rw [List.map_cons, List.map_nil, List.intercalate_singleton, htext]
      cases part <;> rfl
    | cons next parts =>
      have hcons : [';', ' '].intercalate (part.text :: next.text :: parts.map Part.text) =
          part.text ++ ';' :: ' ' :: [';', ' '].intercalate (next.text :: parts.map Part.text) := by
        rw [List.intercalate_cons_cons, List.append_assoc]
        rfl
      rw [List.map_cons, List.map_cons, hcons, headerPairs_append, htext, ← List.map_cons, ih hparts]
      cases part <;> rfl

lemma foldl_strTrim {pairs : List (Str × Str)} (h : ∀ p ∈ pairs, Trimmed p.1 ∧ Trimmed p.2) (rec : Record) :
    pairs.foldl (fun cookies p => cookies.upsert (strTrim p.1) (.string (strTrim p.2))) rec =
      pairs.foldl (fun cookies p => cookies.upsert p.1 (.string p.2)) rec := by
  induction pairs generalizing rec with
  | nil => rfl
  | cons p pairs ih =>
    obtain ⟨⟨hname, hvalue⟩, hpairs⟩ := List.forall_mem_cons.mp h
    rw [List.foldl_cons, List.foldl_cons, strTrim_of_trimmed hname, strTrim_of_trimmed hvalue, ih hpairs]

lemma parseCookies_join {parts : List Part} (h : ∀ part ∈ parts, part.Plain) :
    parseCookies ("; ".toList.intercalate (parts.map Part.text)) =
      (parts.filterMap Part.pair?).foldl (fun cookies p => Record.upsert cookies p.1 (.string p.2)) [] := by
  have htrimmed : ∀ p ∈ parts.filterMap Part.pair?, Trimmed p.1 ∧ Trimmed p.2 := by
    intro p hp
    obtain ⟨part, hpart, hpair⟩ := List.mem_filterMap.mp hp
    rcases part with ⟨name, value⟩ | text
    · obtain rfl : (name, value) = p := Option.some.inj hpair
      exact ⟨(h _ hpart).2.2.1, (h _ hpart).2.2.2.2⟩
    · cases hpair
  exact (congrArg (List.foldl _ []) (headerPairs_join h)).trans (foldl_strTrim htrimmed [])

lemma get_parseCookies_join {parts : List Part} (h : ∀ part ∈ parts, part.Plain) (name : Str) :
    (parseCookies ("; ".toList.intercalate (parts.map Part.text))).get name =
      ((parts.filterMap Part.pair?).filter (fun p => p.1 = name)).getLast?.map (fun p => .string p.2) := by
  rw [parseCookies_join h, get_foldl_upsert]
  exact Option.or_none

lemma columns_parseCookies_join {parts : List Part} (h : ∀ part ∈ parts, part.Plain) (name : Str) :
    name ∈ (parseCookies ("; ".toList.intercalate (parts.map Part.text))).columns ↔
      ∃ value, .inl (name, value) ∈ parts := by
  rw [Record.mem_columns_iff, get_parseCookies_join h, Option.isSome_map, List.getLast?_isSome]
  constructor
  · intro hne
    obtain ⟨p, hp⟩ := List.exists_mem_of_ne_nil _ hne
    obtain ⟨hpair, hname⟩ := List.mem_filter.mp hp
    obtain ⟨part, hpart, hleft⟩ := List.mem_filterMap.mp hpair
    rcases part with ⟨name', value⟩ | text
    · obtain rfl : (name', value) = p := Option.some.inj hleft
      obtain rfl : name' = name := of_decide_eq_true hname
      exact ⟨value, hpart⟩
    · cases hleft
  · rintro ⟨value, hpart⟩
    have hpair : (name, value) ∈ parts.filterMap Part.pair? := List.mem_filterMap.mpr ⟨_, hpart, rfl⟩
    exact List.ne_nil_of_mem (List.mem_filter.mpr ⟨hpair, decide_eq_true rfl⟩)

lemma cookieParse_of_absent {request headers : Record}
    (hrequest : request.follow "headers".toList = some (.record headers))
    (hcookie : headers.follow "cookie".toList = none) : cookieParse request = some [] := by
  simp only [cookieParse, hrequest, Value.asRecord, hcookie, bind, Option.bind_some]
  rfl

lemma cookieParse_of_string {request headers : Record} {header : Str}
    (hrequest : request.follow "headers".toList = some (.record headers))
    (hcookie : headers.follow "cookie".toList = some (.string header)) :
    cookieParse request = some (parseCookies header) := by
  simp only [cookieParse, hrequest, Value.asRecord, hcookie, bind, Option.bind_some]
  rfl

/-- Each name has its last value, nothing else is a column, and a part without `=` adds nothing. -/
theorem cookieParse_join (parts : List Part) (request headers : Record)
    (hrequest : request.follow "headers".toList = some (.record headers)) (hplain : ∀ part ∈ parts, part.Plain) :
    (headers.follow "cookie".toList = none → cookieParse request = some []) ∧
      (headers.follow "cookie".toList = some (.string ("; ".toList.intercalate (parts.map Part.text))) →
        ∃ cookies, cookieParse request = some cookies ∧ cookies.columns.Nodup ∧
          (∀ name, name ∈ cookies.columns ↔ ∃ value, .inl (name, value) ∈ parts) ∧
          ∀ name, cookies.get name =
            ((parts.filterMap Part.pair?).filter (fun p => p.1 = name)).getLast?.map (fun p => .string p.2)) := by
  refine ⟨cookieParse_of_absent hrequest, fun hcookie => ⟨_, cookieParse_of_string hrequest hcookie, ?_, ?_, ?_⟩⟩
  · rw [parseCookies_join hplain]
    exact nodup_foldl_upsert _ List.nodup_nil
  · exact columns_parseCookies_join hplain
  · exact get_parseCookies_join hplain

theorem cookieParse_join_twice :
    let parts : List Part :=
      [.inl ("a".toList, "1=2".toList), .inr "b".toList, .inl ("c".toList, []), .inl ("a".toList, "3".toList)]
    let headers : Record := [("cookie".toList, .string "a=1=2; b; c=; a=3".toList)]
    (∀ part ∈ parts, part.Plain) ∧
      ∃ cookies, cookieParse [("headers".toList, .record headers)] = some cookies ∧
        cookies.get "a".toList = some (.string "3".toList) ∧ cookies.get "c".toList = some (.string []) ∧
        "b".toList ∉ cookies.columns := by
  intro parts headers
  have hplain : ∀ part ∈ parts, part.Plain := by
    simp [parts, Part.Plain, Trimmed]
    decide
  refine ⟨hplain, ?_⟩
  obtain ⟨cookies, hparse, -, hcolumns, hget⟩ := 
    (cookieParse_join parts [("headers".toList, .record headers)] headers rfl hplain).2 rfl
  refine ⟨cookies, hparse, hget _, hget _, fun hb => ?_⟩
  obtain ⟨value, hvalue⟩ := (hcolumns _).mp hb
  simp [parts] at hvalue

end HttpNu.Stdlib.Cookies
