import HttpNu.Stdlib.PathMatches

/-! `route`: the tests of routes as patterns, and the handler that a request gets by them. -/

namespace HttpNu.Stdlib.Router

open Text
open Worker (PipelineData Outcome)
open Cookies (splitRow)

def pathMatchesKey : Str := "path-matches".toList

def hasHeaderKey : Str := "has-header".toList

structure RecordPattern where
  fields : Record
  distinct : fields.columns.Nodup

abbrev RouteHandler := PipelineData → RequestRecord → Record → Outcome

/-- What `route` takes for its test. -/
inductive Test where
  | bool (val : Bool)
  | record (pattern : RecordPattern)
  | closure (test : RequestRecord → Except Str (Option Record))

def splitRowInput : Value → Except Str (List Str)
  | .string s => .ok (splitRow [','] s)
  | .list vals =>
    match vals.mapM Value.asStr with
    | some strs => .ok (strs.flatMap (splitRow [',']))
    | none => .error "Input type not supported.".toList
  | _ => .error "Input type not supported.".toList

def headersOf (req : RequestRecord) : Except Str Record :=
  match req.follow "headers".toList with
  | some (.record headers) => .ok headers
  | some _ => .error "Input type not supported.".toList
  | none => .error "Cannot find column 'headers'".toList

def merge (ctx params : Record) : Record := params.foldl (fun ctx e => ctx.upsert e.1 e.2) ctx

def stringParam : Value → Except Str Str
  | .string s => .ok s
  | _ => .error "Can't convert to string.".toList

def defaultEmpty : Option Value → Value
  | none | some .nothing => .string []
  | some value => value

-- the `==` of Nushell on values, and its `str downcase`
variable (eq : Value → Value → Bool) (downcase : Str → Str)

def hasHeader (req : RequestRecord) (name value : Str) : Except Str Bool := do
  let headers ← headersOf req
  let found := (headers.find? (fun e => downcase e.1 = downcase name)).map Prod.snd
  let values ← splitRowInput (defaultEmpty found)
  return values.any (fun s => strTrim s = value)

def getKey (rec : Record) (key : Str) : Except Str Value :=
  match rec.follow key with
  | some value => .ok value
  | none => .error "Cannot find column".toList

/-- `columns` takes a record or a table, and a list without a row that is no record passes for a table. -/
def columnsOf : Value → Except Str (List Str)
  | .record headers => .ok (Record.columns headers)
  | .list vals =>
    match vals.mapM Value.asRecord with
    | some rows => .ok (rows.flatMap Record.columns).eraseDups
    | none => .error "Input type not supported.".toList
  | _ => .error "Input type not supported.".toList

/-- `get` of one column: a value of a record, or the list of a table's. -/
def getColumn : Value → Str → Except Str Value
  | .record headers, name => getKey headers name
  | .list vals, name =>
    match vals.mapM (fun row => row.asRecord.bind (fun rec => rec.follow name)) with
    | some column => .ok (.list column)
    | none => .error "Cannot find column".toList
  | _, _ => .error "Input type not supported.".toList

def allHeaders (req : RequestRecord) (headers : Value) : Except Str Bool := do
  (← columnsOf headers).allM
    (fun name => do hasHeader downcase req name (← stringParam (← getColumn headers name)))

def matchValue (req : RequestRecord) (ctx : Record) (key : Str) (value : Value) : Except Str (Option Record) :=
  if key = pathMatchesKey then do return (← pathMatches req (← stringParam value)).map (merge ctx)
  else if key = hasHeaderKey then (allHeaders downcase req value).map (fun all => if all then some ctx else none)
  else .ok (if eq ((req.follow key).getD .nothing) value then some ctx else none)

def matchKey (pattern : Record) (req : RequestRecord) (ctx : Option Record) (key : Str) :
    Except Str (Option Record) :=
  match ctx with
  | none => .ok none
  | some ctx => do matchValue eq downcase req ctx key (← getKey pattern key)

def Test.run : Test → RequestRecord → Except Str (Option Record)
  | .bool _, _ => .ok (some [])
  | .record pattern, req => pattern.fields.columns.foldlM (matchKey eq downcase pattern.fields req) (some [])
  | .closure test, req => test req

def route (test : Test) (handle : RouteHandler) : Route := ⟨test.run eq downcase, handle⟩

def KeyHolds (req : RequestRecord) (key : Str) (value : Value) : Prop :=
  if key = pathMatchesKey then ∃ pattern params, value = .string pattern ∧
    pathMatches req pattern = .ok (some params)
  else if key = hasHeaderKey then ∃ names, columnsOf value = .ok names ∧
    ∀ name ∈ names, ∃ text, getColumn value name = .ok (.string text) ∧
      hasHeader downcase req name text = .ok true
  else eq ((req.follow key).getD .nothing) value = true

def paramsOf (req : RequestRecord) : Value → Record
  | .string pattern =>
    match pathMatches req pattern with
    | .ok (some params) => params
    | _ => []
  | _ => []

def RecordPattern.params (pattern : RecordPattern) (req : RequestRecord) : Record :=
  (pattern.fields.get pathMatchesKey).elim [] (paramsOf req)

def Test.Holds (req : RequestRecord) : Test → Record → Prop
  | .bool _, ctx => ctx = []
  | .record pattern, ctx => (∀ e ∈ pattern.fields, KeyHolds eq downcase req e.1 e.2) ∧ ctx = pattern.params req
  | .closure test, ctx => test req = .ok (some ctx)

def TextHeaders (req : RequestRecord) : Prop :=
  ∃ headers, headersOf req = .ok headers ∧ ∀ e ∈ headers, ∃ s, e.2 = .string s

def KeyTyped (req : RequestRecord) (key : Str) (value : Value) : Prop :=
  if key = pathMatchesKey then (∃ path, pathOf req = .ok path) ∧ ∃ pattern, value = .string pattern ∧
    (paramNames pattern).Nodup
  else if key = hasHeaderKey then TextHeaders req ∧ ∃ names, columnsOf value = .ok names ∧
    ∀ name ∈ names, ∃ text, getColumn value name = .ok (.string text)
  else True

/-- The test gives an answer: every key of a pattern is typed, and a closure does not fail. -/
def Test.Typed (req : RequestRecord) : Test → Prop
  | .bool _ => True
  | .record pattern => ∀ e ∈ pattern.fields, KeyTyped req e.1 e.2
  | .closure test => ∃ ctx, test req = .ok ctx

variable {eq downcase}

lemma allM_true_iff {α : Type} {p : α → Except Str Bool} {l : List α} :
    l.allM p = .ok true ↔ ∀ x ∈ l, p x = .ok true := by
  induction l with
  | nil => simp [List.allM, pure, Except.pure]
  | cons x l ih =>
    rw [List.allM, List.forall_mem_cons, ← ih]
    rcases p x with err | (_ | _) <;> simp [bind, Except.bind, pure, Except.pure]

lemma allM_ok {α : Type} {p : α → Except Str Bool} {l : List α} (h : ∀ x ∈ l, ∃ b, p x = .ok b) :
    ∃ b, l.allM p = .ok b := by
  induction l with
  | nil => exact ⟨true, rfl⟩
  | cons x l ih =>
    obtain ⟨⟨b, hb⟩, hrest⟩ := List.forall_mem_cons.mp h
    rw [List.allM, hb]
    cases b with
    | false => exact ⟨false, rfl⟩
    | true => exact ih hrest

lemma hasHeader_ok {req : RequestRecord} (h : TextHeaders req) (name value : Str) :
    ∃ b, hasHeader downcase req name value = .ok b := by
  obtain ⟨headers, hheaders, htext⟩ := h
  have hvalues : ∃ values, splitRowInput (defaultEmpty
      ((headers.find? (fun e => downcase e.1 = downcase name)).map Prod.snd)) = .ok values := by
    cases hfind : headers.find? (fun e => downcase e.1 = downcase name) with
    | none => exact ⟨_, rfl⟩
    | some e =>
      obtain ⟨s, hs⟩ := htext e (List.mem_of_find?_eq_some hfind)
      rw [Option.map_some, hs]
      exact ⟨_, rfl⟩
  obtain ⟨values, hvalues⟩ := hvalues
  refine ⟨values.any (fun s => strTrim s = value), ?_⟩
  simp only [hasHeader, hheaders, hvalues, bind, Except.bind, pure, Except.pure]

lemma hasHeader_of_string_iff {req : RequestRecord} {name : Str} {value : Except Str Value} :
    (do hasHeader downcase req name (← stringParam (← value))) = .ok true ↔
      ∃ text, value = .ok (.string text) ∧ hasHeader downcase req name text = .ok true := by
  rcases value with err | value
  · simp [bind, Except.bind]
  · cases value <;> simp [bind, Except.bind, stringParam]

lemma allHeaders_true_iff {req : RequestRecord} {value : Value} : allHeaders downcase req value = .ok true ↔
    ∃ names, columnsOf value = .ok names ∧ ∀ name ∈ names, ∃ text, getColumn value name = .ok (.string text) ∧
      hasHeader downcase req name text = .ok true := by
  rw [allHeaders]
  cases columnsOf value with
  | error err => simp [bind, Except.bind]
  | ok names =>
    simp only [Except.ok.injEq, exists_eq_left']
    exact allM_true_iff.trans (forall₂_congr (fun name _ => hasHeader_of_string_iff))

lemma allHeaders_ok {req : RequestRecord} (hreq : TextHeaders req) {value : Value} {names : List Str}
    (hcolumns : columnsOf value = .ok names)
    (h : ∀ name ∈ names, ∃ text, getColumn value name = .ok (.string text)) :
    ∃ b, allHeaders downcase req value = .ok b := by
  rw [allHeaders, hcolumns]
  refine allM_ok (fun name hname => ?_)
  obtain ⟨text, htext⟩ := h name hname
  rw [htext]
  exact hasHeader_ok hreq name text

def keyParams (req : RequestRecord) (key : Str) (value : Value) : Record :=
  if key = pathMatchesKey then paramsOf req value else []

lemma matchValue_some_iff {req : RequestRecord} {ctx ctx' : Record} {key : Str} {value : Value} :
    matchValue eq downcase req ctx key value = .ok (some ctx') ↔
      KeyHolds eq downcase req key value ∧ ctx' = merge ctx (keyParams req key value) := by
  rw [matchValue, KeyHolds, keyParams]
  by_cases hpath : key = pathMatchesKey
  · simp only [if_pos hpath]
    cases value with
    | string pattern =>
      cases hmatch : pathMatches req pattern with
      | error err => simp [stringParam, paramsOf, hmatch, bind, Except.bind]
      | ok params =>
        cases params <;> simp [stringParam, paramsOf, hmatch, bind, Except.bind, pure, Except.pure, eq_comm]
    | _ => simp [stringParam, bind, Except.bind]
  by_cases hheader : key = hasHeaderKey
  · simp only [if_neg hpath, if_pos hheader, ← allHeaders_true_iff]
    rcases allHeaders downcase req value with err | (_ | _) <;> simp [Except.map, merge, eq_comm]
  · simp only [if_neg hpath, if_neg hheader]
    cases eq ((req.follow key).getD .nothing) value <;> simp [merge, eq_comm]

lemma matchValue_ok {req : RequestRecord} {key : Str} {value : Value} (h : KeyTyped req key value) (ctx : Record) :
    ∃ result, matchValue eq downcase req ctx key value = .ok result := by
  rw [KeyTyped] at h
  rw [matchValue]
  split_ifs at h ⊢ with hpath hheader
  · obtain ⟨⟨path, hreq⟩, pattern, rfl, hnames⟩ := h
    rw [stringParam]
    simp only [pathMatches_eq hreq hnames, bind, Except.bind]
    exact ⟨_, rfl⟩
  · obtain ⟨hreq, names, hcolumns, htext⟩ := h
    obtain ⟨b, hb⟩ : ∃ b, allHeaders downcase req value = .ok b := allHeaders_ok hreq hcolumns htext
    rw [hb]
    exact ⟨_, rfl⟩
  · exact ⟨_, rfl⟩
  · exact ⟨_, rfl⟩

lemma foldlM_matchKey_none (pattern : Record) (req : RequestRecord) (keys : List Str) :
    keys.foldlM (matchKey eq downcase pattern req) none = .ok none := by
  induction keys with
  | nil => rfl
  | cons key keys ih => exact ih

/-- The fold is a conjunction: a key that does not hold leaves null, which the others pass on. -/
lemma foldlM_matchKey {pattern fields : Record} {req : RequestRecord} {ctx ctx' : Record}
    (hfields : ∀ e ∈ fields, pattern.follow e.1 = some e.2) :
    fields.columns.foldlM (matchKey eq downcase pattern req) (some ctx) = .ok (some ctx') ↔
      (∀ e ∈ fields, KeyHolds eq downcase req e.1 e.2) ∧
        ctx' = fields.foldl (fun ctx e => merge ctx (keyParams req e.1 e.2)) ctx := by
  induction fields generalizing ctx with
  | nil => simp [Record.columns, pure, Except.pure, eq_comm]
  | cons e fields ih =>
    obtain ⟨hfollow, hrest⟩ := List.forall_mem_cons.mp hfields
    have hstep : matchKey eq downcase pattern req (some ctx) e.1 = matchValue eq downcase req ctx e.1 e.2 := by
      rw [matchKey, getKey, hfollow]
      rfl
    have hholds : KeyHolds eq downcase req e.1 e.2 →
        matchValue eq downcase req ctx e.1 e.2 = .ok (some (merge ctx (keyParams req e.1 e.2))) :=
      fun h => matchValue_some_iff.mpr ⟨h, rfl⟩
    rw [Record.columns_cons, List.foldlM_cons, hstep, List.forall_mem_cons, List.foldl_cons]
    rcases hvalue : matchValue eq downcase req ctx e.1 e.2 with err | (_ | next)
    · have hnot : ¬ KeyHolds eq downcase req e.1 e.2 := by
        intro h
        cases hvalue.symm.trans (hholds h)
      simp [hnot, bind, Except.bind]
    · have hnot : ¬ KeyHolds eq downcase req e.1 e.2 := by
        intro h
        cases hvalue.symm.trans (hholds h)
      simp [hnot, bind, Except.bind, foldlM_matchKey_none]
    · obtain ⟨hholds, rfl⟩ := matchValue_some_iff.mp hvalue
      simp only [hholds, true_and]
      exact ih hrest

lemma foldlM_matchKey_ok {pattern fields : Record} {req : RequestRecord}
    (hfields : ∀ e ∈ fields, pattern.follow e.1 = some e.2) (htyped : ∀ e ∈ fields, KeyTyped req e.1 e.2)
    (ctx : Record) :
    ∃ result, fields.columns.foldlM (matchKey eq downcase pattern req) (some ctx) = .ok result := by
  induction fields generalizing ctx with
  | nil => exact ⟨_, rfl⟩
  | cons e fields ih =>
    obtain ⟨hfollow, hrest⟩ := List.forall_mem_cons.mp hfields
    obtain ⟨hkey, htypes⟩ := List.forall_mem_cons.mp htyped
    have hstep : matchKey eq downcase pattern req (some ctx) e.1 = matchValue eq downcase req ctx e.1 e.2 := by
      rw [matchKey, getKey, hfollow]
      rfl
    obtain ⟨result, hresult⟩ : ∃ result, matchValue eq downcase req ctx e.1 e.2 = .ok result :=
      matchValue_ok hkey ctx
    rw [Record.columns_cons, List.foldlM_cons, hstep, hresult]
    cases result with
    | none => exact ⟨none, foldlM_matchKey_none pattern req _⟩
    | some next => exact ih hrest htypes next

lemma merge_of_nodup {ctx params : Record} (h : (ctx.columns ++ params.columns).Nodup) :
    merge ctx params = ctx ++ params := by
  induction params generalizing ctx with
  | nil => exact (List.append_nil ctx).symm
  | cons e params ih =>
    rw [Record.columns_cons, List.append_cons] at h
    have hcolumns : Record.columns (ctx ++ [(e.1, e.2)]) = ctx.columns ++ [e.1] := List.map_append
    have hfresh : e.1 ∉ ctx.columns := fun hmem =>
      (List.nodup_append.mp (List.nodup_append.mp h).1).2.2 _ hmem _ List.mem_cons_self rfl
    have hstep : merge ctx (e :: params) = merge (ctx.upsert e.1 e.2) params := rfl
    rw [hstep, Record.upsert_of_notMem hfresh, ih (hcolumns ▸ h), List.append_assoc]
    rfl

lemma nodup_foldlM_matchSegment {pairs : List (Str × Str)} {params result : Record}
    (h : pairs.foldlM matchSegment (some params) = .ok (some result)) (hnodup : params.columns.Nodup) :
    result.columns.Nodup := by
  induction pairs generalizing params with
  | nil =>
    obtain rfl := Option.some.inj (Except.ok.inj h)
    exact hnodup
  | cons pair pairs ih =>
    rw [List.foldlM_cons, matchSegment, insertColumn] at h
    split_ifs at h with hparam hmem heq
    · cases h
    · rw [List.contains_iff_mem] at hmem
      refine ih h ?_
      rw [Record.columns, List.map_append]
      exact (List.nodup_append_comm.mp (List.nodup_cons.mpr ⟨hmem, hnodup⟩))
    · exact ih h hnodup
    · cases (foldlM_none pairs).symm.trans h

lemma nodup_pathMatches {req : RequestRecord} {pattern : Str} {params : Record}
    (h : pathMatches req pattern = .ok (some params)) : params.columns.Nodup := by
  cases hpath : pathOf req with
  | error err =>
    rw [pathMatches, hpath] at h
    cases h
  | ok path =>
    rw [pathMatches_of_path hpath] at h
    split at h
    · cases h
    · exact nodup_foldlM_matchSegment h List.nodup_nil

lemma nodup_paramsOf (req : RequestRecord) (value : Value) : (paramsOf req value).columns.Nodup := by
  cases value with
  | string pattern =>
    rw [paramsOf]
    split
    · exact nodup_pathMatches ‹_›
    · exact List.nodup_nil
  | _ => exact List.nodup_nil

lemma foldl_keyParams_of_notMem {fields : Record} (h : pathMatchesKey ∉ fields.columns) (req : RequestRecord)
    (ctx : Record) : fields.foldl (fun ctx e => merge ctx (keyParams req e.1 e.2)) ctx = ctx := by
  induction fields with
  | nil => rfl
  | cons e fields ih =>
    rw [Record.columns_cons, List.mem_cons, not_or] at h
    rw [List.foldl_cons, keyParams, if_neg (Ne.symm h.1)]
    exact ih h.2

lemma foldl_keyParams {fields : Record} (h : fields.columns.Nodup) (req : RequestRecord) :
    fields.foldl (fun ctx e => merge ctx (keyParams req e.1 e.2)) [] =
      (fields.get pathMatchesKey).elim [] (paramsOf req) := by
  induction fields with
  | nil => rfl
  | cons e fields ih =>
    obtain ⟨key, value⟩ := e
    obtain ⟨hnotMem, hnodup⟩ := List.nodup_cons.mp h
    rw [List.foldl_cons, keyParams]
    by_cases hkey : key = pathMatchesKey
    · have hmerge : merge [] (paramsOf req value) = paramsOf req value := merge_of_nodup (nodup_paramsOf req value)
      have hget : Record.get ((key, value) :: fields) pathMatchesKey = some value := by simp [Record.get, hkey]
      rw [if_pos hkey, hmerge, foldl_keyParams_of_notMem (hkey ▸ hnotMem), hget]
      rfl
    · have hget : Record.get ((key, value) :: fields) pathMatchesKey = Record.get fields pathMatchesKey := by
        simp [Record.get, hkey]
      rw [if_neg hkey, hget]
      exact ih hnodup

lemma RecordPattern.follow (pattern : RecordPattern) :
    ∀ e ∈ pattern.fields, pattern.fields.follow e.1 = some e.2 :=
  fun _ he => (Record.follow_eq_some_iff pattern.distinct).mpr he

lemma run_some_iff {test : Test} {req : RequestRecord} {ctx : Record} :
    test.run eq downcase req = .ok (some ctx) ↔ test.Holds eq downcase req ctx := by
  cases test with
  | bool val => simp [Test.run, Test.Holds, eq_comm]
  | record pattern =>
    rw [Test.run, Test.Holds, foldlM_matchKey pattern.follow, foldl_keyParams pattern.distinct]
    rfl
  | closure test => rfl

lemma run_ok {test : Test} {req : RequestRecord} (h : test.Typed req) :
    ∃ ctx, test.run eq downcase req = .ok ctx := by
  cases test with
  | bool val => exact ⟨_, rfl⟩
  | record pattern => exact foldlM_matchKey_ok pattern.follow h []
  | closure test => exact h

variable (eq downcase) in
def routes (defs : List (Test × RouteHandler)) : List Route := defs.map (fun d => route eq downcase d.1 d.2)

lemma not_holds_of_run_none {test : Test} {req : RequestRecord} (h : test.run eq downcase req = .ok none)
    (ctx : Record) :
    ¬ test.Holds eq downcase req ctx := by
  rw [← run_some_iff, h]
  simp

lemma findMatch_routes {req : RequestRecord} {before : List (Test × RouteHandler)}
    (h : ∀ d ∈ before, d.1.run eq downcase req = .ok none) (defs : List (Test × RouteHandler)) :
    findMatch req (routes eq downcase (before ++ defs)) = findMatch req (routes eq downcase defs) := by
  rw [routes, List.map_append]
  exact findMatch_skip (List.forall_mem_map.mpr h) _

variable (eq downcase) in
lemma exists_first (req : RequestRecord) (defs : List (Test × RouteHandler)) :
    (∀ d ∈ defs, d.1.run eq downcase req = .ok none) ∨ ∃ before d after, defs = before ++ d :: after ∧
      (∀ b ∈ before, b.1.run eq downcase req = .ok none) ∧ d.1.run eq downcase req ≠ .ok none := by
  induction defs with
  | nil => exact Or.inl nofun
  | cons d defs ih =>
    by_cases hd : d.1.run eq downcase req = .ok none
    · rcases ih with hall | ⟨before, first, after, rfl, hbefore, hfirst⟩
      · exact Or.inl (List.forall_mem_cons.mpr ⟨hd, hall⟩)
      · exact Or.inr ⟨d :: before, first, after, rfl, List.forall_mem_cons.mpr ⟨hd, hbefore⟩, hfirst⟩
    · exact Or.inr ⟨[], d, defs, rfl, nofun, hd⟩

lemma params_perm {pattern pattern' : RecordPattern} (h : pattern.fields.Perm pattern'.fields)
    (req : RequestRecord) :
    pattern.params req = pattern'.params req := by
  have hget : Record.get pattern.fields pathMatchesKey = Record.get pattern'.fields pathMatchesKey :=
    Option.ext (fun value => by
      rw [Record.get_eq_some_iff pattern.distinct, Record.get_eq_some_iff pattern'.distinct, h.mem_iff])
  rw [RecordPattern.params, RecordPattern.params, hget]

lemma textHeaders_ofParts (request : RequestParts) : TextHeaders (.ofParts request) := by
  refine ⟨Request.headersRecord request.headers, ?_, fun e he => ?_⟩
  · have hheaders : (RequestRecord.ofParts request).follow "headers".toList = _ := Request.follow_headers request
    rw [headersOf, hheaders]
  · obtain ⟨line, _, rfl⟩ := List.mem_map.mp he
    exact ⟨_, rfl⟩

theorem dispatch_first_match (eq : Value → Value → Bool) (downcase : Str → Str) (body : PipelineData)
    (req : RequestRecord) (defs : List (Test × RouteHandler)) :
    ((∃ before test handle after ctx, defs = before ++ (test, handle) :: after ∧
        (∀ d ∈ before, ∀ ctx, ¬ d.1.Holds eq downcase req ctx) ∧ test.Holds eq downcase req ctx ∧
        ∀ later, dispatch body req (routes eq downcase (before ++ (test, handle) :: later)) =
          handle body req ctx) ∨
      ((∀ d ∈ defs, ∀ ctx, ¬ d.1.Holds eq downcase req ctx) ∧ dispatch body req (routes eq downcase defs) =
        withHttpResponse "No route configured".toList [("status".toList, .int 501)]) ∨
      ∃ before test handle after err, defs = before ++ (test, handle) :: after ∧
        (∀ d ∈ before, ∀ ctx, ¬ d.1.Holds eq downcase req ctx) ∧ ¬ test.Typed req ∧
        ∀ later, dispatch body req (routes eq downcase (before ++ (test, handle) :: later)) = .err err) ∧
    (∀ pattern pattern' : RecordPattern, pattern.fields.Perm pattern'.fields → ∀ ctx,
      (Test.record pattern).Holds eq downcase req ctx ↔ (Test.record pattern').Holds eq downcase req ctx) ∧
    ∀ request : RequestParts, (∃ path, pathOf (.ofParts request) = .ok path) ∧ TextHeaders (.ofParts request) := by
  refine ⟨?_, fun pattern pattern' h ctx => ?_,
    fun request => ⟨⟨_, pathOf_ofParts request⟩, textHeaders_ofParts request⟩⟩
  · rcases exists_first eq downcase req defs with hall | ⟨before, ⟨test, handle⟩, after, rfl, hbefore, hfirst⟩
    · refine Or.inr (Or.inl ⟨fun d hd => not_holds_of_run_none (hall d hd), ?_⟩)
      have hfind := findMatch_routes hall []
      rw [List.append_nil] at hfind
      rw [dispatch, hfind]
      rfl
    · have hpassed : ∀ d ∈ before, ∀ ctx, ¬ d.1.Holds eq downcase req ctx :=
        fun d hd => not_holds_of_run_none (hbefore d hd)
      cases hrun : test.run eq downcase req with
      | error err =>
        refine Or.inr (Or.inr ⟨before, test, handle, after, err, rfl, hpassed, fun htyped => ?_, fun later => ?_⟩)
        · obtain ⟨ctx, hctx⟩ : ∃ ctx, test.run eq downcase req = .ok ctx := run_ok htyped
          cases hrun.symm.trans hctx
        · have htest : (route eq downcase test handle).test req = .error err := hrun
          rw [dispatch, findMatch_routes hbefore, routes, List.map_cons, findMatch, htest]
      | ok result =>
        cases result with
        | none => exact absurd hrun hfirst
        | some ctx =>
          refine Or.inl ⟨before, test, handle, after, ctx, rfl, hpassed, run_some_iff.mp hrun, fun later => ?_⟩
          have htest : (route eq downcase test handle).test req = .ok (some ctx) := hrun
          rw [dispatch, findMatch_routes hbefore, routes, List.map_cons, findMatch, htest]
          rfl
  · rw [Test.Holds, Test.Holds, params_perm h]
    exact and_congr_left' (forall_congr' (fun e => by rw [h.mem_iff]))

def failingFirst : List (Test × RouteHandler) :=
  [(.closure (fun _ => .error "boom".toList), fun _ _ _ => .ok .empty), (.bool true, fun _ _ _ => .ok .empty)]

theorem dispatch_stops_at_error :
    ¬ ∀ (eq : Value → Value → Bool) (downcase : Str → Str) (body : PipelineData) (req : RequestRecord)
      (defs : List (Test × RouteHandler)),
      (∃ before test handle after ctx, defs = before ++ (test, handle) :: after ∧
        (∀ d ∈ before, ∀ ctx, ¬ d.1.Holds eq downcase req ctx) ∧ test.Holds eq downcase req ctx ∧
        dispatch body req (routes eq downcase defs) = handle body req ctx) ∨
      ((∀ d ∈ defs, ∀ ctx, ¬ d.1.Holds eq downcase req ctx) ∧ dispatch body req (routes eq downcase defs) =
        withHttpResponse "No route configured".toList [("status".toList, .int 501)]) := by
  intro h
  have hstops : ∀ eq downcase, dispatch .empty usersRequest (routes eq downcase failingFirst) =
      .err "boom".toList := fun _ _ => rfl
  rcases h (fun _ _ => false) id .empty usersRequest failingFirst with
    ⟨before, test, handle, after, ctx, hdefs, -, hholds, hanswer⟩ | ⟨-, hanswer⟩
  · have hmem : (test, handle) ∈ failingFirst := hdefs ▸ List.mem_append_right before List.mem_cons_self
    rw [hstops] at hanswer
    rcases List.mem_cons.mp hmem with hfirst | hsecond
    · obtain ⟨rfl, -⟩ := Prod.mk.inj hfirst
      cases hholds
    · obtain ⟨-, rfl⟩ := Prod.mk.inj (List.mem_singleton.mp hsecond)
      cases hanswer
  · rw [hstops] at hanswer
    cases hanswer

end HttpNu.Stdlib.Router
