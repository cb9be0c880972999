import HttpNu.Stdlib.Cookies
import HttpNu.Stdlib.Router

/-! `path-matches`: a path read by a pattern with parameters, which is what filling the pattern undoes. -/

namespace HttpNu.Stdlib.Router

open Text
open Cookies (splitRow splitRowFrom)

/-- `str trim --right --char '/'` -/
def trimSlashes (s : Str) : Str := s.rdropWhile (· = '/')

def segments (s : Str) : List Str := splitRow ['/'] (trimSlashes s)

def isParam (segment : Str) : Bool := [':'].isPrefixOf segment

def paramName (segment : Str) : Str := substringFrom 1 segment

/-- `insert`, which fails for a column that is there. -/
def insertColumn (rec : Record) (col : Str) (v : Value) : Except Str Record :=
  if rec.columns.contains col then .error "Column already exists".toList else .ok (rec ++ [(col, v)])

def matchSegment (params : Option Record) (pair : Str × Str) : Except Str (Option Record) :=
  match params with
  | none => .ok none
  | some params =>
    if isParam pair.1 then (insertColumn params (paramName pair.1) (.string pair.2)).map some
    else .ok (if pair.1 = pair.2 then some params else none)

def pathMatches (req : RequestRecord) (pattern : Str) : Except Str (Option Record) := do
  let path ← pathOf req
  if (segments pattern).length ≠ (segments path).length then return none
  ((segments pattern).zip (segments path)).foldlM matchSegment (some [])

example : pathMatches ⟨[("path".toList, .string "//a/é//".toList)], by decide⟩ "/:x/:y/é/".toList = .ok (some
    [("x".toList, .string []), ("y".toList, .string "a".toList)]) := by
  rfl

def paramNames (pattern : Str) : List Str := ((segments pattern).filter isParam).map paramName

def agrees (pair : Str × Str) : Bool := isParam pair.1 || pair.1 = pair.2

def Fits (pattern path : Str) : Prop :=
  (segments pattern).length = (segments path).length ∧ ((segments pattern).zip (segments path)).all agrees = true

instance (pattern path : Str) : Decidable (Fits pattern path) := inferInstanceAs (Decidable (_ ∧ _))

def fillSegment (value : Str → Str) (segment : Str) : Str :=
  if isParam segment then value (paramName segment) else segment

def fill (pattern : Str) (value : Str → Str) : Str :=
  ['/'].intercalate ((splitRow ['/'] pattern).map (fillSegment value))

def textIn (params : Record) (col : Str) : Str := ((params.get col).bind Value.asStr).getD []

lemma splitRow_singleton (c : Char) (s : Str) : splitRow [c] s = s.splitOn c := by
  rw [splitRow]
  induction s with
  | nil => rfl
  | cons d s ih =>
    rw [splitRowFrom, List.splitOn_cons_eq_if_modifyHead, List.length_singleton, Nat.sub_self, ih]
    simp only [List.isPrefixOf, Bool.and_true, beq_iff_eq, eq_comm (a := c)]

def bound (pairs : List (Str × Str)) : Record :=
  (pairs.filter (fun pair => isParam pair.1)).map (fun pair => (paramName pair.1, .string pair.2))

lemma foldlM_none (pairs : List (Str × Str)) : pairs.foldlM matchSegment none = .ok none := by
  induction pairs with
  | nil => rfl
  | cons pair pairs ih => exact ih

lemma foldlM_matchSegment {pairs : List (Str × Str)} {params : Record}
    (hnodup : (params.columns ++ (bound pairs).columns).Nodup) :
    pairs.foldlM matchSegment (some params) =
      .ok (if pairs.all agrees then some (params ++ bound pairs) else none) := by
  induction pairs generalizing params with
  | nil => simp [bound, pure, Except.pure]
  | cons pair pairs ih =>
    obtain ⟨pat, seg⟩ := pair
    rw [List.foldlM_cons, matchSegment, List.all_cons, agrees]
    by_cases hparam : isParam pat = true
    · have hcons : bound ((pat, seg) :: pairs) = (paramName pat, .string seg) :: bound pairs := by
        rw [bound, List.filter_cons_of_pos (by exact hparam)]
        rfl
      rw [hcons, Record.columns_cons, List.append_cons] at hnodup
      have hcolumns : Record.columns (params ++ [(paramName pat, .string seg)]) =
        params.columns ++ [paramName pat] :=
        List.map_append
      have hfresh : paramName pat ∉ params.columns := by
        intro hmem
        have hne := (List.nodup_append.mp (List.nodup_append.mp hnodup).1).2.2 _ hmem _ List.mem_cons_self
        exact hne rfl
      have happend : params ++ (paramName pat, .string seg) :: bound pairs =
          params ++ [(paramName pat, .string seg)] ++ bound pairs := List.append_cons ..
      rw [if_pos hparam, insertColumn, if_neg (by simpa using hfresh), hcons, happend, hparam, Bool.true_or,
        Bool.true_and]
      exact ih (hcolumns ▸ hnodup)
    · have hcons : bound ((pat, seg) :: pairs) = bound pairs := by
        rw [bound, List.filter_cons_of_neg (by exact hparam)]
        rfl
      rw [hcons] at hnodup ⊢
      rw [if_neg hparam]
      by_cases heq : pat = seg
      · rw [if_pos heq, decide_eq_true heq, Bool.or_true, Bool.true_and]
        exact ih hnodup
      · rw [if_neg heq, decide_eq_false heq, Bool.eq_false_of_not_eq_true hparam]
        exact foldlM_none pairs

lemma columns_bound {pats segs : List Str} (h : pats.length = segs.length) :
    (bound (pats.zip segs)).columns = (pats.filter isParam).map paramName := by
  have hfst : (pats.zip segs).map Prod.fst = pats := List.map_fst_zip h.le
  rw [bound, Record.columns, List.map_map]
  conv_rhs => rw [← hfst, List.filter_map, List.map_map]
  rfl

lemma pathMatches_of_path {req : RequestRecord} {path : Str} (hpath : pathOf req = .ok path) (pattern : Str) :
    pathMatches req pattern = if (segments pattern).length ≠ (segments path).length then .ok none
      else ((segments pattern).zip (segments path)).foldlM matchSegment (some []) := by
  rw [pathMatches, hpath]
  rfl

lemma pathMatches_eq {req : RequestRecord} {pattern path : Str} (hpath : pathOf req = .ok path)
    (hnames : (paramNames pattern).Nodup) : pathMatches req pattern =
      .ok (if Fits pattern path then some (bound ((segments pattern).zip (segments path))) else none) := by
  rw [pathMatches_of_path hpath]
  by_cases hlen : (segments pattern).length = (segments path).length
  · have hnodup : (Record.columns [] ++ (bound ((segments pattern).zip (segments path))).columns).Nodup := by
      rw [columns_bound hlen]
      exact hnames
    rw [if_neg (not_not_intro hlen), foldlM_matchSegment hnodup]
    simp only [Fits, hlen, true_and]
    rfl
  · rw [if_pos hlen, if_neg (fun h : Fits pattern path => hlen h.1)]

lemma textIn_of_mem {params : Record} (hnodup : params.columns.Nodup) {col s : Str}
    (h : (col, .string s) ∈ params) :
    textIn params col = s := by
  rw [textIn, (Record.get_eq_some_iff hnodup).mpr h]
  rfl

lemma map_eq_of_zip {pats segs : List Str} {f : Str → Str} (hlen : pats.length = segs.length)
    (h : ∀ pair ∈ pats.zip segs, f pair.1 = pair.2) : pats.map f = segs := by
  calc pats.map f = ((pats.zip segs).map Prod.fst).map f := by rw [List.map_fst_zip hlen.le]
    _ = (pats.zip segs).map Prod.snd := by rw [List.map_map]; exact List.map_congr_left h
    _ = segs := List.map_snd_zip hlen.ge

lemma map_fillSegment {pats segs : List Str} (hlen : pats.length = segs.length)
    (hagree : (pats.zip segs).all agrees = true)
    (hnodup : (bound (pats.zip segs)).columns.Nodup) :
    pats.map (fillSegment (textIn (bound (pats.zip segs)))) = segs := by
  refine map_eq_of_zip hlen (fun pair hpair => ?_)
  rw [fillSegment]
  split
  · rename_i hparam
    exact textIn_of_mem hnodup (List.mem_map.mpr ⟨pair, List.mem_filter.mpr ⟨hpair, hparam⟩, rfl⟩)
  · rename_i hparam
    have hall := List.all_eq_true.mp hagree pair hpair
    rw [agrees, Bool.eq_false_of_not_eq_true hparam, Bool.false_or, decide_eq_true_eq] at hall
    exact hall

lemma intercalate_segments (s : Str) : ['/'].intercalate (segments s) = trimSlashes s := by
  rw [segments, splitRow_singleton, List.intercalate_splitOn]

lemma fill_trimSlashes (pattern : Str) (value : Str → Str) :
    fill (trimSlashes pattern) value = ['/'].intercalate ((segments pattern).map (fillSegment value)) := rfl

lemma fill_slash (pattern : Str) (value : Str → Str) :
    fill (pattern ++ ['/']) value = fill pattern value ++ ['/'] := by
  have hsplit : (pattern ++ ['/']).splitOn '/' = pattern.splitOn '/' ++ [[]] :=
    List.splitOn_append_cons_self pattern []
  have hne : (pattern.splitOn '/').map (fillSegment value) ≠ [] := by simp
  have hempty : fillSegment value [] = [] := rfl
  rw [fill, fill, splitRow_singleton, splitRow_singleton, hsplit, List.map_append, List.map_singleton, hempty,
    intercalate_append _ hne (by simp), List.intercalate_singleton, List.append_nil]

lemma fill_slashes (pattern : Str) (value : Str → Str) (n : Nat) :
    fill (pattern ++ List.replicate n '/') value = fill pattern value ++ List.replicate n '/' := by
  induction n with
  | zero => simp
  | succ n ih => rw [List.replicate_succ', ← List.append_assoc, fill_slash, ih, List.append_assoc]

lemma trimSlashes_slashes (s : Str) (n : Nat) : trimSlashes (s ++ List.replicate n '/') = trimSlashes s := by
  induction n with
  | zero => simp
  | succ n ih => rw [List.replicate_succ', ← List.append_assoc, trimSlashes,
    List.rdropWhile_concat_pos _ _ _ (by simp), ← trimSlashes, ih]

lemma eq_trimSlashes_append (s : Str) : ∃ n, s = trimSlashes s ++ List.replicate n '/' := by
  refine ⟨(s.rtakeWhile (· = '/')).length, ?_⟩
  have hslashes : s.rtakeWhile (· = '/') = List.replicate (s.rtakeWhile (· = '/')).length '/' :=
    List.eq_replicate_of_mem (fun c hc => by simpa using List.mem_rtakeWhile_imp hc)
  rw [← hslashes, trimSlashes, List.rdropWhile_append_rtakeWhile]

lemma trimSlashes_of_getLast? {s : Str} (h : s.getLast? ≠ some '/') : trimSlashes s = s := by
  refine List.rdropWhile_eq_self_iff.mpr (fun hne hlast => h ?_)
  rw [List.getLast?_eq_some_getLast hne]
  exact congrArg some (of_decide_eq_true hlast)

lemma getLast?_trimSlashes (s : Str) : (trimSlashes s).getLast? ≠ some '/' := by
  intro h
  have hself : (trimSlashes s).rdropWhile (· = '/') = trimSlashes s := List.rdropWhile_idempotent _ s
  have hne : trimSlashes s ≠ [] := by
    intro hnil
    rw [hnil] at h
    cases h
  rw [List.getLast?_eq_some_getLast hne] at h
  exact List.rdropWhile_eq_self_iff.mp hself hne (decide_eq_true (Option.some.inj h))

lemma getLast?_intercalate (init : List Str) {last : Str} (h : last ≠ []) :
    (['/'].intercalate (init ++ [last])).getLast? = last.getLast? := by
  cases init with
  | nil => simp
  | cons p ps =>
    rw [intercalate_append _ (by simp) (by simp), List.intercalate_singleton, List.getLast?_append_of_ne_nil _ h]

/-- The values leave no slash where the pattern has none: a segment is filled with one segment, and the last one
stays. -/
structure Fillable (pattern : Str) (value : Str → Str) : Prop where
  slash : ∀ name ∈ paramNames pattern, '/' ∉ value name
  last : ∀ segment, (segments pattern).getLast? = some segment → isParam segment = true →
    value (paramName segment) ≠ []

lemma slash_notMem_fillSegment {pattern : Str} {value : Str → Str} (h : Fillable pattern value) :
    ∀ l ∈ (segments pattern).map (fillSegment value), '/' ∉ l := by
  intro l hl
  obtain ⟨segment, hmem, rfl⟩ := List.mem_map.mp hl
  rw [fillSegment]
  split
  · rename_i hparam
    exact h.slash _ (List.mem_map.mpr ⟨segment, List.mem_filter.mpr ⟨hmem, hparam⟩, rfl⟩)
  · rw [segments, splitRow_singleton] at hmem
    exact not_mem_of_mem_splitOn hmem

lemma segments_fill {pattern : Str} {value : Str → Str} (h : Fillable pattern value) :
    segments (fill pattern value) = (segments pattern).map (fillSegment value) := by
  have hne : segments pattern ≠ [] := by
    rw [segments, splitRow_singleton]
    exact List.splitOn_ne_nil _ _
  have hmap : (segments pattern).map (fillSegment value) ≠ [] := by simpa using hne
  have htrim : trimSlashes (fill (trimSlashes pattern) value) = fill (trimSlashes pattern) value := by
    by_cases hnil : trimSlashes pattern = []
    · rw [hnil]
      rfl
    · have hlast : (segments pattern).getLast hne ≠ [] := by
        have hpiece := getLast_splitOn_ne_nil hnil (getLast?_trimSlashes pattern)
        simp only [segments, splitRow_singleton]
        exact hpiece
      have hfilled : fillSegment value ((segments pattern).getLast hne) ≠ [] := by
        rw [fillSegment]
        split
        · exact h.last _ (List.getLast?_eq_some_getLast hne) ‹_›
        · exact hlast
      have hsplit : (segments pattern).map (fillSegment value) =
          (segments pattern).dropLast.map (fillSegment value) ++
            [fillSegment value ((segments pattern).getLast hne)] := by
        conv_lhs => rw [← List.dropLast_append_getLast hne, List.map_append, List.map_singleton]
      apply trimSlashes_of_getLast?
      rw [fill_trimSlashes, hsplit, getLast?_intercalate _ hfilled]
      intro hslash
      exact slash_notMem_fillSegment h _ (List.mem_map_of_mem (List.getLast_mem hne)) (List.mem_of_getLast? hslash)
  obtain ⟨n, hn⟩ := eq_trimSlashes_append pattern
  calc segments (fill pattern value)
      = segments (fill (trimSlashes pattern) value ++ List.replicate n '/') := by rw [← fill_slashes, ← hn]
    _ = splitRow ['/'] (fill (trimSlashes pattern) value) := by rw [segments, trimSlashes_slashes, htrim]
    _ = (segments pattern).map (fillSegment value) := by
      rw [splitRow_singleton, fill_trimSlashes, List.splitOn_intercalate '/' (slash_notMem_fillSegment h) hmap]

lemma bound_fill (value : Str → Str) (pats : List Str) :
    bound (pats.zip (pats.map (fillSegment value))) =
      ((pats.filter isParam).map paramName).map (fun name => (name, .string (value name))) := by
  induction pats with
  | nil => rfl
  | cons pat pats ih =>
    rw [bound] at ih ⊢
    rw [List.map_cons, List.zip_cons_cons]
    by_cases hparam : isParam pat = true
    · have hvalue : fillSegment value pat = value (paramName pat) := if_pos hparam
      rw [List.filter_cons_of_pos (by exact hparam), List.filter_cons_of_pos hparam, List.map_cons, ih, hvalue]
      rfl
    · rw [List.filter_cons_of_neg (by exact hparam), List.filter_cons_of_neg hparam, ih]

lemma agrees_fill (value : Str → Str) (pats : List Str) :
    (pats.zip (pats.map (fillSegment value))).all agrees = true := by
  induction pats with
  | nil => rfl
  | cons pat pats ih =>
    rw [List.map_cons, List.zip_cons_cons, List.all_cons, ih, Bool.and_true, agrees, fillSegment]
    by_cases hparam : isParam pat = true
    · rw [hparam, Bool.true_or]
    · rw [if_neg hparam, decide_eq_true rfl, Bool.or_true]

theorem pathMatches_fill {pattern : Str} (hnames : (paramNames pattern).Nodup) :
    (∀ req path, pathOf req = .ok path → ∃ result, pathMatches req pattern = .ok result ∧
      (result.isSome = true ↔ Fits pattern path) ∧
      ∀ params ∈ result, params.columns = paramNames pattern ∧
        fill (trimSlashes pattern) (textIn params) = trimSlashes path) ∧
    ∀ req value, Fillable pattern value → pathOf req = .ok (fill pattern value) →
      pathMatches req pattern =
        .ok (some ((paramNames pattern).map (fun name => (name, .string (value name))))) := by
  constructor
  · intro req path hpath
    refine ⟨_, pathMatches_eq hpath hnames, by simp, fun params hparams => ?_⟩
    obtain ⟨⟨hlen, hagree⟩, hbound⟩ := Option.ite_none_right_eq_some.mp hparams
    obtain rfl := Option.some.inj hbound
    have hcolumns := columns_bound hlen
    refine ⟨hcolumns, ?_⟩
    rw [fill_trimSlashes, map_fillSegment hlen hagree (hcolumns ▸ hnames), intercalate_segments]
  · intro req value hvalue hpath
    have hfits : Fits pattern (fill pattern value) := by
      rw [Fits, segments_fill hvalue]
      exact ⟨(List.length_map _).symm, agrees_fill value _⟩
    rw [pathMatches_eq hpath hnames, if_pos hfits, segments_fill hvalue, bound_fill]
    rfl

def usersPattern : Str := "/users/:userId/posts/:postId/".toList

def usersRequest : RequestRecord := ⟨[("path".toList, .string "/users//posts/456".toList)], by decide⟩

theorem pathMatches_fill_users : (paramNames usersPattern).Nodup ∧
    ∃ params, pathMatches usersRequest usersPattern = .ok (some params) ∧
      params.columns = ["userId".toList, "postId".toList] ∧
      fill (trimSlashes usersPattern) (textIn params) = "/users//posts/456".toList := by
  have hnames : (paramNames usersPattern).Nodup := by decide
  refine ⟨hnames, ?_⟩
  obtain ⟨result, hresult, hfits, hparams⟩ :=
    (pathMatches_fill hnames).1 usersRequest "/users//posts/456".toList rfl
  obtain ⟨params, rfl⟩ := Option.isSome_iff_exists.mp (hfits.mpr (by decide))
  obtain ⟨hcolumns, hfill⟩ := hparams params rfl
  exact ⟨params, hresult, hcolumns, hfill⟩

end HttpNu.Stdlib.Router
