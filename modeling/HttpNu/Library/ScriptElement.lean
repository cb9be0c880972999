import HttpNu.Library.StartTag

/-! Script elements: where the text of a script ends, by the states that HTML has for it. -/

namespace HttpNu.Library.ScriptElement

open Html StartTag

/-- The script data states; a name that is read may be that of the element. -/
inductive State where
  | data
  | lessThan
  | endTagOpen
  | endTagName (name : List Char)
  | escapeStart
  | escapeStartDash
  | escaped
  | escapedDash
  | escapedDashDash
  | escapedLessThan
  | escapedEndTagOpen
  | escapedEndTagName (name : List Char)
  | doubleEscapeStart (name : List Char)
  | doubleEscaped
  | doubleEscapedDash
  | doubleEscapedDashDash
  | doubleEscapedLessThan
  | doubleEscapeEnd (name : List Char)
  deriving DecidableEq

def scriptName : List Char := "script".toList

def isDelimiter (c : Char) : Bool := isSpace c || c = '/' || c = '>'

namespace State

def inData (c : Char) : State := if c = '<' then .lessThan else .data

def inEscaped (c : Char) : State :=
  if c = '-' then .escapedDash else if c = '<' then .escapedLessThan else .escaped

def inDoubleEscaped (c : Char) : State :=
  if c = '-' then .doubleEscapedDash else if c = '<' then .doubleEscapedLessThan else .doubleEscaped

/-- The next state; none when the character ends the name of the element's end tag. -/
def step : State → Char → Option State
  | .data, c => some (inData c)
  | .lessThan, c => some (if c = '/' then .endTagOpen else if c = '!' then .escapeStart else inData c)
  | .endTagOpen, c => some (if c.isAlpha then .endTagName [c] else inData c)
  | .endTagName name, c =>
    if isDelimiter c && sameName name scriptName then none
    else some (if c.isAlpha then .endTagName (name ++ [c]) else inData c)
  | .escapeStart, c => some (if c = '-' then .escapeStartDash else inData c)
  | .escapeStartDash, c => some (if c = '-' then .escapedDashDash else inData c)
  | .escaped, c => some (inEscaped c)
  | .escapedDash, c => some (if c = '-' then .escapedDashDash else inEscaped c)
  | .escapedDashDash, c => some (if c = '-' then .escapedDashDash else if c = '>' then .data else inEscaped c)
  | .escapedLessThan, c =>
    some (if c = '/' then .escapedEndTagOpen else if c.isAlpha then .doubleEscapeStart [c] else inEscaped c)
  | .escapedEndTagOpen, c => some (if c.isAlpha then .escapedEndTagName [c] else inEscaped c)
  | .escapedEndTagName name, c =>
    if isDelimiter c && sameName name scriptName then none
    else some (if c.isAlpha then .escapedEndTagName (name ++ [c]) else inEscaped c)
  | .doubleEscapeStart name, c =>
    some (if isDelimiter c then if sameName name scriptName then .doubleEscaped else .escaped
      else if c.isAlpha then .doubleEscapeStart (name ++ [c]) else inEscaped c)
  | .doubleEscaped, c => some (inDoubleEscaped c)
  | .doubleEscapedDash, c => some (if c = '-' then .doubleEscapedDashDash else inDoubleEscaped c)
  | .doubleEscapedDashDash, c =>
    some (if c = '-' then .doubleEscapedDashDash else if c = '>' then .data else inDoubleEscaped c)
  | .doubleEscapedLessThan, c => some (if c = '/' then .doubleEscapeEnd [] else inDoubleEscaped c)
  | .doubleEscapeEnd name, c =>
    some (if isDelimiter c then if sameName name scriptName then .escaped else .doubleEscaped
      else if c.isAlpha then .doubleEscapeEnd (name ++ [c]) else inDoubleEscaped c)

def isDouble : State → Bool
  | .doubleEscaped | .doubleEscapedDash | .doubleEscapedDashDash | .doubleEscapedLessThan | .doubleEscapeEnd _ =>
    true
  | _ => false

end State

def findEnd : State → List Char → Option (List Char × List Char)
  | _, [] => none
  | s, c :: cs =>
    match s.step c with
    | none => some ([], c :: cs)
    | some s' => (findEnd s' cs).map (fun r => (c :: r.1, r.2))

def after : State → List Char → Option State
  | s, [] => some s
  | s, c :: cs => (s.step c).bind (fun s' => after s' cs)

/-- Nothing in the text ends the script, and an end tag after it will. -/
def Inert (script : List Char) : Prop := ∃ s, after .data script = some s ∧ s.isDouble = false

def element (refs : References) (s : List Char) : Option (List RawAttr × List Char) :=
  if sameName (s.take 7) ('<' :: scriptName) && (s.drop 7).head?.any isDelimiter then do
    let (attrs, body) ← tagFrom .beforeName (s.drop 7)
    let (raw, rest) ← findEnd .data body
    let (_, rest) ← tagFrom .beforeName rest
    if rest = [] then some (attrs.map (fun a => (a.1, decode refs a.2)), raw.take (raw.length - 8)) else none
  else none

def parse (refs : References) (text : List Char) : Option (List RawAttr × List Char) := element refs (clean text)

lemma after_append (s : State) (xs ys : List Char) :
    after s (xs ++ ys) = (after s xs).bind (fun t => after t ys) := by
  induction xs generalizing s with
  | nil => rfl
  | cons c xs ih =>
    rw [List.cons_append, after, after]
    cases s.step c with
    | none => rfl
    | some t => exact ih t

lemma findEnd_after {s t : State} {xs : List Char} (h : after s xs = some t) (ys : List Char) :
    findEnd s (xs ++ ys) = (findEnd t ys).map (fun r => (xs ++ r.1, r.2)) := by
  induction xs generalizing s with
  | nil =>
    obtain rfl := Option.some.inj h
    simp
  | cons c xs ih =>
    rw [after] at h
    obtain ⟨s', hs, h⟩ := Option.bind_eq_some_iff.mp h
    rw [List.cons_append, findEnd, hs]
    simp only [ih h, Option.map_map]
    rfl

lemma findEnd_some {s : State} {xs raw rest : List Char} (h : findEnd s xs = some (raw, rest)) :
    xs = raw ++ rest ∧ ∃ t c cs, after s raw = some t ∧ rest = c :: cs ∧ t.step c = none := by
  induction xs generalizing s raw with
  | nil => simp [findEnd] at h
  | cons c xs ih =>
    rw [findEnd] at h
    cases hs : s.step c with
    | none =>
      rw [hs] at h
      obtain ⟨rfl, rfl⟩ := Prod.mk.inj (Option.some.inj h)
      exact ⟨rfl, s, c, xs, rfl, rfl, hs⟩
    | some s' =>
      rw [hs] at h
      obtain ⟨⟨raw', rest'⟩, hfind, he⟩ := Option.map_eq_some_iff.mp h
      obtain ⟨rfl, rfl⟩ := Prod.mk.inj he
      obtain ⟨rfl, t, d, cs, ht, hrest, hstep⟩ := ih hfind
      exact ⟨rfl, t, d, cs, by rw [after, hs]; exact ht, hrest, hstep⟩

def closing : List Char := "</script".toList

lemma length_closing : closing.length = 8 := rfl

lemma step_lessThan (s : State) :
    (s.isDouble = false ∧ (s.step '<' = some .lessThan ∨ s.step '<' = some .escapedLessThan)) ∨
      (s.isDouble = true ∧ s.step '<' = some .doubleEscapedLessThan) := by
  cases s
  case doubleEscaped | doubleEscapedDash | doubleEscapedDashDash | doubleEscapedLessThan | doubleEscapeEnd =>
    exact Or.inr ⟨rfl, rfl⟩
  case data | lessThan | endTagOpen | endTagName | escapeStart | escapeStartDash =>
    exact Or.inl ⟨rfl, Or.inl rfl⟩
  all_goals exact Or.inl ⟨rfl, Or.inr rfl⟩

lemma after_closing (s : State) : ∃ t, after s closing = some t ∧ (t.step '>' = none ↔ s.isDouble = false) := by
  have hclosing : closing = '<' :: "/script".toList := rfl
  rw [hclosing, after]
  rcases step_lessThan s with ⟨hdouble, hs | hs⟩ | ⟨hdouble, hs⟩
  · rw [hs, hdouble]
    exact ⟨.endTagName scriptName, rfl, by decide⟩
  · rw [hs, hdouble]
    exact ⟨.escapedEndTagName scriptName, rfl, by decide⟩
  · rw [hs, hdouble]
    exact ⟨.doubleEscapeEnd scriptName, rfl, by decide⟩

/-- The end that is found is the last one just when the script is inert. -/
lemma findEnd_closing {script : List Char} (h : Inert script) :
    findEnd .data (script ++ (closing ++ ['>'])) = some (script ++ closing, ['>']) := by
  obtain ⟨s, hs, hdouble⟩ := h
  obtain ⟨t, ht, hstep⟩ := after_closing s
  rw [findEnd_after hs, findEnd_after ht, findEnd, hstep.mpr hdouble]
  simp

lemma inert_of_findEnd {script raw rest : List Char}
    (h : findEnd .data (script ++ (closing ++ ['>'])) = some (raw, rest)) (hlen : raw.length = script.length + 8) :
    Inert script := by
  obtain ⟨heq, t, c, cs, ht, rfl, hstep⟩ := findEnd_some h
  rw [← List.append_assoc] at heq
  obtain ⟨rfl, hc⟩ := List.append_inj heq (by rw [List.length_append, length_closing, hlen])
  obtain ⟨rfl, _⟩ := List.cons.inj hc
  rw [after_append] at ht
  obtain ⟨s, hs, ht⟩ := Option.bind_eq_some_iff.mp ht
  obtain ⟨t', ht', hiff⟩ := after_closing s
  obtain rfl := Option.some.inj (ht.symm.trans ht')
  exact ⟨s, hs, hiff.mp hstep⟩

lemma prefix_of_findEnd {script raw rest : List Char}
    (h : findEnd .data (script ++ (closing ++ ['>'])) = some (raw, rest)) :
    raw.length ≤ script.length + 8 ∧ raw.take (raw.length - 8) <+: script := by
  obtain ⟨heq, t, c, cs, _, rfl, _⟩ := findEnd_some h
  have hlen := congrArg List.length heq
  simp only [List.length_append, List.length_cons, List.length_nil, length_closing] at hlen
  have hle : raw.length ≤ script.length + 8 := by omega
  refine ⟨hle, ?_⟩
  have hraw : raw.take (raw.length - 8) <+: script ++ (closing ++ ['>']) :=
    heq ▸ (List.take_prefix _ _).trans (List.prefix_append _ _)
  refine List.prefix_of_prefix_length_le hraw (List.prefix_append _ _) ?_
  rw [List.length_take]
  omega

lemma element_attrs {refs : References} {tagRest script : List Char} {found : List RawAttr}
    (h : element refs ('<' :: scriptName ++ tagRest) = some (found, script)) :
    ∃ raw rest, tagFrom .beforeName tagRest = some (raw, rest) ∧
      raw.map (fun a => (a.1, decode refs a.2)) = found := by
  have hdrop : ('<' :: scriptName ++ tagRest).drop 7 = tagRest := rfl
  rw [element, hdrop] at h
  split at h
  · obtain ⟨⟨raw, rest⟩, htag, h⟩ := Option.bind_eq_some_iff.mp h
    obtain ⟨⟨_, _⟩, _, h⟩ := Option.bind_eq_some_iff.mp h
    obtain ⟨⟨_, _⟩, _, h⟩ := Option.bind_eq_some_iff.mp h
    dsimp only at h
    split at h
    · exact ⟨raw, rest, htag, (Prod.mk.inj (Option.some.inj h)).1⟩
    · simp at h
  · simp at h

section

variable {refs : References} {tagRest script : List Char} {attrs : List RawAttr}
  (htag : tagFrom .beforeName tagRest = some (attrs, script ++ (closing ++ ['>'])))
  (hdelim : tagRest.head?.any isDelimiter = true)
include htag hdelim

lemma element_eq : element refs ('<' :: scriptName ++ tagRest) =
    (findEnd .data (script ++ (closing ++ ['>']))).bind (fun r => (tagFrom .beforeName r.2).bind (fun end' =>
      if end'.2 = [] then some (attrs.map (fun a => (a.1, decode refs a.2)), r.1.take (r.1.length - 8))
      else none)) := by
  have htake : ('<' :: scriptName ++ tagRest).take 7 = '<' :: scriptName := rfl
  have hdrop : ('<' :: scriptName ++ tagRest).drop 7 = tagRest := rfl
  have hname : sameName ('<' :: scriptName) ('<' :: scriptName) = true := by simp [sameName]
  rw [element, htake, hdrop, hname, hdelim, htag]
  rfl

lemma element_of_inert (h : Inert script) :
    element refs ('<' :: scriptName ++ tagRest) = some (attrs.map (fun a => (a.1, decode refs a.2)), script) := by
  have hend : tagFrom .beforeName ['>'] = some ([], []) := rfl
  have hlen : (script ++ closing).length - 8 = script.length := by
    rw [List.length_append, length_closing, Nat.add_sub_cancel]
  rw [element_eq htag hdelim, findEnd_closing h, Option.bind_some, hend, Option.bind_some, if_pos rfl, hlen,
    List.take_left]

lemma element_some {found : List RawAttr} {text : List Char}
    (h : element refs ('<' :: scriptName ++ tagRest) = some (found, text)) :
    found = attrs.map (fun a => (a.1, decode refs a.2)) ∧ text <+: script ∧ (text = script → Inert script) := by
  rw [element_eq htag hdelim] at h
  obtain ⟨⟨raw, rest⟩, hfind, h⟩ := Option.bind_eq_some_iff.mp h
  obtain ⟨_, _, h⟩ := Option.bind_eq_some_iff.mp h
  split at h
  · obtain ⟨rfl, rfl⟩ := Prod.mk.inj (Option.some.inj h)
    obtain ⟨hle, hpre⟩ := prefix_of_findEnd hfind
    refine ⟨rfl, hpre, fun he => ?_⟩
    cases script with
    | nil => exact ⟨.data, rfl, rfl⟩
    | cons c script =>
      have hlen := congrArg List.length he
      rw [List.length_take, List.length_cons] at hlen
      dsimp only at hlen
      exact inert_of_findEnd hfind (by rw [List.length_cons]; omega)
  · simp at h

end

end HttpNu.Library.ScriptElement
