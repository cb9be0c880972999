import HttpNu.Library.Runs

/-! HTML at the level of tags, attributes, character references and text: trees, their text, and its parser. -/

namespace HttpNu.Library.Html

/-- An attribute without a value is written by its name alone. -/
abbrev Attrs := List (List Char × Option (List Char))

inductive Node where
  | text (data : List Char)
  | element (name : List Char) (attrs : Attrs) (children : List Node)

/-- Names are the same whatever the case of their letters. -/
def sameName (a b : List Char) : Bool := a.map Char.toLower = b.map Char.toLower

def voidNames : List String :=
  ["area", "base", "br", "col", "embed", "hr", "img", "input", "link", "meta", "source", "track", "wbr"]

def isVoid (name : List Char) : Bool := voidNames.any (fun v => sameName name v.toList)

def isSpace (c : Char) : Bool := c = ' ' || c = '\t' || c = '\n' || c = '\x0c' || c = '\r'

def escapeChar (c : Char) : List Char :=
  if c = '&' then "&amp;".toList
  else if c = '"' then "&quot;".toList
  else if c = '\'' then "&#x27;".toList
  else if c = '<' then "&lt;".toList
  else if c = '>' then "&gt;".toList
  else [c]

def escape (s : List Char) : List Char := s.flatMap escapeChar

def entities : List (List Char × Char) :=
  [("&amp;".toList, '&'), ("&quot;".toList, '"'), ("&#x27;".toList, '\''), ("&lt;".toList, '<'),
    ("&gt;".toList, '>')]

/-- The characters of a text, after those that belong to the entity before. -/
def unescapeFrom : Nat → List Char → List Char
  | _, [] => []
  | n + 1, _ :: s => unescapeFrom n s
  | 0, c :: s =>
    match entities.find? (fun e => e.1.isPrefixOf (c :: s)) with
    | some (entity, d) => d :: unescapeFrom (entity.length - 1) s
    | none => c :: unescapeFrom 0 s

def unescape (s : List Char) : List Char := unescapeFrom 0 s

def writeAttr : List Char × Option (List Char) → List Char
  | (key, none) => ' ' :: key
  | (key, some value) => ' ' :: key ++ '=' :: '"' :: escape value ++ ['"']

def startTag (name : List Char) (attrs : Attrs) : List Char := '<' :: name ++ attrs.flatMap writeAttr ++ ['>']

def endTag (name : List Char) : List Char := '<' :: '/' :: name ++ ['>']

mutual

def Node.write : Node → List Char
  | .text data => escape data
  | .element name attrs children =>
    if isVoid name then startTag name attrs else startTag name attrs ++ writeAll children ++ endTag name

def writeAll : List Node → List Char
  | [] => []
  | n :: ns => n.write ++ writeAll ns

end

def addText (s : List Char) (ns : List Node) : List Node :=
  if s = [] then ns
  else
    match ns with
    | .text t :: rest => .text (s ++ t) :: rest
    | ns => .text s :: ns

mutual

/-- Adjacent text merged, at every depth. -/
def Node.normal : Node → Node
  | .text data => .text data
  | .element name attrs children => .element name attrs (normalAll children)

def normalAll : List Node → List Node
  | [] => []
  | .text s :: ns => addText s (normalAll ns)
  | .element name attrs children :: ns => (Node.element name attrs children).normal :: normalAll ns

end

def digit? (c : Char) : Option Nat :=
  if '0' ≤ c ∧ c ≤ '9' then some (c.toNat - 48)
  else if 'a' ≤ c ∧ c ≤ 'f' then some (c.toNat - 87)
  else if 'A' ≤ c ∧ c ≤ 'F' then some (c.toNat - 55)
  else none

def number? (base : Nat) (digits : List Char) : Option Nat :=
  if digits = [] then none
  else digits.foldlM (fun n c => ((digit? c).filter (· < base)).map (n * base + ·)) 0

/-- The code points that a numeric reference stands for unchanged. -/
def charOf? (n : Nat) : Option Char :=
  if n ≠ 0 ∧ ¬(0x80 ≤ n ∧ n < 0xa0) ∧ n.isValidChar then some (Char.ofNat n) else none

def decodeReference (name : List Char) : Option Char :=
  match name with
  | '#' :: 'x' :: digits => (number? 16 digits).bind charOf?
  | '#' :: digits => (number? 10 digits).bind charOf?
  | name =>
    if name = "amp".toList then some '&'
    else if name = "quot".toList then some '"'
    else if name = "lt".toList then some '<'
    else if name = "gt".toList then some '>'
    else if name = "apos".toList then some '\''
    else none

structure Frame where
  name : List Char
  attrs : Attrs
  children : List Node

inductive Mode where
  | data
  | reference (buffer : List Char)
  | tagOpen
  | endTagOpen
  | endTagName (name : List Char)
  | tagName (name : List Char)
  | beforeAttrName (name : List Char) (attrs : Attrs)
  | attrName (name : List Char) (attrs : Attrs) (key : List Char)
  | afterAttrName (name : List Char) (attrs : Attrs) (key : List Char)
  | beforeAttrValue (name : List Char) (attrs : Attrs) (key : List Char)
  | attrValue (name : List Char) (attrs : Attrs) (key value : List Char)
  | attrReference (name : List Char) (attrs : Attrs) (key value buffer : List Char)
  | afterAttrValue (name : List Char) (attrs : Attrs)

structure State where
  mode : Mode
  top : Frame
  outer : List Frame

def pushChar (children : List Node) (c : Char) : List Node :=
  match children with
  | .text t :: rest => .text (t ++ [c]) :: rest
  | children => .text [c] :: children

/-- The first attribute of a name counts. -/
def addAttr (attrs : Attrs) (key : List Char) (value : Option (List Char)) : Attrs :=
  if attrs.any (fun a => sameName a.1 key) then attrs else attrs ++ [(key, value)]

namespace State

def goto (s : State) (mode : Mode) : State := { s with mode := mode }

def addChar (s : State) (c : Char) : State :=
  ⟨.data, { s.top with children := pushChar s.top.children c }, s.outer⟩

def openElement (s : State) (name : List Char) (attrs : Attrs) : State :=
  if isVoid name then ⟨.data, { s.top with children := .element name attrs [] :: s.top.children }, s.outer⟩
  else ⟨.data, ⟨name, attrs, []⟩, s.top :: s.outer⟩

def closeElement (s : State) (name : List Char) : Option State :=
  match s.outer with
  | [] => none
  | parent :: outer =>
    if sameName s.top.name name then
      some ⟨.data, { parent with
        children := .element s.top.name s.top.attrs s.top.children.reverse :: parent.children }, outer⟩
    else none

end State

def nul : Char := Char.ofNat 0

/-- Inside a tag NUL becomes the replacement character. -/
def replaceNul (c : Char) : Char := if c = nul then Char.ofNat 0xfffd else c

/-- One character. What this grammar leaves out (comments, other quotes, unknown references, end tags that
are implied, NUL in text) is refused, so that what is accepted has no other reading. -/
def step (s : State) (c : Char) : Option State :=
  match s.mode with
  | .data =>
    if c = '<' then some (s.goto .tagOpen)
    else if c = '&' then some (s.goto (.reference []))
    -- dropped or replaced, which depends on the element around it
    else if c = nul then none
    else some (s.addChar c)
  | .reference buffer =>
    if c = ';' then (decodeReference buffer).map s.addChar else some (s.goto (.reference (buffer ++ [c])))
  | .tagOpen =>
    if c = '/' then some (s.goto .endTagOpen)
    else if c.isAlpha then some (s.goto (.tagName [c]))
    else none
  | .endTagOpen => if c.isAlpha then some (s.goto (.endTagName [c])) else none
  | .endTagName name =>
    if c = '>' then s.closeElement name
    else if isSpace c || c = '/' then none
    else some (s.goto (.endTagName (name ++ [replaceNul c])))
  | .tagName name =>
    if c = '>' then some (s.openElement name [])
    else if c = '/' then none
    else if isSpace c then some (s.goto (.beforeAttrName name []))
    else some (s.goto (.tagName (name ++ [replaceNul c])))
  | .beforeAttrName name attrs =>
    if c = '>' then some (s.openElement name attrs)
    else if c = '/' || c = '=' then none
    else if isSpace c then some s
    else some (s.goto (.attrName name attrs [replaceNul c]))
  | .attrName name attrs key =>
    if c = '>' then some (s.openElement name (addAttr attrs key none))
    else if c = '/' then none
    else if c = '=' then some (s.goto (.beforeAttrValue name attrs key))
    else if isSpace c then some (s.goto (.afterAttrName name attrs key))
    else some (s.goto (.attrName name attrs (key ++ [replaceNul c])))
  | .afterAttrName name attrs key =>
    if c = '>' then some (s.openElement name (addAttr attrs key none))
    else if c = '/' then none
    else if c = '=' then some (s.goto (.beforeAttrValue name attrs key))
    else if isSpace c then some s
    else some (s.goto (.attrName name (addAttr attrs key none) [replaceNul c]))
  | .beforeAttrValue name attrs key =>
    if c = '"' then some (s.goto (.attrValue name attrs key []))
    else if isSpace c then some s
    else none
  | .attrValue name attrs key value =>
    if c = '"' then some (s.goto (.afterAttrValue name (addAttr attrs key (some value))))
    else if c = '&' then some (s.goto (.attrReference name attrs key value []))
    else some (s.goto (.attrValue name attrs key (value ++ [replaceNul c])))
  | .attrReference name attrs key value buffer =>
    if c = ';' then
      (decodeReference buffer).map (fun d => s.goto (.attrValue name attrs key (value ++ [d])))
    else some (s.goto (.attrReference name attrs key value (buffer ++ [c])))
  | .afterAttrValue name attrs =>
    if c = '>' then some (s.openElement name attrs)
    else if isSpace c then some (s.goto (.beforeAttrName name attrs))
    else none

def init : State := ⟨.data, ⟨[], [], []⟩, []⟩

def parse (s : List Char) : Option (List Node) :=
  match run step init s with
  | some ⟨.data, top, []⟩ => some top.children.reverse
  | _ => none

def isTagChar (c : Char) : Bool := c ≠ '>' && c ≠ '/' && !isSpace c

def validName : List Char → Bool
  | [] => false
  | c :: cs => c.isAlpha && cs.all isTagChar

def validKey (key : List Char) : Bool := key ≠ [] && key.all (fun c => isTagChar c && c ≠ '=')

def ValidAttrs (attrs : Attrs) : Prop :=
  (∀ a ∈ attrs, validKey a.1 = true) ∧ attrs.Pairwise (fun a b => sameName a.1 b.1 = false)

mutual

def Node.Valid : Node → Prop
  | .text _ => True
  | .element name attrs children =>
    validName name = true ∧ ValidAttrs attrs ∧ (isVoid name = true → children = []) ∧ AllValid children

def AllValid : List Node → Prop
  | [] => True
  | n :: ns => n.Valid ∧ AllValid ns

end

mutual

def Node.NulFree : Node → Prop
  | .text data => nul ∉ data
  | .element name attrs children =>
    nul ∉ name ∧ (∀ a ∈ attrs, nul ∉ a.1 ∧ ∀ value ∈ a.2, nul ∉ value) ∧ AllNulFree children

def AllNulFree : List Node → Prop
  | [] => True
  | n :: ns => n.NulFree ∧ AllNulFree ns

end

lemma replaceNul_of_ne {c : Char} (h : c ≠ nul) : replaceNul c = c := if_neg h

lemma escapeChar_cases (c : Char) :
    (escapeChar c, c) ∈ entities ∨ escapeChar c = [c] ∧ ∀ e ∈ entities, e.2 ≠ c := by
  rw [escapeChar]
  split_ifs with hamp hquot hapos hlt hgt
  · exact .inl (by simp [entities, hamp])
  · exact .inl (by simp [entities, hquot])
  · exact .inl (by simp [entities, hapos])
  · exact .inl (by simp [entities, hlt])
  · exact .inl (by simp [entities, hgt])
  · exact .inr ⟨rfl, by simp [entities, Ne.symm hamp, Ne.symm hquot, Ne.symm hapos, Ne.symm hlt, Ne.symm hgt]⟩

lemma entity_eq {e : List Char × Char} (he : e ∈ entities) :
    ∃ name, e.1 = '&' :: name ∧ ∀ c ∈ name, c ∉ ['&', '<', '>', '"', '\''] := by
  have hplain : ∀ name : List Char, name.all (fun c => !(['&', '<', '>', '"', '\''].contains c)) = true →
      ∀ c ∈ name, c ∉ ['&', '<', '>', '"', '\''] := by
    intro name hall c hc
    simpa using List.all_eq_true.mp hall c hc
  fin_cases he <;> exact ⟨_, rfl, hplain _ rfl⟩

lemma exists_entity {c : Char} (h : c ∈ ['<', '>', '"', '\'']) : ∃ e ∈ entities, e.2 = c := by
  fin_cases h
  · exact ⟨("&lt;".toList, '<'), by decide, rfl⟩
  · exact ⟨("&gt;".toList, '>'), by decide, rfl⟩
  · exact ⟨("&quot;".toList, '"'), by decide, rfl⟩
  · exact ⟨("&#x27;".toList, '\''), by decide, rfl⟩

lemma escape_append (s t : List Char) : escape (s ++ t) = escape s ++ escape t := List.flatMap_append

lemma escape_cons (c : Char) (s : List Char) : escape (c :: s) = escapeChar c ++ escape s := List.flatMap_cons

lemma unescapeFrom_append (xs ys : List Char) : unescapeFrom xs.length (xs ++ ys) = unescape ys := by
  induction xs with
  | nil => rfl
  | cons x xs ih => simpa [unescapeFrom] using ih

lemma unescape_entity {e : List Char × Char} (he : e ∈ entities) (t : List Char) :
    unescape (e.1 ++ t) = e.2 :: unescape t := by
  fin_cases he
  · exact congrArg ('&' :: ·) (unescapeFrom_append "amp;".toList t)
  · exact congrArg ('"' :: ·) (unescapeFrom_append "quot;".toList t)
  · exact congrArg ('\'' :: ·) (unescapeFrom_append "#x27;".toList t)
  · exact congrArg ('<' :: ·) (unescapeFrom_append "lt;".toList t)
  · exact congrArg ('>' :: ·) (unescapeFrom_append "gt;".toList t)

lemma unescape_cons {c : Char} (hc : c ≠ '&') (t : List Char) : unescape (c :: t) = c :: unescape t := by
  have hnone : entities.find? (fun e => e.1.isPrefixOf (c :: t)) = none := by
    rw [List.find?_eq_none]
    intro e he
    obtain ⟨name, hname, _⟩ := entity_eq he
    rw [hname]
    simp [List.isPrefixOf, hc.symm]
  rw [unescape, unescapeFrom, hnone]
  rfl

lemma unescape_escapeChar (c : Char) (t : List Char) : unescape (escapeChar c ++ t) = c :: unescape t := by
  rcases escapeChar_cases c with he | ⟨heq, hne⟩
  · exact unescape_entity he t
  · rw [heq]
    exact unescape_cons (fun hamp => hne ("&amp;".toList, '&') List.mem_cons_self hamp.symm) t

lemma unescape_escape (s : List Char) : unescape (escape s) = s := by
  induction s with
  | nil => rfl
  | cons c s ih => rw [escape_cons, unescape_escapeChar, ih]

lemma special_notMem_escape {c : Char} {s : List Char} (h : c ∈ escape s) : c ∉ ['<', '>', '"', '\''] := by
  obtain ⟨d, _, hc⟩ := List.mem_flatMap.mp h
  rcases escapeChar_cases d with he | ⟨heq, hne⟩
  · obtain ⟨name, hname, hplain⟩ := entity_eq he
    rw [show escapeChar d = '&' :: name from hname] at hc
    rcases List.mem_cons.mp hc with rfl | hc
    · decide
    · exact fun hmem => hplain c hc (List.mem_cons_of_mem '&' hmem)
  · rw [heq, List.mem_singleton] at hc
    rw [hc]
    intro hmem
    obtain ⟨e, he, hd⟩ := exists_entity hmem
    exact hne e he hd

lemma entity_of_escapeChar_eq {c : Char} {before middle : List Char} (h : escapeChar c = before ++ '&' :: middle) :
    before = [] ∧ (escapeChar c, c) ∈ entities := by
  rcases escapeChar_cases c with he | ⟨heq, hne⟩
  · obtain ⟨name, hname, hplain⟩ := entity_eq he
    refine ⟨?_, he⟩
    cases before with
    | nil => rfl
    | cons d before =>
      have hlater : name = before ++ '&' :: middle := (List.cons_eq_cons.mp (hname.symm.trans h)).2
      have hmem : '&' ∈ name := by simp [hlater]
      exact absurd List.mem_cons_self (hplain '&' hmem)
  · have hmem : '&' ∈ [c] := by simp [← heq, h]
    exact absurd (List.mem_singleton.mp hmem) (hne ("&amp;".toList, '&') List.mem_cons_self)

lemma entity_of_escape_eq {s before rest : List Char} (h : escape s = before ++ '&' :: rest) :
    ∃ e ∈ entities, e.1 <+: '&' :: rest := by
  induction s generalizing before with
  | nil => exact absurd h (by simp [escape])
  | cons c s ih =>
    rw [escape_cons] at h
    rcases List.append_eq_append_iff.mp h with ⟨middle, _, hrest⟩ | ⟨middle, hchar, hrest⟩
    · exact ih hrest
    · cases middle with
      | nil => exact ih (show escape s = [] ++ '&' :: rest from hrest.symm)
      | cons d middle =>
        obtain ⟨rfl, _⟩ := List.cons_eq_cons.mp hrest
        obtain ⟨rfl, he⟩ := entity_of_escapeChar_eq hchar
        refine ⟨_, he, escape s, ?_⟩
        rw [hchar]
        exact hrest.symm

lemma writeAll_append (ns ms : List Node) : writeAll (ns ++ ms) = writeAll ns ++ writeAll ms := by
  induction ns with
  | nil => rfl
  | cons n ns ih => rw [List.cons_append, writeAll, writeAll, ih, List.append_assoc]

lemma allValid_append {ns ms : List Node} : AllValid (ns ++ ms) ↔ AllValid ns ∧ AllValid ms := by
  induction ns with
  | nil => simp [AllValid]
  | cons n ns ih => simp only [List.cons_append, AllValid, ih, and_assoc]

variable {top : Frame} {outer : List Frame} {name key value : List Char} {attrs : Attrs}

lemma run_escapeChar {c : Char} (hc : c ≠ nul) :
    run step ⟨.data, top, outer⟩ (escapeChar c) =
      some ⟨.data, { top with children := pushChar top.children c }, outer⟩ := by
  rw [escapeChar]
  split_ifs with hamp hquot hapos hlt hgt
  · rw [hamp]
    rfl
  · rw [hquot]
    rfl
  · rw [hapos]
    rfl
  · rw [hlt]
    rfl
  · rw [hgt]
    rfl
  · simp [run, step, hlt, hamp, hc, State.addChar]

lemma run_escape {s : List Char} (hs : nul ∉ s) :
    run step ⟨.data, top, outer⟩ (escape s) =
      some ⟨.data, { top with children := s.foldl pushChar top.children }, outer⟩ := by
  induction s generalizing top with
  | nil => rfl
  | cons c s ih =>
    obtain ⟨hc, hs⟩ := not_or.mp (mt List.mem_cons.mpr hs)
    rw [escape, List.flatMap_cons, run_of_append (run_escapeChar (Ne.symm hc))]
    exact ih hs

lemma run_escapeChar_value {c : Char} (hc : c ≠ nul) :
    run step ⟨.attrValue name attrs key value, top, outer⟩ (escapeChar c) =
      some ⟨.attrValue name attrs key (value ++ [c]), top, outer⟩ := by
  rw [escapeChar]
  split_ifs with hamp hquot hapos hlt hgt
  · rw [hamp]
    rfl
  · rw [hquot]
    rfl
  · rw [hapos]
    rfl
  · rw [hlt]
    rfl
  · rw [hgt]
    rfl
  · simp [run, step, hquot, hamp, replaceNul_of_ne hc, State.goto]

lemma run_escape_value {s : List Char} (hs : nul ∉ s) :
    run step ⟨.attrValue name attrs key value, top, outer⟩ (escape s) =
      some ⟨.attrValue name attrs key (value ++ s), top, outer⟩ := by
  induction s generalizing value with
  | nil => simp [escape]
  | cons c s ih =>
    obtain ⟨hc, hs⟩ := not_or.mp (mt List.mem_cons.mpr hs)
    rw [escape, List.flatMap_cons, run_of_append (run_escapeChar_value (Ne.symm hc)), ← escape, ih hs,
      List.append_assoc, List.singleton_append]

lemma isTagChar_iff {c : Char} : isTagChar c = true ↔ c ≠ '>' ∧ c ≠ '/' ∧ isSpace c = false := by
  simp [isTagChar, and_assoc]

lemma run_extend {mode : List Char → Mode} {p : Char → Bool}
    (hstep : ∀ buffer c, p c = true → c ≠ nul →
      step ⟨mode buffer, top, outer⟩ c = some ⟨mode (buffer ++ [c]), top, outer⟩)
    {cs : List Char} (h : cs.all p = true) (hn : nul ∉ cs) (buffer : List Char) :
    run step ⟨mode buffer, top, outer⟩ cs = some ⟨mode (buffer ++ cs), top, outer⟩ := by
  induction cs generalizing buffer with
  | nil => simp
  | cons c cs ih =>
    rw [List.all_cons, Bool.and_eq_true] at h
    obtain ⟨hc, hn⟩ := not_or.mp (mt List.mem_cons.mpr hn)
    rw [run_of_step (hstep buffer c h.1 (Ne.symm hc)), ih h.2 hn, List.append_assoc, List.singleton_append]

lemma run_tagName {cs : List Char} (h : cs.all isTagChar = true) (hn : nul ∉ cs) :
    run step ⟨.tagName name, top, outer⟩ cs = some ⟨.tagName (name ++ cs), top, outer⟩ := by
  refine run_extend (fun buffer c hc hne => ?_) h hn name
  obtain ⟨hgt, hslash, hspace⟩ := isTagChar_iff.mp hc
  simp [step, hgt, hslash, hspace, replaceNul_of_ne hne, State.goto]

lemma run_endTagName {cs : List Char} (h : cs.all isTagChar = true) (hn : nul ∉ cs) :
    run step ⟨.endTagName name, top, outer⟩ cs = some ⟨.endTagName (name ++ cs), top, outer⟩ := by
  refine run_extend (fun buffer c hc hne => ?_) h hn name
  obtain ⟨hgt, hslash, hspace⟩ := isTagChar_iff.mp hc
  simp [step, hgt, hslash, hspace, replaceNul_of_ne hne, State.goto]

lemma run_attrName {cs : List Char} (h : cs.all (fun c => isTagChar c && c ≠ '=') = true) (hn : nul ∉ cs) :
    run step ⟨.attrName name attrs key, top, outer⟩ cs =
      some ⟨.attrName name attrs (key ++ cs), top, outer⟩ := by
  refine run_extend (fun buffer c hc hne => ?_) h hn key
  rw [Bool.and_eq_true, decide_eq_true_eq] at hc
  obtain ⟨hgt, hslash, hspace⟩ := isTagChar_iff.mp hc.1
  simp [step, hgt, hslash, hspace, hc.2, replaceNul_of_ne hne, State.goto]

inductive Pending (name : List Char) : Mode → Attrs → Prop where
  | name : Pending name (.tagName name) []
  | bare (attrs : Attrs) (key : List Char) : Pending name (.attrName name attrs key) (addAttr attrs key none)
  | valued (attrs : Attrs) : Pending name (.afterAttrValue name attrs) attrs

lemma Pending.close {mode : Mode} (h : Pending name mode attrs) :
    step ⟨mode, top, outer⟩ '>' = some ((⟨mode, top, outer⟩ : State).openElement name attrs) := by
  cases h <;> rfl

variable (top outer) in
lemma Pending.next {mode : Mode} (h : Pending name mode attrs) {c : Char} (hc : isTagChar c = true)
    (heq : c ≠ '=') (hne : c ≠ nul) :
    run step ⟨mode, top, outer⟩ [' ', c] = some ⟨.attrName name attrs [c], top, outer⟩ := by
  obtain ⟨hgt, hslash, hspace⟩ := isTagChar_iff.mp hc
  have hsp : isSpace ' ' = true := rfl
  cases h <;> simp [run, step, State.goto, hgt, hslash, heq, hspace, hsp, replaceNul_of_ne hne]

variable (top outer) in
lemma run_writeAttr {mode : Mode} (h : Pending name mode attrs) {a : List Char × Option (List Char)}
    (hkey : validKey a.1 = true) (hnul : nul ∉ a.1 ∧ ∀ value ∈ a.2, nul ∉ value) :
    ∃ mode', run step ⟨mode, top, outer⟩ (writeAttr a) = some ⟨mode', top, outer⟩ ∧
      Pending name mode' (addAttr attrs a.1 a.2) := by
  obtain ⟨key, value⟩ := a
  cases key with
  | nil => cases hkey
  | cons c cs =>
    simp only [validKey, ne_eq, reduceCtorEq, not_false_eq_true, decide_true, Bool.true_and, List.all_cons,
      Bool.and_eq_true, decide_eq_true_eq] at hkey
    obtain ⟨⟨hc, heq⟩, hcs⟩ := hkey
    obtain ⟨hkeyNul, hvalueNul⟩ := hnul
    obtain ⟨hcNul, hcsNul⟩ := not_or.mp (mt List.mem_cons.mpr hkeyNul)
    have hname : run step ⟨mode, top, outer⟩ (' ' :: c :: cs) =
        some ⟨.attrName name attrs (c :: cs), top, outer⟩ := by
      have hnext := run_of_append (h.next top outer hc heq (Ne.symm hcNul)) cs
      rw [run_attrName hcs hcsNul] at hnext
      exact hnext
    cases value with
    | none => exact ⟨_, hname, .bare attrs (c :: cs)⟩
    | some value =>
      refine ⟨.afterAttrValue name (addAttr attrs (c :: cs) (some value)), ?_, .valued _⟩
      have hopen : run step ⟨.attrName name attrs (c :: cs), top, outer⟩ ['=', '"'] =
          some ⟨.attrValue name attrs (c :: cs) [], top, outer⟩ := rfl
      have hwrite : writeAttr (c :: cs, some value) =
        (' ' :: c :: cs) ++ (['=', '"'] ++ (escape value ++ ['"'])) := by
        simp [writeAttr]
      rw [hwrite, run_of_append hname, run_of_append hopen, run_of_append (run_escape_value (hvalueNul value rfl))]
      rfl

variable (top outer) in
lemma run_writeAttrs {mode : Mode} (h : Pending name mode attrs) {added : Attrs}
    (hkeys : ∀ a ∈ added, validKey a.1 = true) (hnul : ∀ a ∈ added, nul ∉ a.1 ∧ ∀ value ∈ a.2, nul ∉ value) :
    ∃ mode', run step ⟨mode, top, outer⟩ (added.flatMap writeAttr) = some ⟨mode', top, outer⟩ ∧
      Pending name mode' (added.foldl (fun attrs a => addAttr attrs a.1 a.2) attrs) := by
  induction added generalizing mode attrs with
  | nil => exact ⟨mode, rfl, h⟩
  | cons a added ih =>
    obtain ⟨hkey, hkeys⟩ := List.forall_mem_cons.mp hkeys
    obtain ⟨hfirst, hnul⟩ := List.forall_mem_cons.mp hnul
    obtain ⟨mode₁, hrun, h₁⟩ := run_writeAttr top outer h hkey hfirst
    obtain ⟨mode₂, hrun₂, h₂⟩ := ih h₁ hkeys hnul
    exact ⟨mode₂, by rw [List.flatMap_cons, run_of_append hrun, hrun₂], h₂⟩

lemma foldl_addAttr {attrs added : Attrs} (h : (attrs ++ added).Pairwise (fun a b => sameName a.1 b.1 = false)) :
    added.foldl (fun attrs a => addAttr attrs a.1 a.2) attrs = attrs ++ added := by
  induction added generalizing attrs with
  | nil => simp
  | cons a added ih =>
    have hnew : attrs.any (fun b => sameName b.1 a.1) = false := by
      rw [List.any_eq_false]
      intro b hb
      simpa using (List.pairwise_append.mp h).2.2 b hb a List.mem_cons_self
    have hadd : addAttr attrs a.1 a.2 = attrs ++ [a] := by
      rw [addAttr, hnew]
      rfl
    rw [List.foldl_cons, hadd, ih (by simpa using h), List.append_assoc, List.singleton_append]

lemma run_startTag (hname : validName name = true) (hattrs : ValidAttrs attrs) (hnameNul : nul ∉ name)
    (hattrsNul : ∀ a ∈ attrs, nul ∉ a.1 ∧ ∀ value ∈ a.2, nul ∉ value) :
    run step ⟨.data, top, outer⟩ (startTag name attrs) =
      some ((⟨.data, top, outer⟩ : State).openElement name attrs) := by
  cases name with
  | nil => cases hname
  | cons c cs =>
    rw [validName, Bool.and_eq_true] at hname
    have halpha : ['<', c] = ['<'] ++ [c] := rfl
    have hslash : c ≠ '/' := by
      rintro rfl
      exact absurd hname.1 (by decide)
    have hopen : run step ⟨.data, top, outer⟩ ['<', c] = some ⟨.tagName [c], top, outer⟩ := by
      simp [run, step, State.goto, hslash, hname.1]
    obtain ⟨mode, hrun, hpending⟩ :=
      run_writeAttrs top outer (Pending.name : Pending (c :: cs) _ _) hattrs.1 hattrsNul
    rw [foldl_addAttr (by simpa using hattrs.2)] at hpending
    have hwrite : startTag (c :: cs) attrs = ['<', c] ++ (cs ++ (attrs.flatMap writeAttr ++ ['>'])) := by
      simp [startTag]
    rw [hwrite, run_of_append hopen, run_of_append (run_tagName hname.2 (mt (List.mem_cons_of_mem c) hnameNul)),
      List.singleton_append,
      run_of_append hrun, run_of_step hpending.close]
    rfl

lemma run_endTag (hname : validName name = true) (hnameNul : nul ∉ name) :
    run step ⟨.data, top, outer⟩ (endTag name) = (⟨.data, top, outer⟩ : State).closeElement name := by
  cases name with
  | nil => cases hname
  | cons c cs =>
    rw [validName, Bool.and_eq_true] at hname
    have hopen : run step ⟨.data, top, outer⟩ ['<', '/', c] = some ⟨.endTagName [c], top, outer⟩ := by
      simp [run, step, State.goto, hname.1]
    have hwrite : endTag (c :: cs) = ['<', '/', c] ++ (cs ++ ['>']) := by simp [endTag]
    rw [hwrite, run_of_append hopen, run_of_append (run_endTagName hname.2 (mt (List.mem_cons_of_mem c) hnameNul)),
      List.singleton_append]
    simp only [run, step, if_true]
    exact Option.bind_fun_some _

/-- The children read so far, the last one first, and what is read after them. -/
def place (children ns : List Node) : List Node :=
  match children, ns with
  | .text t :: rest, .text u :: more => more.reverse ++ .text (t ++ u) :: rest
  | children, ns => ns.reverse ++ children

lemma foldl_pushChar_text (s t : List Char) (rest : List Node) :
    s.foldl pushChar (.text t :: rest) = .text (t ++ s) :: rest := by
  induction s generalizing t with
  | nil => simp
  | cons c s ih => rw [List.foldl_cons, pushChar, ih, List.append_assoc, List.singleton_append]

lemma place_nil (children : List Node) : place children [] = children := by
  cases children with
  | nil => rfl
  | cons n rest => cases n <;> rfl

lemma addText_text {s : List Char} (hs : s ≠ []) (t : List Char) (ns : List Node) :
    addText s (.text t :: ns) = .text (s ++ t) :: ns := by
  rw [addText, if_neg hs]

lemma addText_new {s : List Char} (hs : s ≠ []) {ns : List Node} (h : ∀ t rest, ns ≠ .text t :: rest) :
    addText s ns = .text s :: ns := by
  rw [addText, if_neg hs]
  exact h

lemma addText_eq_or {s : List Char} (hs : s ≠ []) (ns : List Node) :
    (∃ u more, ns = .text u :: more ∧ addText s ns = .text (s ++ u) :: more) ∨
      (∀ u more, ns ≠ .text u :: more) ∧ addText s ns = .text s :: ns := by
  by_cases htext : ∃ u more, ns = .text u :: more
  · obtain ⟨u, more, rfl⟩ := htext
    exact .inl ⟨u, more, rfl, addText_text hs u more⟩
  · have hne : ∀ u more, ns ≠ .text u :: more := fun u more heq => htext ⟨u, more, heq⟩
    exact .inr ⟨hne, addText_new hs hne⟩

lemma place_of_ne {children ns : List Node}
    (h : (∀ t rest, children ≠ .text t :: rest) ∨ ∀ u more, ns ≠ .text u :: more) :
    place children ns = ns.reverse ++ children := by
  rw [place]
  rintro t rest u more rfl rfl
  rcases h with hchildren | hns
  · exact hchildren t rest rfl
  · exact hns u more rfl

lemma place_text {s : List Char} (hs : s ≠ []) (t : List Char) (rest ns : List Node) :
    place (.text (t ++ s) :: rest) ns = place (.text t :: rest) (addText s ns) := by
  rcases addText_eq_or hs ns with ⟨u, more, rfl, hadd⟩ | ⟨hne, hadd⟩
  · rw [hadd]
    simp [place]
  · rw [hadd, place_of_ne (.inr hne)]
    simp [place]

lemma place_newText {s : List Char} (hs : s ≠ []) {children : List Node} (ns : List Node)
    (hc : ∀ t rest, children ≠ .text t :: rest) :
    place (.text s :: children) ns = place children (addText s ns) := by
  rw [place_of_ne (.inl hc)]
  rcases addText_eq_or hs ns with ⟨u, more, rfl, hadd⟩ | ⟨hne, hadd⟩
  · rw [hadd]
    simp [place]
  · rw [hadd, place_of_ne (.inr hne)]
    simp

lemma place_foldl_pushChar (s : List Char) (children ns : List Node) :
    place (s.foldl pushChar children) ns = place children (addText s ns) := by
  cases s with
  | nil => rfl
  | cons c s =>
    have hpush : ∀ rest, (c :: s).foldl pushChar rest = s.foldl pushChar (pushChar rest c) := fun _ => rfl
    cases children with
    | nil =>
      rw [hpush, pushChar, foldl_pushChar_text]
      · exact place_newText (by simp) ns (by simp)
      · simp
    | cons n rest =>
      cases n with
      | text t =>
        rw [foldl_pushChar_text]
        exact place_text (by simp) t rest ns
      | element name attrs inner =>
        rw [hpush, pushChar, foldl_pushChar_text]
        · exact place_newText (by simp) ns (by simp)
        · simp

lemma place_element (name : List Char) (attrs : Attrs) (inner children ns : List Node) :
    place (.element name attrs inner :: children) ns = place children (.element name attrs inner :: ns) := by
  cases children with
  | nil => simp [place]
  | cons n rest => cases n <;> simp [place]

mutual

lemma run_write (n : Node) (h : n.Valid) (hnul : n.NulFree) (top : Frame) (outer : List Frame) (ns : List Node) :
    ∃ children, run step ⟨.data, top, outer⟩ n.write = some ⟨.data, { top with children := children }, outer⟩ ∧
      place children (normalAll ns) = place top.children (normalAll (n :: ns)) := by
  cases n with
  | text s => exact ⟨_, run_escape hnul, by rw [normalAll, place_foldl_pushChar]⟩
  | element name attrs inner =>
    obtain ⟨hname, hattrs, hvoid, hinner⟩ := h
    obtain ⟨hnameNul, hattrsNul, hinnerNul⟩ := hnul
    have hstart := fun top outer => @run_startTag top outer name attrs hname hattrs hnameNul hattrsNul
    refine ⟨.element name attrs (normalAll inner) :: top.children, ?_, ?_⟩
    · rw [Node.write]
      by_cases hv : isVoid name = true
      · rw [if_pos hv, hstart, hvoid hv, State.openElement, if_pos hv]
        rfl
      · rw [if_neg hv, List.append_assoc, run_of_append (hstart top outer), State.openElement, if_neg hv,
          run_of_append (run_writeAll inner hinner hinnerNul ⟨name, attrs, []⟩ (top :: outer)),
          run_endTag hname hnameNul]
        simp [State.closeElement, sameName, place]
    · rw [normalAll, Node.normal, place_element]

lemma run_writeAll (ns : List Node) (h : AllValid ns) (hnul : AllNulFree ns) (top : Frame) (outer : List Frame) :
    run step ⟨.data, top, outer⟩ (writeAll ns) =
      some ⟨.data, { top with children := place top.children (normalAll ns) }, outer⟩ := by
  cases ns with
  | nil => rw [writeAll, normalAll, place_nil, run_nil]
  | cons n ns =>
    obtain ⟨children, hrun, hplace⟩ := run_write n h.1 hnul.1 top outer ns
    rw [writeAll, run_of_append hrun, run_writeAll ns h.2 hnul.2, hplace]

end

theorem parse_writeAll {ns : List Node} (h : AllValid ns) (hnul : AllNulFree ns) :
    parse (writeAll ns) = some (normalAll ns) := by
  rw [parse, init, run_writeAll ns h hnul]
  cases normalAll ns <;> simp [place]

end HttpNu.Library.Html
