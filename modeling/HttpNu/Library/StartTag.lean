import HttpNu.Library.Html

/-! The attributes of a tag as HTML tokenizes them, whatever the tag looks like, and the character references
in their values. -/

namespace HttpNu.Library.StartTag

open Html

/-- The text as the tokenizer gets it: a newline is one LF, and NUL becomes the replacement character, which it
does in every state of a tag and of a script. -/
def clean : List Char → List Char
  | [] => []
  | c :: s =>
    if c = '\r' then if s.head? = some '\n' then clean s else '\n' :: clean s
    else (if c = Char.ofNat 0 then Char.ofNat 0xfffd else c) :: clean s

def windows1252 : List (Nat × Nat) :=
  [(0x80, 0x20ac), (0x82, 0x201a), (0x83, 0x0192), (0x84, 0x201e), (0x85, 0x2026), (0x86, 0x2020), (0x87, 0x2021),
    (0x88, 0x02c6), (0x89, 0x2030), (0x8a, 0x0160), (0x8b, 0x2039), (0x8c, 0x0152), (0x8e, 0x017d), (0x91, 0x2018),
    (0x92, 0x2019), (0x93, 0x201c), (0x94, 0x201d), (0x95, 0x2022), (0x96, 0x2013), (0x97, 0x2014), (0x98, 0x02dc),
    (0x99, 0x2122), (0x9a, 0x0161), (0x9b, 0x203a), (0x9c, 0x0153), (0x9e, 0x017e), (0x9f, 0x0178)]

def numericChar (n : Nat) : Char :=
  if n = 0 ∨ ¬ n.isValidChar then Char.ofNat 0xfffd else Char.ofNat ((windows1252.lookup n).getD n)

def isDigit10 (c : Char) : Bool := '0' ≤ c && c ≤ '9'

def isHexDigit (c : Char) : Bool := (digit? c).isSome

/-- The table of named references: a name has `;` at its end or not at all, and stands for no more characters
than it has. -/
structure References where
  named : List Char → Option (List Char)
  length_le : ∀ {name text}, named name = some text → text.length ≤ name.length
  semicolon : ∀ {name text}, named name = some text → ';' ∉ name.dropLast
  amp : named "amp;".toList = some ['&']
  quot : named "quot;".toList = some ['"']
  lt : named "lt;".toList = some ['<']
  gt : named "gt;".toList = some ['>']

variable (refs : References)

def longestName : Nat → List Char → Option (Nat × List Char)
  | 0, _ => none
  | n + 1, s =>
    match refs.named (s.take (n + 1)) with
    | some text => some (n + 1, text)
    | none => longestName n s

def numericReference (base start : Nat) (digit : Char → Bool) (s : List Char) : Option (Nat × List Char) :=
  let digits := s.takeWhile digit
  (number? base digits).map (fun n =>
    (start + digits.length + (if s[digits.length]? = some ';' then 1 else 0), [numericChar n]))

/-- What follows an ampersand in a value: how many characters belong to the reference, and its text. A name
without `;` is none before `=` or a letter or digit. -/
def reference (s : List Char) : Option (Nat × List Char) :=
  if s.head? = some '#' then
    if s.tail.head? = some 'x' ∨ s.tail.head? = some 'X' then numericReference 16 2 isHexDigit (s.drop 2)
    else numericReference 10 1 isDigit10 (s.drop 1)
  else
    (longestName refs s.length s).filter (fun r =>
      s[r.1 - 1]? = some ';' ∨ ¬ (s[r.1]?.any (fun c => c = '=' || c.isAlphanum)))

def decodeFrom : Nat → List Char → List Char
  | _, [] => []
  | skipped + 1, _ :: cs => decodeFrom skipped cs
  | 0, c :: cs =>
    if c = '&' then
      match reference refs cs with
      | some (n, text) => text ++ decodeFrom n cs
      | none => c :: decodeFrom 0 cs
    else c :: decodeFrom 0 cs

def decode (value : List Char) : List Char := decodeFrom refs 0 value

/-- The states from the tag's name on. The states after a quoted value and after a slash go on like
`beforeName`. -/
inductive TagState where
  | beforeName
  | name (key : List Char)
  | afterName (key : List Char)
  | beforeValue (key : List Char)
  | quoted (quote : Char) (key value : List Char)
  | unquoted (key value : List Char)
  deriving DecidableEq

abbrev RawAttr := List Char × List Char

namespace TagState

def startName (c : Char) : TagState := .name [c.toLower]

def unquotedStep (key value : List Char) (c : Char) : Option RawAttr × Option TagState :=
  if isSpace c then (some (key, value), some .beforeName)
  else if c = '>' then (some (key, value), none)
  else (none, some (.unquoted key (value ++ [c])))

/-- The attribute that a character completes, and the next state; none when the tag ends. -/
def step : TagState → Char → Option RawAttr × Option TagState
  | .beforeName, c =>
    if isSpace c || c = '/' then (none, some .beforeName)
    else if c = '>' then (none, none)
    else (none, some (startName c))
  | .name key, c =>
    if isSpace c then (none, some (.afterName key))
    else if c = '/' then (some (key, []), some .beforeName)
    else if c = '>' then (some (key, []), none)
    else if c = '=' then (none, some (.beforeValue key))
    else (none, some (.name (key ++ [c.toLower])))
  | .afterName key, c =>
    if isSpace c then (none, some (.afterName key))
    else if c = '/' then (some (key, []), some .beforeName)
    else if c = '>' then (some (key, []), none)
    else if c = '=' then (none, some (.beforeValue key))
    else (some (key, []), some (startName c))
  | .beforeValue key, c =>
    if isSpace c then (none, some (.beforeValue key))
    else if c = '"' ∨ c = '\'' then (none, some (.quoted c key []))
    else if c = '>' then (some (key, []), none)
    else unquotedStep key [] c
  | .quoted quote key value, c =>
    if c = quote then (some (key, value), some .beforeName) else (none, some (.quoted quote key (value ++ [c])))
  | .unquoted key value, c => unquotedStep key value c

end TagState

/-- The attributes up to the end of the tag, duplicates among them, and what follows it. -/
def tagFrom : TagState → List Char → Option (List RawAttr × List Char)
  | _, [] => none
  | s, c :: cs =>
    match s.step c with
    | (attr, some s') => (tagFrom s' cs).map (fun r => (attr.toList ++ r.1, r.2))
    | (attr, none) => some (attr.toList, cs)

def parseAttrs (text : List Char) : Option (List RawAttr) :=
  (tagFrom .beforeName (clean (text ++ ['>']))).bind (fun r =>
    if r.2 = [] then some (r.1.map (fun a => (a.1, decode refs a.2))) else none)

/-- The attributes that the element gets: a name that the tag had before these, or has earlier, is left out. -/
def dropRepeated (before : List (List Char)) : List RawAttr → List RawAttr
  | [] => []
  | a :: attrs =>
    if before.contains a.1 then dropRepeated before attrs else a :: dropRepeated (a.1 :: before) attrs

def putFirst (attr : RawAttr) (r : List RawAttr × List Char) : List RawAttr × List Char := (attr :: r.1, r.2)

lemma mem_of_mem_dropRepeated {before : List (List Char)} {attrs : List RawAttr} {a : RawAttr}
    (h : a ∈ dropRepeated before attrs) : a ∈ attrs := by
  induction attrs generalizing before with
  | nil => exact h
  | cons b attrs ih =>
    rw [dropRepeated] at h
    split_ifs at h with hb
    · exact List.mem_cons_of_mem b (ih h)
    · rcases List.mem_cons.mp h with rfl | h
      · exact List.mem_cons_self
      · exact List.mem_cons_of_mem b (ih h)

lemma dropRepeated_cons_of_notMem {before : List (List Char)} {a : RawAttr} (h : a.1 ∉ before)
    (attrs : List RawAttr) : dropRepeated before (a :: attrs) = a :: dropRepeated (a.1 :: before) attrs := by
  rw [dropRepeated, if_neg (mt List.contains_iff_mem.mp h)]

lemma clean_append_of_head {s t : List Char} (h : t.head? ≠ some '\n') : clean (s ++ t) = clean s ++ clean t := by
  induction s with
  | nil => rfl
  | cons c s ih =>
    have hhead : (s ++ t).head? = some '\n' ↔ s.head? = some '\n' := by
      cases s with
      | nil => simp [h]
      | cons d s => rfl
    rw [List.cons_append, clean, clean, ih]
    simp only [hhead]
    split_ifs <;> rfl

lemma clean_append_of_getLast {s t : List Char} (h : s.getLast? ≠ some '\r') :
    clean (s ++ t) = clean s ++ clean t := by
  induction s with
  | nil => rfl
  | cons c s ih =>
    cases s with
    | nil =>
      have hc : c ≠ '\r' := by simpa using h
      simp [clean, hc]
    | cons d s =>
      have ih := ih (by simpa [List.getLast?_cons_cons] using h)
      rw [List.cons_append, clean, clean, ih]
      simp only [List.cons_append, List.head?_cons]
      by_cases hc : c = '\r'
      · by_cases hd : some d = some '\n' <;> simp [hc, hd]
      · simp [hc]

lemma clean_eq_map {s : List Char} (h : '\r' ∉ s) :
    clean s = s.map (fun c => if c = Char.ofNat 0 then Char.ofNat 0xfffd else c) := by
  induction s with
  | nil => rfl
  | cons c s ih =>
    simp only [List.mem_cons, not_or] at h
    rw [clean, if_neg (Ne.symm h.1), ih h.2, List.map_cons]

lemma mem_clean_of_ne {c : Char} (hn : c ≠ '\n') (hf : c ≠ Char.ofNat 0xfffd) {s : List Char} (h : c ∈ clean s) :
    c ∈ s ∧ c ≠ '\r' ∧ c ≠ Char.ofNat 0 := by
  induction s with
  | nil => simp [clean] at h
  | cons d s ih =>
    rw [clean] at h
    split_ifs at h with hr hhead hz
    · obtain ⟨hmem, hne⟩ := ih h
      exact ⟨List.mem_cons_of_mem d hmem, hne⟩
    · rcases List.mem_cons.mp h with rfl | h
      · exact absurd rfl hn
      · obtain ⟨hmem, hne⟩ := ih h
        exact ⟨List.mem_cons_of_mem d hmem, hne⟩
    · rcases List.mem_cons.mp h with rfl | h
      · exact absurd rfl hf
      · obtain ⟨hmem, hne⟩ := ih h
        exact ⟨List.mem_cons_of_mem d hmem, hne⟩
    · rcases List.mem_cons.mp h with rfl | h
      · exact ⟨List.mem_cons_self, hr, hz⟩
      · obtain ⟨hmem, hne⟩ := ih h
        exact ⟨List.mem_cons_of_mem d hmem, hne⟩

lemma mem_clean {c : Char} (hr : c ≠ '\r') (hz : c ≠ Char.ofNat 0) {s : List Char} (h : c ∈ s) : c ∈ clean s := by
  induction s with
  | nil => simp at h
  | cons d s ih =>
    rw [clean]
    rcases List.mem_cons.mp h with rfl | h
    · rw [if_neg hr, if_neg hz]
      exact List.mem_cons_self
    · split_ifs
      · exact ih h
      · exact List.mem_cons_of_mem _ (ih h)
      · exact List.mem_cons_of_mem _ (ih h)
      · exact List.mem_cons_of_mem _ (ih h)

lemma clean_cons {c : Char} (hr : c ≠ '\r') (hz : c ≠ Char.ofNat 0) (s : List Char) :
    clean (c :: s) = c :: clean s := by
  rw [clean, if_neg hr, if_neg hz]

lemma carriageReturn_notMem_key {key : List Char} (h : validKey key = true) : '\r' ∉ key := by
  intro hm
  rw [validKey, Bool.and_eq_true] at h
  have hc := List.all_eq_true.mp h.2 _ hm
  revert hc
  decide

lemma validKey_clean {key : List Char} (h : validKey key = true) : validKey (clean key) = true := by
  have hcr := carriageReturn_notMem_key h
  rw [validKey, Bool.and_eq_true, decide_eq_true_eq] at h ⊢
  rw [clean_eq_map hcr]
  refine ⟨by simpa using h.1, List.all_eq_true.mpr (fun c hc => ?_)⟩
  obtain ⟨d, hd, rfl⟩ := List.mem_map.mp hc
  split
  · decide
  · exact List.all_eq_true.mp h.2 d hd

lemma clean_key_append {key : List Char} (h : validKey key = true) (t : List Char) :
    clean (' ' :: key ++ t) = ' ' :: clean key ++ clean t := by
  have hcr := carriageReturn_notMem_key h
  have hlast : (' ' :: key).getLast? ≠ some '\r' := by
    intro hl
    rcases List.mem_cons.mp (List.mem_of_getLast? hl) with he | hm
    · revert he
      decide
    · exact hcr hm
  rw [clean_append_of_getLast hlast, clean_cons (by decide) (by decide)]

lemma clean_quoted (value t : List Char) :
    clean ('=' :: '"' :: (value ++ '"' :: t)) = '=' :: '"' :: (clean value ++ '"' :: clean t) := by
  rw [clean_cons (by decide) (by decide), clean_cons (by decide) (by decide), clean_append_of_head (by simp),
    clean_cons (by decide) (by decide)]

lemma clean_eq_self_iff {s : List Char} : clean s = s ↔ '\r' ∉ s ∧ Char.ofNat 0 ∉ s := by
  constructor
  · intro h
    exact ⟨fun hm => (mem_clean_of_ne (by decide) (by decide) (h.symm ▸ hm)).2.1 rfl,
      fun hm => (mem_clean_of_ne (by decide) (by decide) (h.symm ▸ hm)).2.2 rfl⟩
  · rintro ⟨hr, hz⟩
    rw [clean_eq_map hr]
    refine (List.map_congr_left (fun c hc => ?_)).trans (List.map_id' s)
    have hne : c ≠ Char.ofNat 0 := by
      rintro rfl
      exact hz hc
    exact if_neg hne

lemma head_escape (s : List Char) : (escape s).head? = some '\n' ↔ s.head? = some '\n' := by
  cases s with
  | nil => rfl
  | cons c s =>
    rw [escape, List.flatMap_cons, escapeChar]
    split_ifs with hamp hquot hapos hlt hgt
    · simp [hamp]
    · simp [hquot]
    · simp [hapos]
    · simp [hlt]
    · simp [hgt]
    · rfl

lemma clean_escape (s : List Char) : clean (escape s) = escape (clean s) := by
  induction s with
  | nil => rfl
  | cons c s ih =>
    have hcons : escape (c :: s) = escapeChar c ++ escape s := rfl
    by_cases hr : c = '\r'
    · have hchar : escapeChar c = ['\r'] := by rw [hr]; rfl
      rw [hcons, hchar, List.singleton_append, clean, clean, if_pos rfl, if_pos hr, ih]
      simp only [head_escape]
      split_ifs <;> rfl
    · have hlast : (escapeChar c).getLast? ≠ some '\r' := by
        rw [escapeChar]
        split_ifs <;> simp [hr]
      have hchar : clean (escapeChar c) = escapeChar (if c = Char.ofNat 0 then Char.ofNat 0xfffd else c) := by
        by_cases hz : c = Char.ofNat 0
        · rw [hz]
          rfl
        · rw [if_neg hz]
          apply clean_eq_self_iff.mpr
          rw [escapeChar]
          split_ifs
          · decide
          · decide
          · decide
          · decide
          · decide
          · simp [Ne.symm hr, Ne.symm hz]
      rw [hcons, clean_append_of_getLast hlast, ih, hchar, clean, if_neg hr]
      rfl

variable {refs}

lemma longestName_semicolon {name text : List Char} (hname : refs.named name = some text)
    (hlast : name.getLast? = some ';')
    {n : Nat} (hn : name.length ≤ n) (rest : List Char) (hle : n ≤ (name ++ rest).length) :
    longestName refs n (name ++ rest) = some (name.length, text) := by
  induction n with
  | zero =>
    obtain rfl := List.length_eq_zero_iff.mp (Nat.le_zero.mp hn)
    simp at hlast
  | succ n ih =>
    rw [longestName]
    by_cases he : name.length = n + 1
    · rw [← he, List.take_left, hname]
    · have hnone : refs.named ((name ++ rest).take (n + 1)) = none := by
        cases hx : refs.named ((name ++ rest).take (n + 1)) with
        | none => rfl
        | some x =>
          have hsemi := refs.semicolon hx
          rw [List.take_append, List.take_of_length_le (by omega), List.dropLast_append_of_ne_nil] at hsemi
          · exact absurd (List.mem_append_left _ (List.mem_of_getLast? hlast)) hsemi
          · have hrest : rest.length ≠ 0 := by
              simp only [List.length_append] at hle
              omega
            simp only [ne_eq, List.take_eq_nil_iff, not_or]
            exact ⟨by omega, fun h => hrest (by rw [h]; rfl)⟩
      rw [hnone]
      exact ih (by omega) (by omega)

lemma reference_named {name text : List Char} (hname : refs.named name = some text)
    (hlast : name.getLast? = some ';')
    (hhash : name.head? ≠ some '#') (rest : List Char) :
    reference refs (name ++ rest) = some (name.length, text) := by
  have hne : name ≠ [] := by
    rintro rfl
    simp at hlast
  have hhead : (name ++ rest).head? ≠ some '#' := by rwa [List.head?_append_of_ne_nil _ hne]
  have hpos := List.length_pos_iff.mpr hne
  have hget : (name ++ rest)[name.length - 1]? = some ';' := by
    rw [List.getElem?_append_left (by omega), ← List.getLast?_eq_getElem?, hlast]
  rw [reference, if_neg hhead, longestName_semicolon hname hlast (by simp) rest le_rfl,
    Option.filter_some_pos (by simp [hget])]

lemma decodeFrom_skip (xs ys : List Char) : decodeFrom refs xs.length (xs ++ ys) = decodeFrom refs 0 ys := by
  induction xs with
  | nil => rfl
  | cons x xs ih => exact ih

lemma decodeFrom_named {name text : List Char} (hname : refs.named name = some text)
    (hlast : name.getLast? = some ';')
    (hhash : name.head? ≠ some '#') (rest : List Char) :
    decodeFrom refs 0 ('&' :: name ++ rest) = text ++ decodeFrom refs 0 rest := by
  rw [List.cons_append, decodeFrom, if_pos rfl, reference_named hname hlast hhash]
  exact congrArg (text ++ ·) (decodeFrom_skip name rest)

lemma decodeFrom_escapeChar (c : Char) (rest : List Char) :
    decodeFrom refs 0 (escapeChar c ++ rest) = c :: decodeFrom refs 0 rest := by
  rw [escapeChar]
  split_ifs with hamp hquot hapos hlt hgt
  · rw [hamp]
    exact decodeFrom_named refs.amp rfl (by decide) rest
  · rw [hquot]
    exact decodeFrom_named refs.quot rfl (by decide) rest
  · have hreference : reference refs ("#x27;".toList ++ rest) = some (5, ['\'']) := rfl
    rw [hapos]
    change decodeFrom refs 0 ('&' :: ("#x27;".toList ++ rest)) = _
    rw [decodeFrom, if_pos rfl, hreference]
    exact congrArg ('\'' :: ·) (decodeFrom_skip "#x27;".toList rest)
  · rw [hlt]
    exact decodeFrom_named refs.lt rfl (by decide) rest
  · rw [hgt]
    exact decodeFrom_named refs.gt rfl (by decide) rest
  · rw [List.singleton_append, decodeFrom, if_neg hamp]

lemma decode_escape (s : List Char) : decode refs (escape s) = s := by
  induction s with
  | nil => rfl
  | cons c s ih =>
    rw [decode, escape, List.flatMap_cons, decodeFrom_escapeChar, ← escape]
    exact congrArg (c :: ·) ih

lemma longestName_le {n m : Nat} {s text : List Char} (h : longestName refs n s = some (m, text))
    (hn : n ≤ s.length) :
    m ≤ n ∧ text.length ≤ m := by
  induction n with
  | zero => simp [longestName] at h
  | succ n ih =>
    rw [longestName] at h
    cases hx : refs.named (s.take (n + 1)) with
    | some x =>
      rw [hx] at h
      obtain ⟨rfl, rfl⟩ := Prod.mk.inj (Option.some.inj h)
      have hlen := refs.length_le hx
      rw [List.length_take] at hlen
      exact ⟨le_rfl, by omega⟩
    | none =>
      rw [hx] at h
      obtain ⟨hle, htext⟩ := ih h (by omega)
      exact ⟨by omega, htext⟩

lemma numericReference_le {base start n : Nat} {digit : Char → Bool} {s text : List Char}
    (h : numericReference base start digit s = some (n, text)) (hstart : 0 < start) :
    n ≤ start + s.length ∧ text.length ≤ n := by
  obtain ⟨_, _, he⟩ := Option.map_eq_some_iff.mp h
  obtain ⟨rfl, rfl⟩ := Prod.mk.inj he
  have hdigits : (s.takeWhile digit).length ≤ s.length := (List.takeWhile_sublist digit).length_le
  refine ⟨?_, by simp; omega⟩
  split
  · rename_i hsemi
    have := (List.getElem?_eq_some_iff.mp hsemi).1
    omega
  · omega

lemma reference_le {n : Nat} {s text : List Char} (h : reference refs s = some (n, text)) :
    n ≤ s.length ∧ text.length ≤ n := by
  rw [reference] at h
  split_ifs at h with hhash hx
  · obtain ⟨hn, ht⟩ := numericReference_le h (by omega)
    rw [List.length_drop] at hn
    cases s with
    | nil => simp at hhash
    | cons c cs =>
      cases cs with
      | nil => simp at hx
      | cons d cs =>
        simp only [List.length_cons] at hn ⊢
        exact ⟨by omega, ht⟩
  · obtain ⟨hn, ht⟩ := numericReference_le h (by omega)
    rw [List.length_drop] at hn
    cases s with
    | nil => simp at hhash
    | cons c cs =>
      simp only [List.length_cons] at hn ⊢
      exact ⟨by omega, ht⟩
  · obtain ⟨h, _⟩ := Option.filter_eq_some_iff.mp h
    exact longestName_le h le_rfl

lemma length_decodeFrom (skipped : Nat) (s : List Char) :
    (decodeFrom refs skipped s).length ≤ s.length - skipped := by
  induction s generalizing skipped with
  | nil => simp [decodeFrom]
  | cons c cs ih =>
    cases skipped with
    | succ skipped =>
      have := ih skipped
      rw [decodeFrom, List.length_cons]
      omega
    | zero =>
      have hzero := ih 0
      rw [decodeFrom]
      split
      · cases hr : reference refs cs with
        | none =>
          simp only [List.length_cons]
          omega
        | some r =>
          obtain ⟨n, text⟩ := r
          obtain ⟨hn, ht⟩ := reference_le hr
          have := ih n
          simp only [List.length_append, List.length_cons]
          omega
      · simp only [List.length_cons]
        omega

lemma length_decode_le (value : List Char) : (decode refs value).length ≤ value.length := length_decodeFrom 0 value

lemma tagFrom_goto {s s' : TagState} {c : Char} (h : s.step c = (none, some s')) (cs : List Char) :
    tagFrom s (c :: cs) = tagFrom s' cs := by
  rw [tagFrom, h]
  exact Option.map_id'

lemma tagFrom_emit {s s' : TagState} {c : Char} {attr : RawAttr} (h : s.step c = (some attr, some s'))
    (cs : List Char) :
    tagFrom s (c :: cs) = (tagFrom s' cs).map (putFirst attr) := by
  rw [tagFrom, h]
  rfl

lemma tagFrom_quoted {value : List Char} (h : '"' ∉ value) (key before rest : List Char) :
    tagFrom (.quoted '"' key before) (value ++ '"' :: rest) =
      (tagFrom .beforeName rest).map (putFirst (key, before ++ value)) := by
  induction value generalizing before with
  | nil =>
    rw [List.nil_append, List.append_nil]
    exact tagFrom_emit (by simp [TagState.step]) rest
  | cons c value ih =>
    simp only [List.mem_cons, not_or] at h
    have hstep : TagState.step (.quoted '"' key before) c = (none, some (.quoted '"' key (before ++ [c]))) := by
      simp [TagState.step, Ne.symm h.1]
    rw [List.cons_append, tagFrom_goto hstep, ih h.2, List.append_assoc, List.singleton_append]

lemma isTagChar_ne {c : Char} (h : isTagChar c = true) : isSpace c = false ∧ c ≠ '/' ∧ c ≠ '>' := by
  obtain ⟨hgt, hslash, hspace⟩ := isTagChar_iff.mp h
  exact ⟨hspace, hslash, hgt⟩

lemma tagFrom_name {cs : List Char} (h : cs.all (fun c => isTagChar c && c ≠ '=') = true) (key rest : List Char) :
    tagFrom (.name key) (cs ++ rest) = tagFrom (.name (key ++ cs.map Char.toLower)) rest := by
  induction cs generalizing key with
  | nil => simp
  | cons c cs ih =>
    simp only [List.all_cons, Bool.and_eq_true, decide_eq_true_eq] at h
    obtain ⟨⟨hc, heq⟩, hcs⟩ := h
    obtain ⟨hspace, hslash, hgt⟩ := isTagChar_ne hc
    have hstep : TagState.step (.name key) c = (none, some (.name (key ++ [c.toLower]))) := by
      simp [TagState.step, hspace, hslash, hgt, heq]
    rw [List.cons_append, tagFrom_goto hstep, ih (by simpa using hcs), List.map_cons, List.append_assoc,
      List.singleton_append]

lemma validKey_cons {key : List Char} (h : validKey key = true) :
    ∃ c cs, key = c :: cs ∧ isTagChar c = true ∧ c ≠ '=' ∧ cs.all (fun c => isTagChar c && c ≠ '=') = true := by
  rw [validKey, Bool.and_eq_true, decide_eq_true_eq] at h
  cases key with
  | nil => exact absurd rfl h.1
  | cons c cs =>
    obtain ⟨hc, hcs⟩ := Bool.and_eq_true_iff.mp (List.all_cons ▸ h.2)
    simp only [Bool.and_eq_true, decide_eq_true_eq] at hc
    exact ⟨c, cs, rfl, hc.1, hc.2, hcs⟩

lemma tagFrom_key {key : List Char} (h : validKey key = true) (rest : List Char) :
    tagFrom .beforeName (' ' :: key ++ rest) = tagFrom (.name (key.map Char.toLower)) rest := by
  obtain ⟨c, cs, rfl, hc, _, hcs⟩ := validKey_cons h
  obtain ⟨hspace, hslash, hgt⟩ := isTagChar_ne hc
  have hblank : TagState.step .beforeName ' ' = (none, some .beforeName) := rfl
  have hfirst : TagState.step .beforeName c = (none, some (.name [c.toLower])) := by
    simp [TagState.step, TagState.startName, hspace, hslash, hgt]
  rw [List.cons_append, List.cons_append, tagFrom_goto hblank, tagFrom_goto hfirst, tagFrom_name hcs]
  rfl

lemma tagFrom_attr {key value : List Char} (h : validKey key = true) (hquote : '"' ∉ value) (rest : List Char) :
    tagFrom .beforeName (' ' :: key ++ '=' :: '"' :: (value ++ '"' :: rest)) =
      (tagFrom .beforeName rest).map (putFirst (key.map Char.toLower, value)) := by
  have heq : TagState.step (.name (key.map Char.toLower)) '=' =
    (none, some (.beforeValue (key.map Char.toLower))) := by
    simp [TagState.step, isSpace]
  have hopen : TagState.step (.beforeValue (key.map Char.toLower)) '"' =
      (none, some (.quoted '"' (key.map Char.toLower) [])) := by
    simp [TagState.step, isSpace]
  rw [tagFrom_key h, tagFrom_goto heq, tagFrom_goto hopen, tagFrom_quoted hquote]
  rfl

def Delimited (rest : List Char) : Prop :=
  ∃ cs, rest = '>' :: cs ∨ ∃ c, rest = ' ' :: c :: cs ∧ isTagChar c = true ∧ c ≠ '='

lemma tagFrom_switch {key rest : List Char} (h : validKey key = true) (hrest : Delimited rest) :
    tagFrom .beforeName (' ' :: key ++ rest) =
      (tagFrom .beforeName rest).map (putFirst (key.map Char.toLower, [])) := by
  rw [tagFrom_key h]
  rcases hrest with ⟨cs, rfl | ⟨c, rfl, hc, heq⟩⟩
  · simp [tagFrom, TagState.step, isSpace, putFirst]
  · obtain ⟨hspace, hslash, hgt⟩ := isTagChar_ne hc
    have hblank : TagState.step (.name (key.map Char.toLower)) ' ' =
      (none, some (.afterName (key.map Char.toLower))) := by
      simp [TagState.step, isSpace]
    have hbefore : TagState.step .beforeName ' ' = (none, some .beforeName) := rfl
    have hnext : TagState.step (.afterName (key.map Char.toLower)) c =
        (some (key.map Char.toLower, []), some (.name [c.toLower])) := by
      simp [TagState.step, TagState.startName, hspace, hslash, hgt, heq]
    have hfirst : TagState.step .beforeName c = (none, some (.name [c.toLower])) := by
      simp [TagState.step, TagState.startName, hspace, hslash, hgt]
    rw [tagFrom_goto hblank, tagFrom_goto hbefore, tagFrom_emit hnext, tagFrom_goto hfirst]

lemma quote_notMem_escape (s : List Char) : '"' ∉ escape s := by
  intro h
  obtain ⟨c, _, hc⟩ := List.mem_flatMap.mp h
  revert hc
  rw [escapeChar]
  split_ifs with _ hquot
  · decide
  · decide
  · decide
  · decide
  · decide
  · simpa using Ne.symm hquot

lemma clean_writeAttr {a : List Char × Option (List Char)} (h : validKey a.1 = true) (t : List Char) :
    clean (writeAttr a ++ t) = writeAttr (clean a.1, a.2.map clean) ++ clean t := by
  obtain ⟨key, value⟩ := a
  cases value with
  | none => exact clean_key_append h t
  | some value =>
    have hsplit : ∀ k v u, writeAttr (k, some v) ++ u = ' ' :: k ++ ('=' :: '"' :: (escape v ++ '"' :: u)) := by
      intro k v u
      simp [writeAttr]
    rw [Option.map_some, hsplit, hsplit, clean_key_append h, clean_quoted, clean_escape]

lemma clean_writeAttrs {attrs : Attrs} (h : ∀ a ∈ attrs, validKey a.1 = true) (t : List Char) :
    clean (attrs.flatMap writeAttr ++ t) =
      (attrs.map (fun a => (clean a.1, a.2.map clean))).flatMap writeAttr ++ clean t := by
  induction attrs with
  | nil => rfl
  | cons a attrs ih =>
    rw [List.flatMap_cons, List.append_assoc, clean_writeAttr (h a List.mem_cons_self),
      ih (fun b hb => h b (List.mem_cons_of_mem a hb)), List.map_cons, List.flatMap_cons, List.append_assoc]

lemma delimited_writeAttrs {attrs : Attrs} (h : ∀ a ∈ attrs, validKey a.1 = true) :
    Delimited (attrs.flatMap writeAttr ++ ['>']) := by
  cases attrs with
  | nil => exact ⟨[], Or.inl rfl⟩
  | cons a attrs =>
    obtain ⟨key, value⟩ := a
    obtain ⟨c, cs, rfl, hc, heq, _⟩ := validKey_cons (h (key, value) List.mem_cons_self)
    cases value <;> exact ⟨_, Or.inr ⟨c, rfl, hc, heq⟩⟩

lemma tagFrom_writeAttrs {attrs : Attrs} (h : ∀ a ∈ attrs, validKey a.1 = true) :
    tagFrom .beforeName (attrs.flatMap writeAttr ++ ['>']) =
      some (attrs.map (fun a => (a.1.map Char.toLower, escape (a.2.getD []))), []) := by
  induction attrs with
  | nil => rfl
  | cons a attrs ih =>
    have hrest : ∀ b ∈ attrs, validKey b.1 = true := fun b hb => h b (List.mem_cons_of_mem a hb)
    obtain ⟨key, value⟩ := a
    rw [List.flatMap_cons, List.append_assoc]
    cases value with
    | none =>
      rw [writeAttr, tagFrom_switch (h _ List.mem_cons_self) (delimited_writeAttrs hrest), ih hrest]
      rfl
    | some value =>
      have hsplit : writeAttr (key, some value) ++ (attrs.flatMap writeAttr ++ ['>']) =
          ' ' :: key ++ '=' :: '"' :: (escape value ++ '"' :: (attrs.flatMap writeAttr ++ ['>'])) := by
        simp [writeAttr]
      rw [hsplit, tagFrom_attr (h _ List.mem_cons_self) (quote_notMem_escape value), ih hrest]
      rfl

lemma parseAttrs_written {attrs : Attrs} (h : ∀ a ∈ attrs, validKey a.1 = true) :
    parseAttrs refs (attrs.flatMap writeAttr) =
      some (attrs.map (fun a => ((clean a.1).map Char.toLower, clean (a.2.getD [])))) := by
  have hclean : ∀ a ∈ attrs.map (fun a => (clean a.1, a.2.map clean)), validKey a.1 = true := by
    intro a ha
    obtain ⟨b, hb, rfl⟩ := List.mem_map.mp ha
    exact validKey_clean (h b hb)
  have hend : clean ['>'] = ['>'] := rfl
  rw [parseAttrs, clean_writeAttrs h, hend, tagFrom_writeAttrs hclean, Option.bind_some, if_pos rfl,
    List.map_map, List.map_map]
  refine congrArg some (List.map_congr_left (fun a _ => ?_))
  obtain ⟨key, value⟩ := a
  cases value with
  | none => rfl
  | some value => exact Prod.ext rfl (decode_escape (clean value))

lemma length_clean_le (s : List Char) : (clean s).length ≤ s.length := by
  induction s with
  | nil => rfl
  | cons c s ih =>
    rw [clean]
    split_ifs <;> simp only [List.length_cons] <;> omega

end HttpNu.Library.StartTag
