import HttpNu.Library.Html

/-! String literals of JavaScript in single quotes, and the UTF-16 units that they stand for. -/

namespace HttpNu.Library.JsString

def utf16Unit (n : Nat) : List Nat :=
  if n < 0x10000 then [n] else [0xd800 + (n - 0x10000) / 0x400, 0xdc00 + (n - 0x10000) % 0x400]

def utf16 (s : List Char) : List Nat := s.flatMap (fun c => utf16Unit c.toNat)

def isHex (c : Char) : Bool := (Html.digit? c).isSome

def isOctal (c : Char) : Bool := '0' ≤ c && c ≤ '7'

/-- A string goes on in the next line after a backslash. -/
def isLineTerminator (c : Char) : Bool := c = '\n' || c = '\r' || c.toNat = 0x2028 || c.toNat = 0x2029

def singleEscape (c : Char) : Option Nat :=
  if c = 'b' then some 8
  else if c = 't' then some 9
  else if c = 'n' then some 10
  else if c = 'v' then some 11
  else if c = 'f' then some 12
  else if c = 'r' then some 13
  else none

def hexEscape (k : Nat) (cs : List Char) : Option (List Nat × Nat) :=
  if k ≤ cs.length then (Html.number? 16 (cs.take k)).map (fun n => ([n], k + 1)) else none

def braceEscape (cs : List Char) : Option (List Nat × Nat) :=
  let digits := cs.takeWhile isHex
  if cs[digits.length]? = some '}' then
    ((Html.number? 16 digits).filter (· ≤ 0x10ffff)).map (fun n => (utf16Unit n, digits.length + 3))
  else none

/-- At most three digits, and at most two when the value would not fit a byte. -/
def octalEscape (c : Char) (cs : List Char) : Option (List Nat × Nat) :=
  let digits := c :: (cs.take (if c ≤ '3' then 2 else 1)).takeWhile isOctal
  (Html.number? 8 digits).map (fun n => ([n], digits.length))

/-- What follows a backslash: its units, and how many characters it has. -/
def escape : List Char → Option (List Nat × Nat)
  | [] => none
  | c :: cs =>
    if c = 'x' then hexEscape 2 cs
    else if c = 'u' then
      if cs.head? = some '{' then braceEscape cs.tail else hexEscape 4 cs
    else if c = '\r' ∧ cs.head? = some '\n' then some ([], 2)
    else if isLineTerminator c then some ([], 1)
    else if isOctal c then octalEscape c cs
    else some (((singleEscape c).map ([·])).getD (utf16Unit c.toNat), 1)

/-- The units up to the closing quote, and what follows it; the characters of an escape are skipped. -/
def literalBody : Nat → List Char → Option (List Nat × List Char)
  | _, [] => none
  | skipped + 1, _ :: cs => literalBody skipped cs
  | 0, c :: cs =>
    if c = '\'' then some ([], cs)
    else if c = '\\' then
      (escape cs).bind (fun e => (literalBody e.2 cs).map (fun r => (e.1 ++ r.1, r.2)))
    else if c = '\n' ∨ c = '\r' then none
    else (literalBody 0 cs).map (fun r => (utf16Unit c.toNat ++ r.1, r.2))

def singleQuoted : List Char → Option (List Nat × List Char)
  | [] => none
  | c :: cs => if c = '\'' then literalBody 0 cs else none

example : singleQuoted "'\\x41\\u{1F600}\\'\\08\\\n' + x".toList =
    some ([0x41, 0xd83d, 0xde00, 0x27, 0, 0x38], " + x".toList) := by decide

lemma utf16_cons (c : Char) (s : List Char) : utf16 (c :: s) = utf16Unit c.toNat ++ utf16 s := rfl

lemma utf16_append (s t : List Char) : utf16 (s ++ t) = utf16 s ++ utf16 t := List.flatMap_append

lemma length_utf16Unit (n : Nat) : 1 ≤ (utf16Unit n).length ∧ (utf16Unit n).length ≤ 2 := by
  rw [utf16Unit]
  split <;> simp

lemma length_le_utf16 (s : List Char) : s.length ≤ (utf16 s).length := by
  induction s with
  | nil => simp
  | cons c s ih =>
    have := (length_utf16Unit c.toNat).1
    rw [utf16_cons, List.length_append, List.length_cons]
    omega

lemma zero_mem_utf16 {s : List Char} : 0 ∈ utf16 s ↔ Char.ofNat 0 ∈ s := by
  constructor
  · intro h
    obtain ⟨c, hc, hzero⟩ := List.mem_flatMap.mp h
    have hnat : c.toNat = 0 := by
      rw [utf16Unit] at hzero
      split at hzero
      · exact (List.mem_singleton.mp hzero).symm
      · simp only [List.mem_cons, List.not_mem_nil, or_false] at hzero
        omega
    have hchar : c = Char.ofNat 0 := by rw [← hnat, Char.ofNat_toNat]
    exact hchar ▸ hc
  · intro h
    exact List.mem_flatMap.mpr ⟨_, h, by decide⟩

lemma hexEscape_length {k n : Nat} {cs : List Char} {units : List Nat} (h : hexEscape k cs = some (units, n)) :
    units.length ≤ n := by
  rw [hexEscape] at h
  split at h
  · obtain ⟨_, _, he⟩ := Option.map_eq_some_iff.mp h
    obtain ⟨rfl, rfl⟩ := Prod.mk.inj he
    simp
  · simp at h

lemma braceEscape_length {n : Nat} {cs : List Char} {units : List Nat} (h : braceEscape cs = some (units, n)) :
    units.length ≤ n := by
  rw [braceEscape] at h
  split at h
  · obtain ⟨m, _, he⟩ := Option.map_eq_some_iff.mp h
    obtain ⟨rfl, rfl⟩ := Prod.mk.inj he
    have := (length_utf16Unit m).2
    omega
  · simp at h

lemma octalEscape_length {n : Nat} {c : Char} {cs : List Char} {units : List Nat}
    (h : octalEscape c cs = some (units, n)) : units.length ≤ n := by
  obtain ⟨_, _, he⟩ := Option.map_eq_some_iff.mp h
  obtain ⟨rfl, rfl⟩ := Prod.mk.inj he
  simp

lemma escape_length {c : Char} {cs : List Char} {units : List Nat} {n : Nat}
    (h : escape (c :: cs) = some (units, n)) :
    units.length ≤ n ∨ (n = 1 ∧ units = utf16Unit c.toNat) := by
  rw [escape] at h
  split_ifs at h
  · exact Or.inl (hexEscape_length h)
  · exact Or.inl (braceEscape_length h)
  · exact Or.inl (hexEscape_length h)
  · obtain ⟨rfl, rfl⟩ := Prod.mk.inj (Option.some.inj h)
    simp
  · obtain ⟨rfl, rfl⟩ := Prod.mk.inj (Option.some.inj h)
    simp
  · exact Or.inl (octalEscape_length h)
  · obtain ⟨rfl, rfl⟩ := Prod.mk.inj (Option.some.inj h)
    cases singleEscape c with
    | none => exact Or.inr ⟨rfl, rfl⟩
    | some n => exact Or.inl le_rfl

lemma escape_length_le {s : List Char} {units : List Nat} {n : Nat} (h : escape s = some (units, n))
    (hn : n ≤ s.length) :
    units.length ≤ (utf16 (s.take n)).length := by
  cases s with
  | nil => simp [escape] at h
  | cons c cs =>
    rcases escape_length h with hle | ⟨rfl, rfl⟩
    · have htake := length_le_utf16 ((c :: cs).take n)
      rw [List.length_take] at htake
      omega
    · simp [utf16]

lemma literalBody_plain {u : List Char} (hquote : '\'' ∉ u) (hback : '\\' ∉ u) (hn : '\n' ∉ u) (hr : '\r' ∉ u)
    (rest : List Char) : literalBody 0 (u ++ '\'' :: rest) = some (utf16 u, rest) := by
  induction u with
  | nil => rfl
  | cons c u ih =>
    simp only [List.mem_cons, not_or] at hquote hback hn hr
    rw [List.cons_append, literalBody, if_neg (Ne.symm hquote.1), if_neg (Ne.symm hback.1),
      if_neg (by simp [Ne.symm hn.1, Ne.symm hr.1]), ih hquote.2 hback.2 hn.2 hr.2]
    rfl

/-- A literal stands for no more units than are written, and for as many only when no escape is among them. -/
lemma literalBody_length {skipped : Nat} {s rest : List Char} {units : List Nat}
    (h : literalBody skipped s = some (units, rest)) :
    ∃ body, s = body ++ '\'' :: rest ∧ skipped ≤ body.length ∧ units.length ≤ (utf16 (body.drop skipped)).length ∧
      ((utf16 (body.drop skipped)).length ≤ units.length →
        units = utf16 (body.drop skipped) ∧ '\'' ∉ body.drop skipped ∧ '\\' ∉ body.drop skipped) := by
  induction s generalizing skipped units with
  | nil => simp [literalBody] at h
  | cons c s ih =>
    cases skipped with
    | succ skipped =>
      obtain ⟨body, rfl, hle, hlen⟩ := ih h
      exact ⟨c :: body, rfl, Nat.succ_le_succ hle, hlen⟩
    | zero =>
      rw [literalBody] at h
      split_ifs at h with hquote hback
      · obtain ⟨rfl, rfl⟩ := Prod.mk.inj (Option.some.inj h)
        exact ⟨[], by rw [hquote, List.nil_append], le_rfl, le_rfl, by simp [utf16]⟩
      · obtain ⟨⟨u, n⟩, he, h⟩ := Option.bind_eq_some_iff.mp h
        obtain ⟨⟨v, _⟩, hv, h⟩ := Option.map_eq_some_iff.mp h
        obtain ⟨rfl, rfl⟩ := Prod.mk.inj h
        obtain ⟨body, rfl, hle, hlen, _⟩ := ih hv
        dsimp only at hle hlen
        have hescape := escape_length_le he (by simp; omega)
        rw [List.take_append_of_le_length hle] at hescape
        have hsplit : (utf16 body).length = (utf16 (body.take n)).length + (utf16 (body.drop n)).length := by
          rw [← List.length_append, ← utf16_append, List.take_append_drop]
        have hone := (length_utf16Unit c.toNat).1
        refine ⟨c :: body, rfl, Nat.zero_le _, ?_, fun hge => ?_⟩
        · simp only [List.drop_zero, utf16_cons, List.length_append]
          omega
        -- the backslash itself is written and stands for nothing
        · simp only [List.drop_zero, utf16_cons, List.length_append] at hge
          omega
      · obtain ⟨⟨v, _⟩, hv, h⟩ := Option.map_eq_some_iff.mp h
        obtain ⟨rfl, rfl⟩ := Prod.mk.inj h
        obtain ⟨body, rfl, hle, hlen, heq⟩ := ih hv
        simp only [List.drop_zero] at hlen heq
        refine ⟨c :: body, rfl, Nat.zero_le _, ?_, fun hge => ?_⟩
        · simp only [List.drop_zero, utf16_cons, List.length_append]
          omega
        · simp only [List.drop_zero, utf16_cons, List.length_append] at hge
          obtain ⟨rfl, hq, hb⟩ := heq (by omega)
          simp only [List.drop_zero, List.mem_cons, not_or]
          exact ⟨rfl, ⟨Ne.symm hquote, hq⟩, ⟨Ne.symm hback, hb⟩⟩

end HttpNu.Library.JsString
