import Mathlib.Data.List.DropRight
import Mathlib.Tactic

/-! Rust strings as lists of Unicode scalar values, with the `str` methods the server calls. -/

namespace HttpNu.Text

abbrev Str := List Char
abbrev Bytes := List UInt8

def utf8 (s : Str) : Bytes := s.flatMap String.utf8EncodeChar

def fromUtf8 (bytes : Bytes) : Option Str := (String.fromUTF8? bytes.toByteArray).map String.toList

def isContinuation (b : UInt8) : Bool := 0x80 ≤ b && b ≤ 0xbf

def secondRange (lead : UInt8) : Option (UInt8 × UInt8) :=
  if lead = 0xe0 then some (0xa0, 0xbf)
  else if lead = 0xed then some (0x80, 0x9f)
  else if 0xe1 ≤ lead ∧ lead ≤ 0xef then some (0x80, 0xbf)
  else if lead = 0xf0 then some (0x90, 0xbf)
  else if 0xf1 ≤ lead ∧ lead ≤ 0xf3 then some (0x80, 0xbf)
  else if lead = 0xf4 then some (0x80, 0x8f)
  else none

/-- The length of the broken sequence that the bytes begin with. -/
def brokenLength : Bytes → Nat
  | lead :: second :: rest =>
    match secondRange lead with
    | none => 1
    | some (low, high) =>
      if low ≤ second && second ≤ high then
        if 0xf0 ≤ lead && rest.head?.any isContinuation then 3 else 2
      else 1
  | _ => 1

/-- The characters of the bytes after those that belong to the character before. -/
def lossyFrom : Nat → Bytes → Str
  | _, [] => []
  | n + 1, _ :: rest => lossyFrom n rest
  | 0, b :: rest =>
    match (b :: rest).toByteArray.utf8DecodeChar? 0 with
    | some c => c :: lossyFrom (c.utf8Size - 1) rest
    | none => Char.ofNat 0xfffd :: lossyFrom (brokenLength (b :: rest) - 1) rest

def fromUtf8Lossy : Bytes → Str := lossyFrom 0

lemma lossyFrom_append (xs ys : Bytes) : lossyFrom xs.length (xs ++ ys) = lossyFrom 0 ys := by
  induction xs with
  | nil => rfl
  | cons x xs ih => simpa [lossyFrom] using ih

lemma fromUtf8Lossy_encodeChar (c : Char) (bytes : Bytes) :
    fromUtf8Lossy (String.utf8EncodeChar c ++ bytes) = c :: fromUtf8Lossy bytes := by
  have hlen : (String.utf8EncodeChar c).length = c.utf8Size := String.length_utf8EncodeChar c
  have hdecode : (String.utf8EncodeChar c ++ bytes).toByteArray.utf8DecodeChar? 0 = some c := by
    rw [List.toByteArray_append]
    exact ByteArray.utf8DecodeChar?_utf8EncodeChar_append
  obtain ⟨b, rest, hc⟩ := List.exists_cons_of_ne_nil (String.utf8EncodeChar_ne_nil (c := c))
  rw [hc] at hlen hdecode ⊢
  rw [List.cons_append] at hdecode ⊢
  have hrest : rest.length = c.utf8Size - 1 := by
    rw [← hlen]
    rfl
  rw [fromUtf8Lossy, lossyFrom, hdecode]
  dsimp only
  rw [← hrest, lossyFrom_append]

lemma fromUtf8Lossy_utf8 (s : Str) : fromUtf8Lossy (utf8 s) = s := by
  induction s with
  | nil => rfl
  | cons c s ih => rw [utf8, List.flatMap_cons, ← utf8, fromUtf8Lossy_encodeChar, ih]

lemma utf8_append (s t : Str) : utf8 (s ++ t) = utf8 s ++ utf8 t := List.flatMap_append

lemma length_utf8_cons (c : Char) (s : Str) : (utf8 (c :: s)).length = c.utf8Size + (utf8 s).length := by
  simp [utf8, String.length_utf8EncodeChar]

lemma utf8_injective : Function.Injective utf8 := Function.LeftInverse.injective fromUtf8Lossy_utf8

lemma encodeChar_high {c : Char} (hc : c.utf8Size ≠ 1) : ∀ b ∈ String.utf8EncodeChar c, 0x80 ≤ b := by
  have hhigh : ∀ x y : UInt8, 0x80 ≤ y → 0x80 ≤ x ||| y := by
    intro x y hy
    rw [UInt8.le_iff_toNat_le] at hy ⊢
    exact hy.trans (UInt8.toNat_or x y ▸ Nat.right_le_or)
  have hle := c.utf8Size_le_four
  have hpos := c.utf8Size_pos
  obtain h | h | h : c.utf8Size = 2 ∨ c.utf8Size = 3 ∨ c.utf8Size = 4 := by omega
  · rw [String.utf8EncodeChar_eq_cons_cons h]
    simp only [List.forall_mem_cons]
    exact ⟨hhigh _ _ (by decide), hhigh _ _ (by decide), by simp⟩
  · rw [String.utf8EncodeChar_eq_cons_cons_cons h]
    simp only [List.forall_mem_cons]
    exact ⟨hhigh _ _ (by decide), hhigh _ _ (by decide), hhigh _ _ (by decide), by simp⟩
  · rw [String.utf8EncodeChar_eq_cons_cons_cons_cons h]
    simp only [List.forall_mem_cons]
    exact ⟨hhigh _ _ (by decide), hhigh _ _ (by decide), hhigh _ _ (by decide), hhigh _ _ (by decide), by simp⟩

lemma decodeChar_high {b : UInt8} {rest : Bytes} {c : Char} (hb : 0x80 ≤ b)
    (h : (b :: rest).toByteArray.utf8DecodeChar? 0 = some c) : c.utf8Size ≠ 1 := by
  intro hone
  obtain ⟨l, hl⟩ := ByteArray.exists_of_utf8DecodeChar?_eq_some h
  have hfirst : b = c.val.toUInt8 := by
    have := congrArg (fun bytes : ByteArray => bytes.data.toList[0]?) hl
    simpa [String.utf8EncodeChar_eq_singleton hone] using this
  have hc : c.val ≤ 0x7f := Char.utf8Size_eq_one_iff.mp hone
  rw [UInt8.le_iff_toNat_le, hfirst, UInt32.toNat_toUInt8] at hb
  exact absurd (hb.trans (Nat.mod_le _ _)) (Nat.not_le.mpr (Nat.lt_succ_of_le (UInt32.le_iff_toNat_le.mp hc)))

lemma lossyFrom_high {n : Nat} {bytes : Bytes} (h : ∀ b ∈ bytes, 0x80 ≤ b) :
    ∀ c ∈ lossyFrom n bytes, c.utf8Size ≠ 1 := by
  induction bytes generalizing n with
  | nil => cases n <;> simp [lossyFrom]
  | cons b rest ih =>
    obtain ⟨hb, hrest⟩ := List.forall_mem_cons.mp h
    cases n with
    | succ n => exact ih hrest
    | zero =>
      intro c hc
      rw [lossyFrom] at hc
      split at hc
      · rename_i d hd
        rcases List.mem_cons.mp hc with rfl | hc
        · exact decodeChar_high hb hd
        · exact ih hrest c hc
      · rcases List.mem_cons.mp hc with rfl | hc
        · decide
        · exact ih hrest c hc

/-- What is read of a text that is cut anywhere: its first characters, and what a broken one may decode to. -/
lemma fromUtf8Lossy_cut {s : Str} {bytes : Bytes} (h : bytes <+: utf8 s) :
    ∃ part rest, fromUtf8Lossy bytes = part ++ rest ∧ part <+: s ∧ ∀ c ∈ rest, c.utf8Size ≠ 1 := by
  induction s generalizing bytes with
  | nil =>
    obtain rfl := List.prefix_nil.mp h
    exact ⟨[], [], rfl, List.nil_prefix, by simp⟩
  | cons c s ih =>
    rw [utf8, List.flatMap_cons, ← utf8] at h
    rcases Nat.lt_or_ge bytes.length (String.utf8EncodeChar c).length with hlt | hge
    · have hpre : bytes <+: String.utf8EncodeChar c :=
        List.prefix_of_prefix_length_le h (List.prefix_append _ _) hlt.le
      refine ⟨[], fromUtf8Lossy bytes, rfl, List.nil_prefix, ?_⟩
      by_cases hone : c.utf8Size = 1
      · have : bytes = [] :=
          List.eq_nil_of_length_eq_zero (by rw [String.length_utf8EncodeChar, hone] at hlt; omega)
        subst this
        simp [fromUtf8Lossy, lossyFrom]
      · exact lossyFrom_high (fun b hb => encodeChar_high hone b (hpre.mem hb))
    · have hpre : String.utf8EncodeChar c <+: bytes :=
        List.prefix_of_prefix_length_le (List.prefix_append _ _) h hge
      obtain ⟨bytes, rfl⟩ := hpre
      obtain ⟨part, rest, heq, hpart, hrest⟩ := ih ((List.prefix_append_right_inj _).mp h)
      exact ⟨c :: part, rest, by rw [fromUtf8Lossy_encodeChar, heq, List.cons_append],
        List.cons_prefix_cons.mpr ⟨rfl, hpart⟩, hrest⟩

example : fromUtf8Lossy [0x61, 0xf0, 0x90, 0x80, 0x62, 0xe2, 0x28, 0xff, 0xc3, 0xa9] =
    ['a', Char.ofNat 0xfffd, 'b', Char.ofNat 0xfffd, '(', Char.ofNat 0xfffd, 'é'] := by
  decide +kernel

def braced (s : Str) : Str := '{' :: s ++ ['}']

lemma braced_getLast (s : Str) : (braced s).getLast? = some '}' := List.getLast?_concat ..

/-- `char::is_whitespace`: the characters with the Unicode property White_Space. -/
def isWhitespace (c : Char) : Bool :=
  (9 ≤ c.toNat && c.toNat ≤ 13) || (0x2000 ≤ c.toNat && c.toNat ≤ 0x200a) ||
    [0x20, 0x85, 0xa0, 0x1680, 0x2028, 0x2029, 0x202f, 0x205f, 0x3000].contains c.toNat

def trimMatches (p : Char → Bool) (s : Str) : Str := (s.dropWhile p).rdropWhile p

lemma trimMatches_eq_self {p : Char → Bool} {s : Str} (hfirst : ∀ c ∈ s.head?, p c = false)
    (hlast : ∀ c ∈ s.getLast?, p c = false) : trimMatches p s = s := by
  have hfront : s.dropWhile p = s := by
    cases s with
    | nil => rfl
    | cons c s => exact List.dropWhile_cons_of_neg (by simp [hfirst c rfl])
  rw [trimMatches, hfront, List.rdropWhile_eq_self_iff]
  intro hne
  simp [hlast _ (List.getLast?_eq_some_getLast hne)]

def trim (s : Str) : Str := trimMatches isWhitespace s

@[simp] lemma trim_space (s : Str) : trim (' ' :: s) = trim s := by
  simp [trim, trimMatches, isWhitespace]

/-- The delimiters of Nushell's `str trim`: space, tab, line feed, vertical tab, form feed, carriage return. -/
def isTrimmable (c : Char) : Bool :=
  [0x20, 0x09, 0x0a, 0x0b, 0x0c, 0x0d].contains c.toNat

def strTrim (s : Str) : Str := trimMatches isTrimmable s

/-- `str::lines` removes the `\n` of a line and one `\r` just before it. -/
def lines (s : Str) : List Str :=
  let pieces := s.splitOn '\n'
  pieces.dropLast.map (fun l => if l.getLast? = some '\r' then l.dropLast else l) ++
    (pieces.getLast?.filter (· ≠ [])).toList

lemma not_mem_of_mem_splitOn {c : Char} {s l : Str} (h : l ∈ s.splitOn c) : c ∉ l := by
  induction s generalizing l with
  | nil => simp_all
  | cons d s ih =>
    rw [List.splitOn_cons_eq_if_modifyHead] at h
    cases hs : s.splitOn c with
    | nil => exact absurd hs (List.splitOn_ne_nil c s)
    | cons p ps =>
      rw [hs] at h ih
      by_cases hd : d = c
      · simp only [hd, beq_self_eq_true, if_true, List.mem_cons] at h
        rcases h with rfl | h
        · simp
        · exact ih (List.mem_cons.mpr h)
      · simp only [beq_eq_false_iff_ne.mpr hd, Bool.false_eq_true, if_false, List.modifyHead_cons,
          List.mem_cons] at h
        rcases h with rfl | h
        · simpa [Ne.symm hd] using ih List.mem_cons_self
        · exact ih (List.mem_cons_of_mem p h)

lemma newline_notMem_lines {s l : Str} (h : l ∈ lines s) : '\n' ∉ l := by
  simp only [lines, List.mem_append, List.mem_map, Option.mem_toList,
    Option.filter_eq_some_iff] at h
  rcases h with ⟨p, hp, rfl⟩ | h
  · have hn := not_mem_of_mem_splitOn (List.mem_of_mem_dropLast hp)
    split
    · exact fun hl => hn (List.mem_of_mem_dropLast hl)
    · exact hn
  · exact not_mem_of_mem_splitOn (List.mem_of_getLast? h.1)

lemma mem_of_mem_splitOn {c d : Char} {s l : Str} (h : l ∈ s.splitOn c) (hd : d ∈ l) : d ∈ s := by
  induction s generalizing l with
  | nil => simp_all
  | cons e s ih =>
    rw [List.splitOn_cons_eq_if_modifyHead] at h
    obtain ⟨p, ps, hs⟩ := List.exists_cons_of_ne_nil (List.splitOn_ne_nil c s)
    rw [hs] at h ih
    split at h
    · rcases List.mem_cons.mp h with rfl | h
      · simp at hd
      · exact List.mem_cons_of_mem e (ih h hd)
    · rw [List.modifyHead_cons] at h
      rcases List.mem_cons.mp h with rfl | h
      · rcases List.mem_cons.mp hd with rfl | hd
        · exact List.mem_cons_self
        · exact List.mem_cons_of_mem e (ih List.mem_cons_self hd)
      · exact List.mem_cons_of_mem e (ih (List.mem_cons_of_mem p h) hd)

lemma lines_of_notMem {s : Str} (hcr : '\r' ∉ s) :
    lines s = (s.splitOn '\n').dropLast ++ ((s.splitOn '\n').getLast?.filter (· ≠ [])).toList := by
  have hmap : ∀ l ∈ (s.splitOn '\n').dropLast, (if l.getLast? = some '\r' then l.dropLast else l) = l := by
    intro l hl
    apply if_neg
    exact fun hlast => hcr (mem_of_mem_splitOn (List.mem_of_mem_dropLast hl) (List.mem_of_getLast? hlast))
  rw [lines, List.map_congr_left hmap, List.map_id']

lemma mem_of_mem_lines {c : Char} {s l : Str} (hl : l ∈ lines s) (hc : c ∈ l) : c ∈ s := by
  simp only [lines, List.mem_append, List.mem_map, Option.mem_toList, Option.filter_eq_some_iff] at hl
  rcases hl with ⟨p, hp, rfl⟩ | hl
  · apply mem_of_mem_splitOn (List.mem_of_mem_dropLast hp)
    split at hc
    · exact List.mem_of_mem_dropLast hc
    · exact hc
  · exact mem_of_mem_splitOn (List.mem_of_getLast? hl.1) hc

lemma lines_concat {s : Str} (hcr : '\r' ∉ s) : lines (s ++ ['\n']) = s.splitOn '\n' := by
  have hsplit : (s ++ ['\n']).splitOn '\n' = s.splitOn '\n' ++ [[]] := List.splitOn_append_cons_self s []
  rw [lines_of_notMem (by simpa using hcr), hsplit, List.dropLast_concat, List.getLast?_concat]
  simp

lemma intercalate_append (sep : Str) {xs ys : List Str} (hx : xs ≠ []) (hy : ys ≠ []) :
    sep.intercalate (xs ++ ys) = sep.intercalate xs ++ sep ++ sep.intercalate ys := by
  induction xs with
  | nil => exact absurd rfl hx
  | cons x xs ih =>
    cases xs with
    | nil => simp [List.intercalate_cons_of_ne_nil hy]
    | cons x' xs =>
      have ih := ih (by simp)
      simp only [List.cons_append, List.intercalate_cons_cons, List.append_assoc] at ih ⊢
      rw [ih]

lemma getLast_splitOn_ne_nil {c : Char} {s : Str} (hne : s ≠ []) (hlast : s.getLast? ≠ some c) :
    (s.splitOn c).getLast (List.splitOn_ne_nil c s) ≠ [] := by
  intro hnil
  have hsplit := List.dropLast_append_getLast (List.splitOn_ne_nil c s)
  have hs : [c].intercalate (s.splitOn c) = s := List.intercalate_splitOn c
  rw [← hsplit, hnil] at hs
  cases hinit : (s.splitOn c).dropLast with
  | nil =>
    rw [hinit] at hs
    exact hne hs.symm
  | cons p ps =>
    rw [hinit, intercalate_append _ (by simp) (by simp)] at hs
    rw [← hs] at hlast
    simp at hlast

lemma lines_of_getLast? {s : Str} (hcr : '\r' ∉ s) (hne : s ≠ []) (hlast : s.getLast? ≠ some '\n') :
    lines s = s.splitOn '\n' := by
  rw [lines_of_notMem hcr, List.getLast?_eq_some_getLast (List.splitOn_ne_nil _ _),
    Option.filter_some_pos (by simpa using getLast_splitOn_ne_nil hne hlast)]
  exact List.dropLast_append_getLast (List.splitOn_ne_nil '\n' s)

example : lines "foo\r\nbar\n\nbaz\r".toList = ["foo".toList, "bar".toList, [], "baz\r".toList] := by
  decide

end HttpNu.Text
