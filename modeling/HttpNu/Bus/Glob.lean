import HttpNu.Bus
import Mathlib.Computability.Language

/-! The language of a glob pattern, and the byte offsets at which the matcher slices a topic. -/

namespace HttpNu.Bus

open Text

def GlobPart.language : GlobPart → Language Char
  | .literal lit => {lit}
  | .star => ⊤

def partsLanguage (parts : List GlobPart) : Language Char := (parts.map GlobPart.language).prod

def charLanguage (c : Char) : Language Char := if c = '*' then ⊤ else {[c]}

def patternLanguage (pattern : Str) : Language Char := (pattern.map charLanguage).prod

/-- The pattern with its stars replaced, from the left, by the words. -/
def fill : Str → List Str → Str
  | [], _ => []
  | c :: pattern, words =>
    if c = '*' then words.headD [] ++ fill pattern words.tail else c :: fill pattern words

lemma partsLanguage_nil : partsLanguage [] = 1 := rfl

lemma partsLanguage_cons (part : GlobPart) (parts : List GlobPart) :
    partsLanguage (part :: parts) = part.language * partsLanguage parts := by
  simp [partsLanguage]

lemma partsLanguage_append (xs ys : List GlobPart) :
    partsLanguage (xs ++ ys) = partsLanguage xs * partsLanguage ys := by
  simp [partsLanguage]

lemma patternLanguage_cons (c : Char) (pattern : Str) :
    patternLanguage (c :: pattern) = charLanguage c * patternLanguage pattern := by
  simp [patternLanguage]

lemma top_mul_top : (⊤ * ⊤ : Language Char) = ⊤ :=
  top_unique fun s _ => Language.mem_mul.mpr ⟨[], trivial, s, trivial, rfl⟩

lemma singleton_mul_singleton (u v : Str) : ({u} * {v} : Language Char) = {u ++ v} := by
  ext s
  constructor
  · rintro ⟨_, rfl, _, rfl, rfl⟩
    rfl
  · rintro rfl
    exact Language.mem_mul.mpr ⟨u, rfl, v, rfl, rfl⟩

lemma partsLanguage_pushLiteral (parts : List GlobPart) (buf : Str) :
    partsLanguage (pushLiteral parts buf) = partsLanguage parts * {buf} := by
  rw [pushLiteral]
  split
  · rename_i h
    rw [h]
    exact (mul_one _).symm
  · rw [partsLanguage_append, partsLanguage_cons, partsLanguage_nil, mul_one]
    rfl

lemma partsLanguage_pushStar (parts : List GlobPart) :
    partsLanguage (pushStar parts) = partsLanguage parts * ⊤ := by
  have hstar (xs : List GlobPart) : partsLanguage (xs ++ [.star]) = partsLanguage xs * ⊤ := by
    rw [partsLanguage_append, partsLanguage_cons, partsLanguage_nil, mul_one]
    rfl
  rw [pushStar]
  split
  · rename_i h
    rw [← List.dropLast_append_getLast? _ h, hstar, mul_assoc, top_mul_top]
  · exact hstar parts

lemma partsLanguage_globParts (pattern : Str) (parts : List GlobPart) (buf : Str) :
    partsLanguage (globParts pattern parts buf) = partsLanguage parts * {buf} * patternLanguage pattern := by
  induction pattern generalizing parts buf with
  | nil => exact (partsLanguage_pushLiteral parts buf).trans (mul_one _).symm
  | cons c pattern ih =>
    rw [globParts, patternLanguage_cons, charLanguage]
    split
    · rw [ih, partsLanguage_pushStar, partsLanguage_pushLiteral, ← mul_assoc]
      exact congrArg (· * _) (mul_one _)
    · rw [ih, ← singleton_mul_singleton, mul_assoc, mul_assoc, mul_assoc]

lemma stripPrefix_eq_some {lit s r : Str} : stripPrefix lit s = some r ↔ s = lit ++ r := by
  induction lit generalizing s with
  | nil => simp [stripPrefix]
  | cons c lit ih =>
    cases s with
    | nil => simp [stripPrefix]
    | cons d s =>
      rw [stripPrefix]
      split
      · rename_i h
        simp [ih, h]
      · rename_i h
        simp [Ne.symm h]

lemma matchParts_star (rest : List GlobPart) (s : Str) :
    matchParts (.star :: rest) s = true ↔ ∃ w r, s = w ++ r ∧ matchParts rest r = true := by
  have hlast : s.tails = s.tails.dropLast ++ [[]] := by
    induction s with
    | nil => rfl
    | cons c s ih =>
      rw [List.tails_cons, List.dropLast_cons_of_ne_nil (List.ne_nil_of_length_pos (by simp)), List.cons_append]
      exact congrArg _ ih
  have htails : s.tails.any (fun r => matchParts rest r) = true ↔
    ∃ w r, s = w ++ r ∧ matchParts rest r = true := by
    simp only [List.any_eq_true, List.mem_tails]
    constructor
    · rintro ⟨r, ⟨w, rfl⟩, h⟩
      exact ⟨w, r, rfl, h⟩
    · rintro ⟨w, r, rfl, h⟩
      exact ⟨r, List.suffix_append w r, h⟩
  rw [← htails, hlast, matchParts]
  cases rest with
  | nil => simp [matchParts]
  | cons part rest => simp

lemma matchParts_iff (parts : List GlobPart) (s : Str) : matchParts parts s = true ↔ s ∈ partsLanguage parts := by
  induction parts generalizing s with
  | nil => simp [matchParts, partsLanguage_nil, Language.mem_one]
  | cons part parts ih =>
    rw [partsLanguage_cons, Language.mem_mul]
    cases part with
    | literal lit =>
      have hmatch : matchParts (.literal lit :: parts) s = true ↔
          ∃ r, stripPrefix lit s = some r ∧ matchParts parts r = true := by
        rw [matchParts]
        cases stripPrefix lit s <;> simp
      rw [hmatch]
      constructor
      · rintro ⟨r, hstrip, hr⟩
        exact ⟨lit, rfl, r, (ih r).mp hr, (stripPrefix_eq_some.mp hstrip).symm⟩
      · rintro ⟨_, rfl, r, hr, rfl⟩
        exact ⟨r, stripPrefix_eq_some.mpr rfl, (ih r).mpr hr⟩
    | star =>
      rw [matchParts_star]
      constructor
      · rintro ⟨w, r, rfl, hr⟩
        exact ⟨w, trivial, r, (ih r).mp hr, rfl⟩
      · rintro ⟨w, _, r, hr, rfl⟩
        exact ⟨w, r, rfl, (ih r).mpr hr⟩

lemma mem_patternLanguage (pattern s : Str) :
    s ∈ patternLanguage pattern ↔
      ∃ words : List Str, words.length = pattern.count '*' ∧ fill pattern words = s := by
  induction pattern generalizing s with
  | nil => simp [patternLanguage, fill, Language.mem_one, eq_comm]
  | cons c pattern ih =>
    rw [patternLanguage_cons, Language.mem_mul, charLanguage]
    by_cases hc : c = '*'
    · rw [if_pos hc, hc, List.count_cons_self]
      constructor
      · rintro ⟨w, _, r, hr, rfl⟩
        obtain ⟨words, hlen, rfl⟩ := (ih r).mp hr
        exact ⟨w :: words, by rw [List.length_cons, hlen], by simp [fill]⟩
      · rintro ⟨words, hlen, rfl⟩
        cases words with
        | nil => simp at hlen
        | cons w words =>
          exact ⟨w, trivial, _, (ih _).mpr ⟨words, Nat.succ.inj hlen, rfl⟩, by simp [fill]⟩
    · rw [if_neg hc, List.count_cons_of_ne hc]
      constructor
      · rintro ⟨_, rfl, r, hr, rfl⟩
        obtain ⟨words, hlen, rfl⟩ := (ih r).mp hr
        exact ⟨words, hlen, by simp [fill, hc]⟩
      · rintro ⟨words, hlen, rfl⟩
        exact ⟨[c], rfl, _, (ih _).mpr ⟨words, hlen, rfl⟩, by simp [fill, hc]⟩

lemma pushStar_pushStar (parts : List GlobPart) : pushStar (pushStar parts) = pushStar parts := by
  have hlast : (pushStar parts).getLast? = some .star := by
    rw [pushStar]
    split
    · assumption
    · simp
  exact if_pos hlast

lemma globParts_star_star (pattern rest : Str) (parts : List GlobPart) (buf : Str) :
    globParts (pattern ++ '*' :: '*' :: rest) parts buf = globParts (pattern ++ '*' :: rest) parts buf := by
  induction pattern generalizing parts buf with
  | nil => simp [globParts, pushLiteral, pushStar_pushStar]
  | cons c pattern ih =>
    rw [List.cons_append, List.cons_append, globParts, globParts, ih, ih]

def charIndicesFrom : Nat → Str → List Nat
  | _, [] => []
  | n, c :: s => n :: charIndicesFrom (n + c.utf8Size) s

/-- `&s[n..]`, which panics beyond the end and inside a character. -/
def sliceFrom (n : Nat) : Str → Option Str
  | [] => if n = 0 then some [] else none
  | c :: s =>
    if n = 0 then some (c :: s)
    else if c.utf8Size ≤ n then sliceFrom (n - c.utf8Size) s else none

/-- `match_parts` on the bytes of the topic; `none` is a panic. -/
def matchSlices : List GlobPart → Str → Option Bool
  | [], s => some (utf8 s).isEmpty
  | .literal lit :: rest, s =>
    if (utf8 lit).isPrefixOf (utf8 s) then (sliceFrom (utf8 lit).length s).bind (matchSlices rest) else some false
  | .star :: rest, s =>
    if rest.isEmpty then some true
    else do
      if ← (charIndicesFrom 0 s).anyM (fun i => (sliceFrom i s).bind (matchSlices rest)) then return true
      matchSlices rest []

lemma utf8_cons (c : Char) (s : Str) : utf8 (c :: s) = String.utf8EncodeChar c ++ utf8 s := rfl

lemma encodeChar_append_inj {c d : Char} {xs ys : Bytes}
    (h : String.utf8EncodeChar c ++ xs = String.utf8EncodeChar d ++ ys) : c = d := by
  have hdecode (e : Char) (zs : Bytes) :
      (String.utf8EncodeChar e ++ zs).toByteArray.utf8DecodeChar? 0 = some e := by
    rw [List.toByteArray_append]
    exact ByteArray.utf8DecodeChar?_utf8EncodeChar_append
  have hc := hdecode c xs
  rw [h, hdecode d ys] at hc
  exact (Option.some.inj hc).symm

lemma utf8_prefix_iff (lit s : Str) : utf8 lit <+: utf8 s ↔ lit <+: s := by
  constructor
  · intro h
    induction lit generalizing s with
    | nil => exact List.nil_prefix
    | cons c lit ih =>
      obtain ⟨rest, h⟩ := h
      cases s with
      | nil => simp [utf8] at h
      | cons d s =>
        rw [utf8_cons, utf8_cons, List.append_assoc] at h
        obtain rfl := encodeChar_append_inj h
        exact (List.prefix_cons_inj c).mpr (ih s ⟨rest, List.append_cancel_left h⟩)
  · rintro ⟨r, rfl⟩
    exact ⟨utf8 r, by rw [utf8, utf8, utf8, List.flatMap_append]⟩

lemma sliceFrom_append (w r : Str) : sliceFrom (utf8 w).length (w ++ r) = some r := by
  induction w with
  | nil => cases r <;> rfl
  | cons c w ih =>
    have hpos := c.utf8Size_pos
    rw [length_utf8_cons, List.cons_append, sliceFrom, if_neg (by omega), if_pos (by omega),
      Nat.add_sub_cancel_left]
    exact ih

lemma anyM_charIndices {f : Str → Option Bool} {g : Str → Bool} (hf : ∀ r, f r = some (g r)) (w s : Str) :
    (charIndicesFrom (utf8 w).length s).anyM (fun i => (sliceFrom i (w ++ s)).bind f) =
      some (s.tails.dropLast.any g) := by
  induction s generalizing w with
  | nil => rfl
  | cons c s ih =>
    have hnext : (utf8 w).length + c.utf8Size = (utf8 (w ++ [c])).length := by
      simp [utf8, List.flatMap_append, String.length_utf8EncodeChar]
    have ih := ih (w ++ [c])
    rw [← hnext, List.append_assoc, List.singleton_append] at ih
    rw [charIndicesFrom, List.anyM, sliceFrom_append, Option.bind_some, hf, List.tails_cons,
      List.dropLast_cons_of_ne_nil (List.ne_nil_of_length_pos (by simp)), List.any_cons]
    cases g (c :: s) with
    | false => exact ih
    | true => rfl

lemma matchSlices_eq (parts : List GlobPart) (s : Str) : matchSlices parts s = some (matchParts parts s) := by
  induction parts generalizing s with
  | nil => cases s <;> simp [matchSlices, matchParts, utf8]
  | cons part parts ih =>
    cases part with
    | literal lit =>
      rw [matchSlices, matchParts]
      by_cases h : lit <+: s
      · obtain ⟨r, rfl⟩ := h
        rw [if_pos (List.isPrefixOf_iff_prefix.mpr ((utf8_prefix_iff _ _).mpr (List.prefix_append lit r))),
          sliceFrom_append, stripPrefix_eq_some.mpr rfl, Option.bind_some, ih]
      · rw [if_neg (fun hp => h ((utf8_prefix_iff _ _).mp (List.isPrefixOf_iff_prefix.mp hp)))]
        cases hs : stripPrefix lit s with
        | none => rfl
        | some r => exact absurd ⟨r, (stripPrefix_eq_some.mp hs).symm⟩ h
    | star =>
      have hany := anyM_charIndices ih [] s
      rw [matchSlices, matchParts]
      cases hrest : parts.isEmpty with
      | true => rfl
      | false =>
        simp only [Bool.false_eq_true, if_false, Bool.false_or]
        rw [show (utf8 []).length = 0 from rfl, List.nil_append] at hany
        rw [hany, ih]
        cases s.tails.dropLast.any (matchParts parts) <;> rfl

theorem matches_language (pattern s : Str) :
    (matchParts (GlobMatcher.new pattern) s = true ↔
      ∃ words : List Str, words.length = pattern.count '*' ∧ fill pattern words = s) ∧
    matchSlices (GlobMatcher.new pattern) s = some (matchParts (GlobMatcher.new pattern) s) ∧
    ∀ rest, GlobMatcher.new (pattern ++ '*' :: '*' :: rest) = GlobMatcher.new (pattern ++ '*' :: rest) := by
  refine ⟨?_, matchSlices_eq _ s, fun rest => globParts_star_star pattern rest [] []⟩
  have hlanguage : partsLanguage (GlobMatcher.new pattern) = patternLanguage pattern := by
    rw [GlobMatcher.new, partsLanguage_globParts, partsLanguage_nil, one_mul]
    exact one_mul _
  rw [matchParts_iff, hlanguage, mem_patternLanguage]

end HttpNu.Bus
