import Mathlib.Data.List.Basic
import Mathlib.Tactic

/-! `application/x-www-form-urlencoded`: pairs of byte strings, written and read. -/

namespace HttpNu.Library.FormUrlEncoded

def isPlain (b : UInt8) : Bool :=
  (0x30 ≤ b && b ≤ 0x39) || (0x41 ≤ b && b ≤ 0x5a) || (0x61 ≤ b && b ≤ 0x7a) || [0x2a, 0x2d, 0x2e, 0x5f].contains b

def hexDigit (n : Nat) : UInt8 := UInt8.ofNat (if n < 10 then 48 + n else 55 + n)

def hexValue (b : UInt8) : Option Nat :=
  if 0x30 ≤ b ∧ b ≤ 0x39 then some (b.toNat - 48)
  else if 0x41 ≤ b ∧ b ≤ 0x46 then some (b.toNat - 55)
  else if 0x61 ≤ b ∧ b ≤ 0x66 then some (b.toNat - 87)
  else none

def escapeByte (b : UInt8) : List UInt8 :=
  if b = 0x20 then [0x2b]
  else if isPlain b then [b]
  else [0x25, hexDigit (b.toNat / 16), hexDigit (b.toNat % 16)]

def escape (bytes : List UInt8) : List UInt8 := bytes.flatMap escapeByte

def writePair (pair : List UInt8 × List UInt8) : List UInt8 := escape pair.1 ++ 0x3d :: escape pair.2

def write (pairs : List (List UInt8 × List UInt8)) : List UInt8 := [0x26].intercalate (pairs.map writePair)

def escaped : List UInt8 → Option UInt8
  | high :: low :: _ => do return UInt8.ofNat (16 * (← hexValue high) + (← hexValue low))
  | _ => none

/-- The bytes after those that belong to the escape before; a percent sign without digits stands for itself. -/
def unescapeFrom : Nat → List UInt8 → List UInt8
  | _, [] => []
  | n + 1, _ :: rest => unescapeFrom n rest
  | 0, b :: rest =>
    if b = 0x2b then 0x20 :: unescapeFrom 0 rest
    else if b = 0x25 then
      match escaped rest with
      | some c => c :: unescapeFrom 2 rest
      | none => b :: unescapeFrom 0 rest
    else b :: unescapeFrom 0 rest

def unescape (bytes : List UInt8) : List UInt8 := unescapeFrom 0 bytes

def readPair (piece : List UInt8) : List UInt8 × List UInt8 :=
  (unescape (piece.takeWhile (· ≠ 0x3d)), unescape (piece.dropWhile (· ≠ 0x3d)).tail)

def read (bytes : List UInt8) : List (List UInt8 × List UInt8) :=
  ((bytes.splitOn 0x26).filter (· ≠ [])).map readPair

lemma hexValue_hexDigit {n : Nat} (h : n < 16) : hexValue (hexDigit n) = some n := by
  interval_cases n <;> rfl

lemma escaped_digits (b : UInt8) (rest : List UInt8) :
    escaped (hexDigit (b.toNat / 16) :: hexDigit (b.toNat % 16) :: rest) = some b := by
  have hhigh : b.toNat / 16 < 16 := Nat.div_lt_of_lt_mul b.toNat_lt
  have hlow : b.toNat % 16 < 16 := Nat.mod_lt _ (by decide)
  simp only [escaped, hexValue_hexDigit hhigh, hexValue_hexDigit hlow, bind, Option.bind_some,
    Nat.div_add_mod, pure,
    UInt8.ofNat_toNat]

lemma unescapeFrom_escapeByte (b : UInt8) (rest : List UInt8) :
    unescapeFrom 0 (escapeByte b ++ rest) = b :: unescapeFrom 0 rest := by
  rw [escapeByte]
  split_ifs with hspace hplain
  · rw [hspace]
    rfl
  · have hplus : b ≠ 0x2b := by
      rintro rfl
      exact absurd hplain (by decide)
    have hpercent : b ≠ 0x25 := by
      rintro rfl
      exact absurd hplain (by decide)
    rw [List.singleton_append, unescapeFrom, if_neg hplus, if_neg hpercent]
  · rw [List.cons_append, unescapeFrom, if_neg (by decide), if_pos rfl, List.cons_append, List.cons_append,
      escaped_digits]
    rfl

lemma unescape_escape (bytes : List UInt8) : unescape (escape bytes) = bytes := by
  induction bytes with
  | nil => rfl
  | cons b bytes ih =>
    rw [escape, List.flatMap_cons, unescape, unescapeFrom_escapeByte, ← escape, ← unescape, ih]

lemma isPlain_hexDigit {n : Nat} (h : n < 16) : isPlain (hexDigit n) = true := by
  interval_cases n <;> rfl

lemma mem_escape {bytes : List UInt8} {b : UInt8} (h : b ∈ escape bytes) :
    isPlain b = true ∨ b = 0x2b ∨ b = 0x25 := by
  obtain ⟨a, _, hb⟩ := List.mem_flatMap.mp h
  rw [escapeByte] at hb
  split_ifs at hb with hspace hplain
  · exact .inr (.inl (List.mem_singleton.mp hb))
  · exact .inl (List.mem_singleton.mp hb ▸ hplain)
  · have hhigh : a.toNat / 16 < 16 := Nat.div_lt_of_lt_mul a.toNat_lt
    have hlow : a.toNat % 16 < 16 := Nat.mod_lt _ (by decide)
    simp only [List.mem_cons, List.not_mem_nil, or_false] at hb
    rcases hb with rfl | rfl | rfl
    · exact .inr (.inr rfl)
    · exact .inl (isPlain_hexDigit hhigh)
    · exact .inl (isPlain_hexDigit hlow)

lemma notMem_escape {b : UInt8} (hplain : isPlain b = false) (hplus : b ≠ 0x2b) (hpercent : b ≠ 0x25)
    (bytes : List UInt8) : b ∉ escape bytes := by
  intro h
  rcases mem_escape h with hb | hb | hb
  · exact absurd (hplain.symm.trans hb) (by decide)
  · exact hplus hb
  · exact hpercent hb

lemma notMem_writePair {b : UInt8} (hplain : isPlain b = false) (hplus : b ≠ 0x2b) (hpercent : b ≠ 0x25)
    (hequals : b ≠ 0x3d) (pair : List UInt8 × List UInt8) : b ∉ writePair pair := by
  rw [writePair, List.mem_append, List.mem_cons, not_or, not_or]
  exact ⟨notMem_escape hplain hplus hpercent _, hequals, notMem_escape hplain hplus hpercent _⟩

lemma mem_write {pairs : List (List UInt8 × List UInt8)} {b : UInt8} (h : b ∈ write pairs) :
    isPlain b = true ∨ b ∈ [0x2b, 0x25, 0x3d, 0x26] := by
  by_contra hnot
  simp only [not_or, Bool.not_eq_true, List.mem_cons, List.not_mem_nil, not_false_eq_true, and_true] at hnot
  obtain ⟨hplain, hplus, hpercent, hequals, hand⟩ := hnot
  rw [write] at h
  induction pairs with
  | nil => cases h
  | cons pair pairs ih =>
    have hpair := notMem_writePair hplain hplus hpercent hequals pair
    cases pairs with
    | nil => exact hpair (by simpa using h)
    | cons next pairs =>
      rw [List.map_cons, List.map_cons, List.intercalate_cons_cons, List.append_assoc, List.mem_append,
        List.mem_append,
        List.mem_singleton] at h
      exact h.elim hpair (fun h => h.elim hand ih)

lemma readPair_writePair (pair : List UInt8 × List UInt8) : readPair (writePair pair) = pair := by
  have hkeep : ∀ b ∈ escape pair.1, decide (b ≠ 0x3d) = true := by
    intro b hb
    refine decide_eq_true ?_
    rintro rfl
    exact notMem_escape (by decide) (by decide) (by decide) _ hb
  rw [readPair, writePair, List.takeWhile_append_of_pos hkeep, List.dropWhile_append_of_pos hkeep,
    List.takeWhile_cons_of_neg (by decide), List.dropWhile_cons_of_neg (by decide), List.append_nil,
      List.tail_cons,
    unescape_escape, unescape_escape]

lemma writePair_ne_nil (pair : List UInt8 × List UInt8) : writePair pair ≠ [] := by simp [writePair]

theorem read_write (pairs : List (List UInt8 × List UInt8)) : read (write pairs) = pairs := by
  cases pairs with
  | nil => rfl
  | cons pair pairs =>
    have hpieces : ∀ piece ∈ (pair :: pairs).map writePair, (0x26 : UInt8) ∉ piece := by
      intro piece hpiece
      obtain ⟨p, _, rfl⟩ := List.mem_map.mp hpiece
      exact notMem_writePair (by decide) (by decide) (by decide) (by decide) p
    have hnonempty : ∀ piece ∈ (pair :: pairs).map writePair, decide (piece ≠ []) = true := by
      intro piece hpiece
      obtain ⟨p, _, rfl⟩ := List.mem_map.mp hpiece
      exact decide_eq_true (writePair_ne_nil p)
    rw [read, write, List.splitOn_intercalate _ hpieces (by simp), List.filter_eq_self.mpr hnonempty, List.map_map]
    exact List.map_id'' readPair_writePair _

example : read [0x61, 0x3d, 0x2b, 0x25, 0x34, 0x31, 0x26, 0x26, 0x62] =
    [([0x61], [0x20, 0x41]), ([0x62], [])] := by
  decide

end HttpNu.Library.FormUrlEncoded
