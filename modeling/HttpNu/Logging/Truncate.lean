import HttpNu.Logging.Human

/-! Where the middle of a path is cut out for a line of the human log. -/

namespace HttpNu.Logging.Human

open Text

/-- The two bytes at which a string of over `maxLen` bytes is cut begin characters, or are the end. -/
def CuttableAt (maxLen : Nat) (s : Str) : Prop :=
  (utf8 s).length ≤ maxLen ∨
    CharBoundary ((maxLen - 3) / 2) s ∧ CharBoundary ((utf8 s).length - (maxLen - 3) / 2) s

lemma cuttable_iff {path : Str} : Cuttable path ↔ CuttableAt 40 path := Iff.rfl

/-- `truncate_middle` returns this string, and it is as it should be. -/
structure Truncated (s : Str) (maxLen : Nat) (t : Str) : Prop where
  returns : truncateMiddle s maxLen = some t
  short : (utf8 t).length ≤ maxLen
  whole : (utf8 s).length ≤ maxLen → t = s
  cut : maxLen < (utf8 s).length → ∃ head middle tail, s = head ++ middle ++ tail ∧
    t = head ++ "...".toList ++ tail

def LinesSafe (path : Str) : Prop :=
  ∀ (now : Moment) (state : RequestState), state.path = path →
    (formatActiveLine now state).isSome ∧
      ∀ durationMs bytes, (formatCompleteLine now state durationMs bytes).isSome

variable {n maxLen : Nat} {s t w r : Str}

lemma splitAtByte_append (w r : Str) : splitAtByte (utf8 w).length (w ++ r) = some (w, r) := by
  induction w with
  | nil => cases r <;> rfl
  | cons c w ih =>
    have hpos := c.utf8Size_pos
    obtain ⟨k, hk⟩ : ∃ k, c.utf8Size + (utf8 w).length = k + 1 := ⟨c.utf8Size + (utf8 w).length - 1, by omega⟩
    have hrest : k + 1 - c.utf8Size = (utf8 w).length := by omega
    rw [length_utf8_cons, hk, List.cons_append, splitAtByte, if_pos (by omega), hrest, ih]
    rfl

lemma splitAtByte_eq_some (h : splitAtByte n s = some (w, r)) : w ++ r = s ∧ (utf8 w).length = n := by
  induction s generalizing n w with
  | nil =>
    cases n with
    | zero =>
      cases h
      exact ⟨rfl, rfl⟩
    | succ n => cases h
  | cons c s ih =>
    cases n with
    | zero =>
      cases h
      exact ⟨rfl, rfl⟩
    | succ n =>
      rw [splitAtByte] at h
      split at h
      next hle =>
        obtain ⟨⟨w, r⟩, hsplit, heq⟩ := Option.map_eq_some_iff.mp h
        cases heq
        obtain ⟨rfl, hlength⟩ := ih hsplit
        refine ⟨rfl, ?_⟩
        rw [length_utf8_cons]
        omega
      next => cases h

lemma splitAtByte_isSome : (splitAtByte n s).isSome ↔ CharBoundary n s := by
  constructor
  · intro h
    obtain ⟨⟨w, r⟩, hsplit⟩ := Option.isSome_iff_exists.mp h
    obtain ⟨heq, hlength⟩ := splitAtByte_eq_some hsplit
    exact ⟨w, ⟨r, heq⟩, hlength⟩
  · rintro ⟨w, ⟨r, rfl⟩, rfl⟩
    rw [splitAtByte_append]
    rfl

lemma truncateMiddle_isSome : (truncateMiddle s maxLen).isSome ↔ CuttableAt maxLen s := by
  rw [truncateMiddle, CuttableAt]
  split
  next hle => exact ⟨fun _ => .inl hle, fun _ => rfl⟩
  next hlt =>
    rw [or_iff_right hlt, ← splitAtByte_isSome, ← splitAtByte_isSome]
    cases hhead : splitAtByte ((maxLen - 3) / 2) s with
    | none => simp [hhead]
    | some cut =>
      cases htail : splitAtByte ((utf8 s).length - (maxLen - 3) / 2) s <;> simp [hhead, htail]

lemma truncateMiddle_of_lt (hlt : maxLen < (utf8 s).length) (h : truncateMiddle s maxLen = some t) :
    ∃ head middle tail, s = head ++ middle ++ tail ∧ t = head ++ "...".toList ++ tail ∧
      (utf8 head).length = (maxLen - 3) / 2 ∧ (utf8 tail).length = (maxLen - 3) / 2 := by
  rw [truncateMiddle, if_neg (not_le.mpr hlt)] at h
  obtain ⟨⟨head, rest⟩, hhead, h⟩ := Option.bind_eq_some_iff.mp h
  obtain ⟨⟨front, tail⟩, htail, h⟩ := Option.bind_eq_some_iff.mp h
  obtain ⟨hs, hheadLength⟩ := splitAtByte_eq_some hhead
  obtain ⟨hs', hfrontLength⟩ := splitAtByte_eq_some htail
  have hlength : (utf8 front).length + (utf8 tail).length = (utf8 s).length := by
    rw [← List.length_append, ← utf8_append, hs']
  -- the head ends before the tail begins
  rcases List.append_eq_append_iff.mp (hs.trans hs'.symm) with ⟨middle, hfront, _⟩ | ⟨middle, hover, _⟩
  · refine ⟨head, middle, tail, ?_, (Option.some.inj h).symm, hheadLength, ?_⟩
    · rw [← hfront, hs']
    · omega
  · rw [hover, utf8_append, List.length_append] at hheadLength
    omega

lemma truncated (hmax : 3 ≤ maxLen) (h : truncateMiddle s maxLen = some t) : Truncated s maxLen t := by
  rcases le_or_gt (utf8 s).length maxLen with hle | hlt
  · have heq : s = t := by
      rw [truncateMiddle, if_pos hle] at h
      exact Option.some.inj h
    exact ⟨h, heq ▸ hle, fun _ => heq.symm, fun hlt => absurd hle (not_le.mpr hlt)⟩
  · obtain ⟨head, middle, tail, hs, ht, hhead, htail⟩ := truncateMiddle_of_lt hlt h
    have hdots : (utf8 "...".toList).length = 3 := by decide
    refine ⟨h, ?_, fun hle => absurd hle (not_le.mpr hlt), fun _ => ⟨head, middle, tail, hs, ht⟩⟩
    rw [ht, utf8_append, utf8_append, List.length_append, List.length_append, hdots]
    omega

lemma formatActiveLine_isSome (now : Moment) {state : RequestState} (h : Cuttable state.path) :
    ∃ line, formatActiveLine now state = some line := by
  obtain ⟨path, hpath⟩ := Option.isSome_iff_exists.mp (truncateMiddle_isSome.mpr (cuttable_iff.mp h))
  rw [formatActiveLine, hpath]
  simp only [bind, Option.bind_some]
  split
  · exact ⟨_, rfl⟩
  · exact ⟨_, rfl⟩

lemma formatCompleteLine_isSome (now : Moment) {state : RequestState} (h : Cuttable state.path)
    (durationMs bytes : Nat) : ∃ line, formatCompleteLine now state durationMs bytes = some line := by
  obtain ⟨path, hpath⟩ := Option.isSome_iff_exists.mp (truncateMiddle_isSome.mpr (cuttable_iff.mp h))
  rw [formatCompleteLine, hpath]
  exact ⟨_, rfl⟩

lemma formatActiveLine_panics (now : Moment) {state : RequestState} (h : ¬Cuttable state.path) :
    formatActiveLine now state = none := by
  have hpath : truncateMiddle state.path 40 = none :=
    Option.not_isSome_iff_eq_none.mp (fun hsome => h (cuttable_iff.mpr (truncateMiddle_isSome.mp hsome)))
  rw [formatActiveLine, hpath]
  rfl

lemma exists_truncated (hmax : 3 ≤ maxLen) : (∃ t, Truncated s maxLen t) ↔ CuttableAt maxLen s := by
  rw [← truncateMiddle_isSome, Option.isSome_iff_exists]
  constructor
  · rintro ⟨t, ht⟩
    exact ⟨t, ht.returns⟩
  · rintro ⟨t, ht⟩
    exact ⟨t, truncated hmax ht⟩

lemma linesSafe_iff : LinesSafe s ↔ CuttableAt 40 s := by
  rw [← cuttable_iff]
  constructor
  · intro hsafe
    by_contra hcut
    have hline := (hsafe ⟨0, [], [], fun _ => [], true⟩ ⟨[], s, none, 0, none, none⟩ rfl).1
    rw [Option.isSome_iff_ne_none] at hline
    exact hline (formatActiveLine_panics _ hcut)
  · rintro hcut now state rfl
    exact ⟨Option.isSome_iff_exists.mpr (formatActiveLine_isSome now hcut), fun durationMs bytes =>
      Option.isSome_iff_exists.mpr (formatCompleteLine_isSome now hcut durationMs bytes)⟩

theorem truncateMiddle_iff (s : Str) {maxLen : Nat} (hmax : 3 ≤ maxLen) :
    ((∃ t, Truncated s maxLen t) ↔ CuttableAt maxLen s) ∧ (LinesSafe s ↔ CuttableAt 40 s) :=
  ⟨exists_truncated hmax, linesSafe_iff⟩

theorem truncateMiddle_iff_menu : ∃ t, Truncated "/café-menu".toList 10 t := by
  refine (truncateMiddle_iff _ (by decide)).1.mpr (.inr ⟨?_, ?_⟩)
  · exact splitAtByte_isSome.mp (by decide)
  · exact splitAtByte_isSome.mp (by decide)

/-- Byte 18 of this path is inside a character. -/
theorem truncateMiddle_panics : (¬∃ t, Truncated ('/' :: List.replicate 30 'é') 40 t) ∧
    truncateMiddle ('/' :: List.replicate 30 'é') 40 = none ∧ ¬LinesSafe ('/' :: List.replicate 30 'é') := by
  have hnone : truncateMiddle ('/' :: List.replicate 30 'é') 40 = none := by decide
  have hcut : ¬CuttableAt 40 ('/' :: List.replicate 30 'é') := by
    rw [← truncateMiddle_isSome, hnone]
    exact Bool.false_ne_true
  exact ⟨fun h => hcut ((exists_truncated (by decide)).mp h), hnone, fun h => hcut (linesSafe_iff.mp h)⟩

example : truncateMiddle (List.replicate 41 'a') 40 =
    some (List.replicate 18 'a' ++ "...".toList ++ List.replicate 18 'a') := by decide

end HttpNu.Logging.Human
