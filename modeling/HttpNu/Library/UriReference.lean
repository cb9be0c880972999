import Mathlib.Data.List.TakeWhile
import Mathlib.Tactic

/-! A URI reference taken apart into scheme, authority, path, query and fragment. -/

namespace HttpNu.Library.UriReference

structure Parts where
  scheme : Option (List Char)
  authority : Option (List Char)
  path : List Char
  query : Option (List Char)
  fragment : Option (List Char)
  deriving DecidableEq

def endsAuthority (c : Char) : Bool := c = '/' || c = '?' || c = '#'

def endsScheme (c : Char) : Bool := c = ':' || endsAuthority c

def splitScheme (s : List Char) : Option (List Char) × List Char :=
  match s.span (fun c => !endsScheme c) with
  | (c :: cs, ':' :: rest) => (some (c :: cs), rest)
  | _ => (none, s)

def splitAuthority : List Char → Option (List Char) × List Char
  | '/' :: '/' :: rest =>
    (some (rest.takeWhile (fun c => !endsAuthority c)), rest.dropWhile (fun c => !endsAuthority c))
  | s => (none, s)

def splitAt (delimiter : Char) (s : List Char) : List Char × Option (List Char) :=
  match s.dropWhile (· ≠ delimiter) with
  | _ :: rest => (s.takeWhile (· ≠ delimiter), some rest)
  | [] => (s, none)

def split (s : List Char) : Parts :=
  let (scheme, rest) := splitScheme s
  let (authority, rest) := splitAuthority rest
  let (rest, fragment) := splitAt '#' rest
  let (path, query) := splitAt '?' rest
  ⟨scheme, authority, path, query, fragment⟩

example : (split "http://backend@evil.com/x?q#f".toList) =
    ⟨some "http".toList, some "backend@evil.com".toList, "/x".toList, some "q".toList, some "f".toList⟩ := by
  decide

/-- A URI that names where it leads: whatever stands in its path is not part of that. -/
structure Hierarchical where
  scheme : List Char
  authority : List Char
  path : List Char
  scheme_ne : scheme ≠ []
  scheme_ends : ∀ c ∈ scheme, endsScheme c = false
  authority_ends : ∀ c ∈ authority, endsAuthority c = false
  path_head : ∀ c ∈ path.head?, c = '/'

def Hierarchical.text (u : Hierarchical) : List Char := u.scheme ++ ':' :: '/' :: '/' :: u.authority ++ u.path

lemma splitScheme_append {scheme : List Char} (hne : scheme ≠ []) (hends : ∀ c ∈ scheme, endsScheme c = false)
    (rest : List Char) : splitScheme (scheme ++ ':' :: rest) = (some scheme, rest) := by
  have hkeep : ∀ c ∈ scheme, (!endsScheme c) = true := fun c hc => by rw [hends c hc]; rfl
  have hspan : (scheme ++ ':' :: rest).span (fun c => !endsScheme c) = (scheme, ':' :: rest) := by
    rw [List.span_eq_takeWhile_dropWhile, List.takeWhile_append_of_pos hkeep, List.dropWhile_append_of_pos hkeep]
    simp [endsScheme]
  obtain ⟨c, cs, rfl⟩ := List.exists_cons_of_ne_nil hne
  rw [splitScheme, hspan]
  rfl

lemma splitAuthority_append {authority : List Char} (hends : ∀ c ∈ authority, endsAuthority c = false)
    {rest : List Char} (hrest : ∀ c ∈ rest.head?, endsAuthority c = true) :
    splitAuthority ('/' :: '/' :: (authority ++ rest)) = (some authority, rest) := by
  have hkeep : ∀ c ∈ authority, (!endsAuthority c) = true := fun c hc => by rw [hends c hc]; rfl
  rw [splitAuthority, List.takeWhile_append_of_pos hkeep, List.dropWhile_append_of_pos hkeep]
  cases rest with
  | nil => simp
  | cons c rest => simp [hrest c rfl]

lemma split_text (u : Hierarchical) {rest : List Char} (hrest : ∀ c ∈ rest.head?, endsAuthority c = true) :
    split (u.text ++ rest) =
      ⟨some u.scheme, some u.authority, (splitAt '?' (splitAt '#' (u.path ++ rest)).1).1,
        (splitAt '?' (splitAt '#' (u.path ++ rest)).1).2, (splitAt '#' (u.path ++ rest)).2⟩ := by
  have hhead : ∀ c ∈ (u.path ++ rest).head?, endsAuthority c = true := by
    intro c hc
    cases hpath : u.path with
    | nil => exact hrest c (by simpa [hpath] using hc)
    | cons d path =>
      obtain rfl : d = c := by simpa [hpath] using hc
      rw [u.path_head d (by simp [hpath])]
      rfl
  have htext : u.text ++ rest = u.scheme ++ ':' :: '/' :: '/' :: (u.authority ++ (u.path ++ rest)) := by
    simp [Hierarchical.text]
  rw [htext, split, splitScheme_append u.scheme_ne u.scheme_ends]
  dsimp only
  rw [splitAuthority_append u.authority_ends hhead]

lemma split_text_append (u : Hierarchical) {rest : List Char} (hrest : ∀ c ∈ rest.head?, endsAuthority c = true) :
    (split (u.text ++ rest)).scheme = some u.scheme ∧ (split (u.text ++ rest)).authority = some u.authority := by
  rw [split_text u hrest]
  exact ⟨rfl, rfl⟩

lemma splitAt_notMem {delimiter : Char} {s : List Char} (h : delimiter ∉ s) : splitAt delimiter s = (s, none) := by
  have hkeep : s.dropWhile (· ≠ delimiter) = [] := by
    refine List.dropWhile_eq_nil_iff.mpr (fun c hc => decide_eq_true ?_)
    rintro rfl
    exact h hc
  rw [splitAt, hkeep]

lemma splitAt_append {delimiter : Char} {s : List Char} (h : delimiter ∉ s) (rest : List Char) :
    splitAt delimiter (s ++ delimiter :: rest) = (s, some rest) := by
  have hkeep : ∀ c ∈ s, decide (c ≠ delimiter) = true := by
    intro c hc
    refine decide_eq_true ?_
    rintro rfl
    exact h hc
  rw [splitAt, List.dropWhile_append_of_pos hkeep, List.takeWhile_append_of_pos hkeep,
    List.dropWhile_cons_of_neg (by simp), List.takeWhile_cons_of_neg (by simp), List.append_nil]

lemma split_text_target (u : Hierarchical) {path : List Char} {query : Option (List Char)}
    (hpath : path.head? = some '/') (hown : '?' ∉ u.path ++ path) (hfragment : '#' ∉ u.path ++ path)
    (hquery : ∀ q ∈ query, '#' ∉ q) :
    split (u.text ++ (path ++ query.elim [] ('?' :: ·))) =
      ⟨some u.scheme, some u.authority, u.path ++ path, query, none⟩ := by
  have hslash : ∀ c ∈ (path ++ query.elim [] ('?' :: ·)).head?, endsAuthority c = true := by
    intro c hc
    rw [List.head?_append_of_ne_nil _ (List.ne_nil_of_mem (List.mem_of_head? hpath)), hpath] at hc
    rw [← Option.some.inj hc]
    rfl
  have hplain : '#' ∉ (u.path ++ path) ++ query.elim [] ('?' :: ·) := by
    cases query with
    | none => simpa using hfragment
    | some q =>
      have hq := hquery q rfl
      rw [Option.elim_some, List.mem_append, List.mem_cons]
      exact not_or.mpr ⟨hfragment, not_or.mpr ⟨by decide, hq⟩⟩
  rw [split_text u hslash, ← List.append_assoc, splitAt_notMem hplain]
  cases query with
  | none => rw [Option.elim_none, List.append_nil, splitAt_notMem hown]
  | some q => rw [Option.elim_some, splitAt_append hown]

lemma split_slashes (rest : List Char) : (split ('/' :: '/' :: rest)).scheme = none ∧
    (split ('/' :: '/' :: rest)).authority = some (rest.takeWhile (fun c => !endsAuthority c)) := by
  have hscheme : splitScheme ('/' :: '/' :: rest) = (none, '/' :: '/' :: rest) := by
    simp [splitScheme, List.span_eq_takeWhile_dropWhile, endsScheme, endsAuthority]
  rw [split, hscheme]
  exact ⟨rfl, rfl⟩

end HttpNu.Library.UriReference
