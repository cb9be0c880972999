import Mathlib.Data.List.Basic
import Mathlib.Tactic

/-! The line grammar of event streams: a line ends at CRLF, at LF or at a CR that no LF follows. -/

namespace HttpNu.Library.EventStream

/-- The complete lines of a text, and the rest that no terminator has ended yet. -/
def scan : List Char → List (List Char) × List Char
  | [] => ([], [])
  | c :: cs =>
    let (ls, rest) := scan cs
    if c = '\n' ∨ c = '\r' ∧ cs.head? ≠ some '\n' then ([] :: ls, rest)
    else if c = '\r' then (ls, rest)
    else
      match ls with
      | [] => ([], c :: rest)
      | l :: ls => ((c :: l) :: ls, rest)

def fieldName (line : List Char) : List Char := line.takeWhile (· ≠ ':')

def OneLine (s : List Char) : Prop := '\n' ∉ s ∧ '\r' ∉ s.dropLast

instance (s : List Char) : Decidable (OneLine s) := inferInstanceAs (Decidable (_ ∧ _))

/-- A `\r` just before the `\n` belongs to the terminator. -/
def stripCr (s : List Char) : List Char := if s.getLast? = some '\r' then s.dropLast else s

lemma scan_newline (s : List Char) : ∃ l ls, scan (s ++ ['\n']) = (l :: ls, []) := by
  induction s with
  | nil => exact ⟨[], [], rfl⟩
  | cons c s ih =>
    obtain ⟨l, ls, hs⟩ := ih
    simp only [List.cons_append, scan, hs]
    split
    · exact ⟨_, _, rfl⟩
    · split <;> exact ⟨_, _, rfl⟩

lemma scan_append_newline (s t : List Char) :
    scan (s ++ '\n' :: t) = ((scan (s ++ ['\n'])).1 ++ (scan t).1, (scan t).2) := by
  induction s with
  | nil => simp [scan]
  | cons c s ih =>
    obtain ⟨l, ls, hs⟩ := scan_newline s
    have hh : (s ++ '\n' :: t).head? = (s ++ ['\n']).head? := by cases s <;> rfl
    simp only [List.cons_append, scan, ih, hh, hs]
    split
    · rfl
    · split <;> rfl

lemma oneLine_cons {c : Char} {s : List Char} (hc : c ≠ '\n') (hr : c ≠ '\r') :
    OneLine (c :: s) ↔ OneLine s := by
  cases s <;> simp [OneLine, hc.symm, hr.symm]

lemma stripCr_cons {c : Char} (hr : c ≠ '\r') (s : List Char) : stripCr (c :: s) = c :: stripCr s := by
  cases s with
  | nil => simp [stripCr, hr]
  | cons d s =>
    simp only [stripCr, List.getLast?_cons_cons]
    split <;> simp

lemma stripCr_append {s : List Char} (hs : s.getLast? ≠ some '\r') (t : List Char) :
    stripCr (s ++ t) = s ++ stripCr t := by
  cases t with
  | nil => simp [stripCr, hs]
  | cons c t =>
    have hl : (s ++ c :: t).getLast? = (c :: t).getLast? := by
      simp [List.getLast?_append, List.getLast?_cons]
    simp only [stripCr, hl]
    split
    · rw [List.dropLast_append_of_ne_nil (by simp)]
    · rfl

lemma fieldName_append {name : List Char} (hn : ':' ∉ name) (s : List Char) :
    fieldName (name ++ ':' :: s) = name := by
  have hp : ∀ c ∈ name, decide (c ≠ ':') = true := by
    intro c hc
    simpa using fun h : c = ':' => hn (h ▸ hc)
  rw [fieldName, List.takeWhile_append_of_pos hp]
  simp

lemma oneLine_append {s : List Char} (hn : '\n' ∉ s) (hr : '\r' ∉ s) (t : List Char) :
    OneLine (s ++ t) ↔ OneLine t := by
  induction s with
  | nil => rfl
  | cons c s ih =>
    simp only [List.mem_cons, not_or] at hn hr
    rw [List.cons_append, oneLine_cons (Ne.symm hn.1) (Ne.symm hr.1), ih hn.2 hr.2]

lemma scan_oneLine (s : List Char) :
    (OneLine s → (scan (s ++ ['\n'])).1 = [stripCr s]) ∧
      (¬ OneLine s → 2 ≤ (scan (s ++ ['\n'])).1.length) := by
  induction s with
  | nil => simp [OneLine, scan, stripCr]
  | cons c s ih =>
    obtain ⟨l, ls, hs⟩ := scan_newline s
    rw [hs] at ih
    by_cases hc : c = '\n'
    · subst c
      refine ⟨fun h => absurd List.mem_cons_self h.1, fun _ => ?_⟩
      simp [scan, hs]
    by_cases hr : c = '\r'
    · subst c
      cases s with
      | nil => decide
      | cons d s =>
        refine ⟨fun h => absurd List.mem_cons_self h.2, fun _ => ?_⟩
        have hscan : scan ('\r' :: (d :: s ++ ['\n'])) =
            if d = '\n' then (l :: ls, []) else ([] :: l :: ls, []) := by
          rw [scan, hs]
          by_cases hd : d = '\n' <;> simp [hd]
        rw [List.cons_append, hscan]
        split
        · rename_i hd
          exact ih.2 (fun h => h.1 (hd ▸ List.mem_cons_self))
        · simp
    · rw [oneLine_cons hc hr, stripCr_cons hr]
      simp only [List.cons_append, scan, hs, hc, hr, false_and, or_self, if_false]
      refine ⟨fun h => ?_, fun h => ?_⟩
      · have := ih.1 h
        simp_all
      · simpa using ih.2 h

lemma scan_terminated (ps : List (List Char)) :
    scan (ps.flatMap (· ++ ['\n'])) = (ps.flatMap (fun p => (scan (p ++ ['\n'])).1), []) := by
  induction ps with
  | nil => rfl
  | cons p ps ih =>
    rw [List.flatMap_cons, List.flatMap_cons, List.append_assoc, List.singleton_append, scan_append_newline, ih]

lemma scan_pieces (ps : List (List Char)) :
    scan (ps.flatMap (· ++ ['\n']) ++ ['\n']) =
      (ps.flatMap (fun p => (scan (p ++ ['\n'])).1) ++ [[]], []) := by
  have h := scan_terminated (ps ++ [[]])
  rw [List.flatMap_append, List.flatMap_append] at h
  exact h

lemma scan_oneLines {ps : List (List Char)} (h : ∀ p ∈ ps, OneLine p) :
    ps.flatMap (fun p => (scan (p ++ ['\n'])).1) = ps.map stripCr := by
  induction ps with
  | nil => rfl
  | cons p ps ih =>
    rw [List.flatMap_cons, List.map_cons, (scan_oneLine p).1 (h p List.mem_cons_self),
      ih (fun q hq => h q (List.mem_cons_of_mem p hq))]
    rfl

lemma oneLine_of_length {ps : List (List Char)}
    (h : (ps.flatMap (fun p => (scan (p ++ ['\n'])).1)).length = ps.length) : ∀ p ∈ ps, OneLine p := by
  have hone : ∀ p, 1 ≤ (scan (p ++ ['\n'])).1.length := by
    intro p
    obtain ⟨l, ls, hp⟩ := scan_newline p
    simp [hp]
  have hle : ∀ ps : List (List Char),
      ps.length ≤ (ps.flatMap (fun p => (scan (p ++ ['\n'])).1)).length := by
    intro ps
    induction ps with
    | nil => simp
    | cons p ps ih =>
      have := hone p
      simp only [List.flatMap_cons, List.length_append, List.length_cons]
      omega
  induction ps with
  | nil => simp
  | cons p ps ih =>
    simp only [List.flatMap_cons, List.length_append, List.length_cons] at h
    have hp := hone p
    have hps := hle ps
    intro q hq
    rcases List.mem_cons.mp hq with rfl | hq
    · by_contra hn
      have := (scan_oneLine q).2 hn
      omega
    · exact ih (by omega) q hq

def stripSpace : List Char → List Char
  | ' ' :: s => s
  | s => s

/-- What a line sets its field to: one space after the colon does not count. -/
def fieldValue (line : List Char) : List Char := stripSpace (line.dropWhile (· ≠ ':')).tail

def valuesOf (name : List Char) (lines : List (List Char)) : List (List Char) :=
  (lines.filter (fun l => fieldName l = name)).map fieldValue

def blocks (text : List Char) : List (List (List Char)) := ((scan text).1.splitOn []).dropLast

/-- What the lines of a block set the fields to, a later line over an earlier one. -/
structure Block where
  event : Option (List Char)
  id : Option (List Char)
  retry : Option (List Char)
  data : List (List Char)
  others : List (List Char)
  deriving DecidableEq

def knownFields : List (List Char) := ["event".toList, "id".toList, "retry".toList, "data".toList]

def Block.ofLines (lines : List (List Char)) : Block where
  event := (valuesOf "event".toList lines).getLast?
  id := (valuesOf "id".toList lines).getLast?
  retry := (valuesOf "retry".toList lines).getLast?
  data := valuesOf "data".toList lines
  others := lines.filter (fun l => !knownFields.contains (fieldName l))

def decode (text : List Char) : List Block := (blocks text).map Block.ofLines

structure Client where
  events : List (List Char)
  buffer : List (List Char)

/-- An event without data is not dispatched. -/
def Client.read (client : Client) (line : List Char) : Client :=
  if line = [] then
    if client.buffer = [] then client else ⟨client.events ++ [['\n'].intercalate client.buffer], []⟩
  else if fieldName line = "data".toList then { client with buffer := client.buffer ++ [fieldValue line] }
  else client

def Client.readAll (client : Client) (lines : List (List Char)) : Client := lines.foldl Client.read client

def stripBom : List Char → List Char
  | [] => []
  | c :: s => if c = Char.ofNat 0xfeff then s else c :: s

def dispatched (text : List Char) : List (List Char) := (Client.readAll ⟨[], []⟩ (scan (stripBom text)).1).events

lemma fieldValue_append {name : List Char} (hn : ':' ∉ name) (s : List Char) :
    fieldValue (name ++ ':' :: ' ' :: s) = s := by
  have hp : ∀ c ∈ name, decide (c ≠ ':') = true := by
    intro c hc
    simpa using fun h : c = ':' => hn (h ▸ hc)
  rw [fieldValue, List.dropWhile_append_of_pos hp]
  rfl

lemma valuesOf_append (name : List Char) (ls ms : List (List Char)) :
    valuesOf name (ls ++ ms) = valuesOf name ls ++ valuesOf name ms := by
  simp [valuesOf]

lemma valuesOf_eq_nil {name : List Char} {ls : List (List Char)} (h : ∀ l ∈ ls, fieldName l ≠ name) :
    valuesOf name ls = [] := by
  rw [valuesOf, List.filter_eq_nil_iff.mpr (by simpa using h), List.map_nil]

lemma valuesOf_eq_map {name : List Char} {ls : List (List Char)} (h : ∀ l ∈ ls, fieldName l = name) :
    valuesOf name ls = ls.map fieldValue := by
  rw [valuesOf, List.filter_eq_self.mpr (by simpa using h)]

lemma stripCr_of_notMem {s : List Char} (h : '\r' ∉ s) : stripCr s = s :=
  if_neg (fun hl => h (List.mem_of_getLast? hl))

lemma blocks_groups {groups : List (List (List Char))} (hone : ∀ ls ∈ groups, ∀ l ∈ ls, OneLine l)
    (hcr : ∀ ls ∈ groups, ∀ l ∈ ls, '\r' ∉ l) (hne : ∀ ls ∈ groups, [] ∉ ls) :
    blocks ((groups.flatMap (fun ls => ls ++ [[]])).flatMap (· ++ ['\n'])) = groups := by
  have hlines : ∀ l ∈ groups.flatMap (fun ls => ls ++ [[]]), OneLine l ∧ '\r' ∉ l := by
    intro l hl
    obtain ⟨ls, hls, hl⟩ := List.mem_flatMap.mp hl
    rcases List.mem_append.mp hl with hl | hl
    · exact ⟨hone ls hls l hl, hcr ls hls l hl⟩
    · rw [List.mem_singleton.mp hl]
      decide
  have hstrip : (groups.flatMap (fun ls => ls ++ [[]])).map stripCr = groups.flatMap (fun ls => ls ++ [[]]) := by
    rw [List.map_congr_left (fun l hl => stripCr_of_notMem (hlines l hl).2), List.map_id']
  have hsplit : (groups.flatMap (fun ls => ls ++ [[]])).splitOn [] = groups ++ [[]] := by
    clear hone hcr hlines hstrip
    induction groups with
    | nil => rfl
    | cons ls groups ih =>
      rw [List.flatMap_cons, List.append_assoc, List.singleton_append,
        List.splitOn_append_cons_self_of_not_mem (hne ls List.mem_cons_self),
        ih (fun ms hms => hne ms (List.mem_cons_of_mem ls hms))]
      rfl
  rw [blocks, scan_terminated, scan_oneLines (fun l hl => (hlines l hl).1), hstrip, hsplit, List.dropLast_concat]

lemma scan_append {s : List Char} (hcr : '\r' ∉ s) (t : List Char) :
    ∃ ls, (scan (s ++ t)).1 = (scan s).1 ++ ls := by
  induction s with
  | nil => exact ⟨_, rfl⟩
  | cons c s ih =>
    obtain ⟨hc, hs⟩ := not_or.mp (mt List.mem_cons.mpr hcr)
    obtain ⟨ls, hls⟩ := ih hs
    have hc : c ≠ '\r' := fun he => hc he.symm
    simp only [List.cons_append, scan, hls, hc, false_and, or_false, if_false]
    split
    · exact ⟨ls, rfl⟩
    · cases hscan : (scan s).1 with
      | nil => exact ⟨_, rfl⟩
      | cons l rest => exact ⟨ls, rfl⟩

lemma scan_append_unended {s t : List Char} (hs : '\r' ∉ s) (hn : '\n' ∉ t) (hr : '\r' ∉ t) :
    (scan (s ++ t)).1 = (scan s).1 := by
  induction s with
  | nil =>
    induction t with
    | nil => rfl
    | cons c t ih =>
      obtain ⟨hcn, hn⟩ := not_or.mp (mt List.mem_cons.mpr hn)
      obtain ⟨hcr, hr⟩ := not_or.mp (mt List.mem_cons.mpr hr)
      have ht : (scan t).1 = [] := ih hn hr
      simp [scan, ht, Ne.symm hcn, Ne.symm hcr]
  | cons c s ih =>
    obtain ⟨hc, hs⟩ := not_or.mp (mt List.mem_cons.mpr hs)
    have hc : c ≠ '\r' := fun he => hc he.symm
    simp only [List.cons_append, scan, ih hs, hc, false_and, or_false, if_false]
    split
    · rfl
    · cases (scan s).1 <;> rfl

lemma splitOn_isPrefix {α : Type} [BEq α] [LawfulBEq α] (a : α) {xs ys : List α} (h : xs <+: ys) :
    (xs.splitOn a).dropLast <+: (ys.splitOn a).dropLast := by
  obtain ⟨zs, rfl⟩ := h
  induction xs with
  | nil => exact List.nil_prefix
  | cons x xs ih =>
    obtain ⟨l, ls, hl⟩ := List.exists_cons_of_ne_nil (List.splitOn_ne_nil a xs)
    obtain ⟨m, ms, hm⟩ := List.exists_cons_of_ne_nil (List.splitOn_ne_nil a (xs ++ zs))
    rw [hl, hm] at ih
    rw [List.cons_append, List.splitOn_cons_eq_if_modifyHead, List.splitOn_cons_eq_if_modifyHead, hl, hm]
    split
    · have hdrop : ∀ k (ks : List (List α)), ([] :: k :: ks).dropLast = [] :: (k :: ks).dropLast := fun _ _ => rfl
      rw [hdrop, hdrop]
      exact (List.prefix_cons_inj []).mpr ih
    · cases ls with
      | nil => exact List.nil_prefix
      | cons l' ls =>
        cases ms with
        | nil => simp at ih
        | cons m' ms =>
          obtain ⟨rfl, hrest⟩ := List.cons_prefix_cons.mp ih
          exact List.cons_prefix_cons.mpr ⟨rfl, hrest⟩

/-- A client that has read a part of a text, and then nothing that ends a line, has the first events of the
text. -/
lemma decode_cut {text part rest : List Char} (hcr : '\r' ∉ text) (hpart : part <+: text) (hn : '\n' ∉ rest)
    (hr : '\r' ∉ rest) : decode (part ++ rest) <+: decode text := by
  have hpartcr : '\r' ∉ part := fun hmem => hcr (hpart.mem hmem)
  obtain ⟨later, rfl⟩ := hpart
  obtain ⟨ls, hls⟩ := scan_append hpartcr later
  rw [decode, decode, blocks, blocks, scan_append_unended hpartcr hn hr, hls]
  exact (splitOn_isPrefix ([] : List Char) (List.prefix_append _ ls)).map _

namespace Client

lemma readAll_append (client : Client) (ls ms : List (List Char)) :
    client.readAll (ls ++ ms) = (client.readAll ls).readAll ms :=
  List.foldl_append

lemma readAll_eq {ls : List (List Char)} (hne : [] ∉ ls) (client : Client) :
    client.readAll ls =
      ⟨client.events, client.buffer ++ (ls.filter (fun l => fieldName l = "data".toList)).map fieldValue⟩ := by
  induction ls generalizing client with
  | nil => simp [readAll]
  | cons l ls ih =>
    have hnil : l ≠ [] := fun he => hne (List.mem_cons.mpr (Or.inl he.symm))
    rw [readAll, List.foldl_cons, ← readAll, ih (fun hm => hne (List.mem_cons_of_mem l hm)), read, if_neg hnil]
    by_cases hdata : fieldName l = "data".toList
    · rw [if_pos hdata, List.filter_cons_of_pos (by simpa using hdata), List.map_cons, List.append_assoc,
        List.singleton_append]
    · rw [if_neg hdata, List.filter_cons_of_neg (by simpa using hdata)]

lemma readAll_data {ls : List (List Char)} (hne : [] ∉ ls) (h : ∀ l ∈ ls, fieldName l = "data".toList)
    (client : Client) : client.readAll ls = ⟨client.events, client.buffer ++ ls.map fieldValue⟩ := by
  rw [readAll_eq hne, List.filter_eq_self.mpr (fun l hl => decide_eq_true (h l hl))]

end Client

end HttpNu.Library.EventStream
