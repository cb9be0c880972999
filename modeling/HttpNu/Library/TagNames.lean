import HttpNu.Library.StartTag

/-! The names of the elements and attributes that HTML reads in a text. -/

namespace HttpNu.Library.TagNames

open Html StartTag

inductive Scan where
  | data
  | tagOpen
  | endTagOpen
  | tagName (name : List Char)
  | attrs (s : TagState)
  deriving DecidableEq

/-- The names that a character completes, and the next state. What is no tag behind a `<` (a comment, a
declaration) is refused. -/
def Scan.step : Scan → Char → Option (List (List Char) × Scan)
  | .data, c => some ([], if c = '<' then .tagOpen else .data)
  | .tagOpen, c =>
    if c.isAlpha then some ([], .tagName [c.toLower])
    else if c = '/' then some ([], .endTagOpen)
    else none
  | .endTagOpen, c => if c.isAlpha then some ([], .tagName [c.toLower]) else none
  | .tagName name, c =>
    if isSpace c || c = '/' then some ([name], .attrs .beforeName)
    else if c = '>' then some ([name], .data)
    else some ([], .tagName (name ++ [c.toLower]))
  | .attrs s, c =>
    match s.step c with
    | (attr, some s') => some (attr.toList.map Prod.fst, .attrs s')
    | (attr, none) => some (attr.toList.map Prod.fst, .data)

def scan : Scan → List Char → Option (List (List Char) × Scan)
  | s, [] => some ([], s)
  | s, c :: cs => do
    let (names, s') ← s.step c
    let (rest, last) ← scan s' cs
    return (names ++ rest, last)

def namesIn (s : List Char) : Option (List (List Char)) :=
  match scan .data s with
  | some (names, .data) => some names
  | _ => none

def Reads (allowed : List (List Char)) (s : Scan) (text : List Char) (s' : Scan) : Prop :=
  ∃ names, scan s text = some (names, s') ∧ ∀ n ∈ names, n ∈ allowed

variable {allowed : List (List Char)} {s t u : Scan}

lemma reads_nil : Reads allowed s [] s := ⟨[], rfl, nofun⟩

lemma Reads.cons {c : Char} {names : List (List Char)} {text : List Char} (hstep : s.step c = some (names, t))
    (hnames : ∀ n ∈ names, n ∈ allowed) (h : Reads allowed t text u) : Reads allowed s (c :: text) u := by
  obtain ⟨rest, hrest, hall⟩ := h
  refine ⟨names ++ rest, ?_, fun n hn => (List.mem_append.mp hn).elim (hnames n) (hall n)⟩
  rw [scan, hstep]
  simp only [bind, Option.bind_some, hrest, pure]

lemma Reads.append {xs ys : List Char} (h : Reads allowed s xs t) (h' : Reads allowed t ys u) :
    Reads allowed s (xs ++ ys) u := by
  induction xs generalizing s with
  | nil =>
    obtain ⟨_, hscan, _⟩ := h
    obtain ⟨_, rfl⟩ := Prod.mk.inj (Option.some.inj hscan)
    exact h'
  | cons c xs ih =>
    obtain ⟨names, hscan, hall⟩ := h
    rw [scan] at hscan
    obtain ⟨⟨first, s'⟩, hstep, hscan⟩ := Option.bind_eq_some_iff.mp hscan
    obtain ⟨⟨rest, last⟩, hrest, hsome⟩ := Option.bind_eq_some_iff.mp hscan
    obtain ⟨rfl, rfl⟩ := Prod.mk.inj (Option.some.inj hsome)
    obtain ⟨hfirst, hlater⟩ := List.forall_mem_append.mp hall
    exact (ih ⟨rest, hrest, hlater⟩).cons hstep hfirst

lemma reads_text {data : List Char} (hdata : '<' ∉ data) : Reads allowed .data data .data := by
  induction data with
  | nil => exact reads_nil
  | cons c data ih =>
    obtain ⟨hc, hdata⟩ := not_or.mp (mt List.mem_cons.mpr hdata)
    have hstep : Scan.data.step c = some ([], .data) := by
      rw [Scan.step, if_neg (Ne.symm hc)]
    exact (ih hdata).cons hstep (List.forall_mem_nil _)

lemma reads_quoted {quote : Char} {key value data : List Char} (hdata : quote ∉ data) :
    Reads allowed (.attrs (.quoted quote key value)) data (.attrs (.quoted quote key (value ++ data))) := by
  induction data generalizing value with
  | nil =>
    rw [List.append_nil]
    exact reads_nil
  | cons c data ih =>
    obtain ⟨hc, hdata⟩ := not_or.mp (mt List.mem_cons.mpr hdata)
    have hstep : (Scan.attrs (.quoted quote key value)).step c =
        some ([], .attrs (.quoted quote key (value ++ [c]))) := by
      simp [Scan.step, TagState.step, Ne.symm hc]
    rw [← List.singleton_append, ← List.append_assoc]
    exact (ih hdata).cons hstep (List.forall_mem_nil _)

lemma Reads.namesIn {text : List Char} (h : Reads allowed .data text .data) :
    ∃ names, namesIn text = some names ∧ ∀ n ∈ names, n ∈ allowed := by
  obtain ⟨names, hscan, hall⟩ := h
  exact ⟨names, by rw [TagNames.namesIn, hscan], hall⟩

example : namesIn "<a HREF=\"<b>\" onclick=x>1</A >".toList =
    some ["a".toList, "href".toList, "onclick".toList, "a".toList] := by
  decide

end HttpNu.Library.TagNames
