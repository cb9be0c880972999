import HttpNu.Text

/-! `stdin_source`: the scripts that arrive on standard input. -/

namespace HttpNu.Serve

open Text

/-- What follows the bytes read: the end of the input, a read error, or nothing yet. -/
inductive InputEnd where
  | eof
  | error
  | waiting
  deriving DecidableEq

structure Stdin where
  bytes : Bytes
  last : InputEnd

inductive Reading where
  | buffer (buffer rest : Bytes)
  | stopped

/-- The inner loop reads byte by byte until a null terminator or the end of the input. -/
def readBuffer (last : InputEnd) : Bytes → Bytes → Reading
  | buffer, [] => if last = .eof then .buffer buffer [] else .stopped
  | buffer, byte :: rest => if byte = 0 then .buffer buffer rest else readBuffer last (buffer ++ [byte]) rest

lemma readBuffer_rest {last : InputEnd} {buffer bytes read rest : Bytes}
    (h : readBuffer last buffer bytes = .buffer read rest) : rest.length ≤ bytes.length := by
  induction bytes generalizing buffer with
  | nil =>
    rw [readBuffer] at h
    split at h
    · obtain ⟨_, rfl⟩ := Reading.buffer.inj h
      rfl
    · cases h
  | cons byte bytes ih =>
    rw [readBuffer] at h
    split at h
    · obtain ⟨_, rfl⟩ := Reading.buffer.inj h
      exact Nat.le_succ _
    · exact (ih h).trans (Nat.le_succ _)

lemma readBuffer_progress {last : InputEnd} {bytes read rest : Bytes}
    (h : readBuffer last [] bytes = .buffer read rest) (hread : read ≠ []) : rest.length < bytes.length := by
  cases bytes with
  | nil =>
    rw [readBuffer] at h
    split at h
    · obtain ⟨rfl, _⟩ := Reading.buffer.inj h
      exact absurd rfl hread
    · cases h
  | cons byte bytes =>
    rw [readBuffer] at h
    split at h
    · obtain ⟨rfl, _⟩ := Reading.buffer.inj h
      exact absurd rfl hread
    · exact Nat.lt_succ_of_le (readBuffer_rest h)

variable {ε : Type} (scriptToEngine : Str → Option ε) (last : InputEnd)

/-- The scripts that the watching thread hands to `script_to_engine`; `room` is what the channel's receiver
takes before it is dropped. -/
def watchStdin (bytes : Bytes) (room : Option Nat) : List Str :=
  match h : readBuffer last [] bytes with
  | .stopped => []
  | .buffer buffer rest =>
    if hbuffer : buffer = [] then []
    else
      have := readBuffer_progress h hbuffer
      fromUtf8Lossy buffer ::
        match scriptToEngine (fromUtf8Lossy buffer), room with
        | none, _ => watchStdin rest room
        | some _, none => watchStdin rest none
        | some _, some 0 => []
        | some _, some (n + 1) => watchStdin rest (some n)
termination_by bytes.length

def readToString (stdin : Stdin) : Option Str := if stdin.last = .eof then fromUtf8 stdin.bytes else none

def stdinSource (watch : Bool) (stdin : Stdin) (room : Option Nat) : List Str :=
  if watch then watchStdin scriptToEngine stdin.last stdin.bytes room else (readToString stdin).toList

def Stdin.segments (stdin : Stdin) : List Bytes :=
  if stdin.last = .eof then stdin.bytes.splitOn 0 else (stdin.bytes.splitOn 0).dropLast

def Stdin.scripts (stdin : Stdin) : List Str := (stdin.segments.filter (· ≠ [])).map fromUtf8Lossy

/-- Only empty segments come after an empty one. -/
def Stdin.NoGap (stdin : Stdin) : Prop :=
  ∀ earlier later, stdin.segments = earlier ++ [] :: later → ∀ segment ∈ later, segment = []

variable {scriptToEngine last}

lemma readBuffer_terminated (buffer : Bytes) {segment : Bytes} (h : 0 ∉ segment) (rest : Bytes) :
    readBuffer last buffer (segment ++ 0 :: rest) = .buffer (buffer ++ segment) rest := by
  induction segment generalizing buffer with
  | nil => simp [readBuffer]
  | cons byte segment ih =>
    obtain ⟨hbyte, hsegment⟩ := List.ne_and_not_mem_of_not_mem_cons h
    rw [List.cons_append, readBuffer, if_neg hbyte.symm, ih _ hsegment, List.append_assoc,
      List.singleton_append]

variable (last) in
lemma readBuffer_last (buffer : Bytes) {segment : Bytes} (h : 0 ∉ segment) :
    readBuffer last buffer segment = if last = .eof then .buffer (buffer ++ segment) [] else .stopped := by
  induction segment generalizing buffer with
  | nil => rw [readBuffer, List.append_nil]
  | cons byte segment ih =>
    obtain ⟨hbyte, hsegment⟩ := List.ne_and_not_mem_of_not_mem_cons h
    rw [readBuffer, if_neg hbyte.symm, ih _ hsegment, List.append_assoc, List.singleton_append]

lemma watchStdin_stopped {bytes : Bytes} (h : readBuffer last [] bytes = .stopped) (room : Option Nat) :
    watchStdin scriptToEngine last bytes room = [] := by
  rw [watchStdin]
  split <;> simp_all

lemma watchStdin_empty {bytes rest : Bytes} (h : readBuffer last [] bytes = .buffer [] rest)
    (room : Option Nat) : watchStdin scriptToEngine last bytes room = [] := by
  rw [watchStdin]
  split <;> simp_all

lemma watchStdin_buffer {bytes buffer rest : Bytes} (h : readBuffer last [] bytes = .buffer buffer rest)
    (hbuffer : buffer ≠ []) :
    watchStdin scriptToEngine last bytes none =
      fromUtf8Lossy buffer :: watchStdin scriptToEngine last rest none := by
  rw [watchStdin]
  split
  · simp_all
  · rename_i buffer' rest' h'
    obtain ⟨rfl, rfl⟩ := Reading.buffer.inj (h.symm.trans h')
    rw [dif_neg hbuffer]
    cases scriptToEngine (fromUtf8Lossy buffer) <;> rfl

lemma segments_terminated {segment : Bytes} (h : 0 ∉ segment) (rest : Bytes) :
    Stdin.segments ⟨segment ++ 0 :: rest, last⟩ = segment :: Stdin.segments ⟨rest, last⟩ := by
  have hsplit : (segment ++ 0 :: rest).splitOn 0 = segment :: rest.splitOn 0 := by
    rw [List.splitOn_append_cons_self, List.splitOn_eq_singleton h, List.singleton_append]
  rw [Stdin.segments, Stdin.segments]
  dsimp only
  rw [hsplit]
  split
  · rfl
  · exact List.dropLast_cons_of_ne_nil (List.splitOn_ne_nil 0 rest)

lemma segments_last {segment : Bytes} (h : 0 ∉ segment) :
    Stdin.segments ⟨segment, last⟩ = if last = .eof then [segment] else [] := by
  rw [Stdin.segments]
  dsimp only
  rw [List.splitOn_eq_singleton h]
  rfl

lemma watchStdin_eq (bytes : Bytes) :
    watchStdin scriptToEngine last bytes none =
      ((Stdin.segments ⟨bytes, last⟩).takeWhile (· ≠ [])).map fromUtf8Lossy := by
  induction hn : bytes.length using Nat.strong_induction_on generalizing bytes with
  | _ n ih =>
    by_cases h0 : 0 ∈ bytes
    · obtain ⟨segment, rest, rfl, hsegment⟩ := List.eq_append_cons_of_mem h0
      have hread : readBuffer last [] (segment ++ 0 :: rest) = .buffer segment rest :=
        readBuffer_terminated [] hsegment rest
      rw [segments_terminated hsegment]
      by_cases hempty : segment = []
      · subst hempty
        rw [watchStdin_empty hread]
        rfl
      · have hlen : rest.length < n := by
          rw [← hn, List.length_append, List.length_cons]
          omega
        rw [watchStdin_buffer hread hempty, ih rest.length hlen rest rfl,
          List.takeWhile_cons_of_pos (by simpa using hempty), List.map_cons]
    · have hread := readBuffer_last last [] h0
      rw [segments_last h0]
      by_cases hlast : last = .eof
      · rw [if_pos hlast] at hread ⊢
        by_cases hempty : bytes = []
        · subst hempty
          rw [watchStdin_empty hread]
          rfl
        · have hend : readBuffer last [] [] = .buffer [] [] := if_pos hlast
          rw [watchStdin_buffer hread hempty, watchStdin_empty hend,
            List.takeWhile_cons_of_pos (by simpa using hempty)]
          rfl
      · rw [if_neg hlast] at hread ⊢
        exact watchStdin_stopped hread none

section TakeWhile

variable {α : Type} {p : α → Bool}

lemma takeWhile_sublist_filter (l : List α) : (l.takeWhile p).Sublist (l.filter p) := by
  have h := (List.takeWhile_sublist (p := p) (l := l)).filter p
  rwa [List.filter_eq_self.mpr (fun _ ha => List.mem_takeWhile_imp ha)] at h

lemma takeWhile_eq_filter_iff (l : List α) :
    l.takeWhile p = l.filter p ↔
      ∀ earlier a later, l = earlier ++ a :: later → p a = false → ∀ b ∈ later, p b = false := by
  induction l with
  | nil => simp
  | cons a l ih =>
    cases ha : p a with
    | true =>
      rw [List.takeWhile_cons_of_pos ha, List.filter_cons_of_pos ha, List.cons_inj_right, ih]
      constructor
      · intro h earlier b later hsplit hb
        cases earlier with
        | nil =>
          obtain ⟨rfl, rfl⟩ := List.cons.inj hsplit
          rw [ha] at hb
          cases hb
        | cons _ earlier => exact h earlier b later (List.cons.inj hsplit).2 hb
      · intro h earlier b later hsplit
        exact h (a :: earlier) b later (by rw [hsplit, List.cons_append])
    | false =>
      have hneg : ¬ p a = true := by simp [ha]
      rw [List.takeWhile_cons_of_neg hneg, List.filter_cons_of_neg hneg, eq_comm, List.filter_eq_nil_iff]
      constructor
      · intro h earlier b later hsplit _ c hc
        cases earlier with
        | nil =>
          obtain ⟨rfl, rfl⟩ := List.cons.inj hsplit
          simpa using h c hc
        | cons _ earlier =>
          obtain ⟨_, rfl⟩ := List.cons.inj hsplit
          simpa using h c (by simp [hc])
      · intro h b hb
        simpa using h [] a l rfl ha b hb

end TakeWhile

theorem watchStdin_eq_scripts_iff (scriptToEngine : Str → Option ε) (stdin : Stdin) :
    stdinSource scriptToEngine true stdin none = stdin.scripts ↔ stdin.NoGap := by
  have hsub := takeWhile_sublist_filter (p := (· ≠ [])) stdin.segments
  have hmap : (stdin.segments.takeWhile (· ≠ [])).map fromUtf8Lossy = stdin.scripts ↔
      stdin.segments.takeWhile (· ≠ []) = stdin.segments.filter (· ≠ []) := by
    constructor
    · intro h
      have hlen := congrArg List.length h
      rw [Stdin.scripts, List.length_map, List.length_map] at hlen
      exact hsub.eq_of_length hlen
    · intro h
      rw [Stdin.scripts, h]
  rw [stdinSource, if_pos rfl, watchStdin_eq, hmap, takeWhile_eq_filter_iff, Stdin.NoGap]
  constructor
  · intro h earlier later hsplit segment hsegment
    simpa using h earlier [] later hsplit (by simp) segment hsegment
  · intro h earlier a later hsplit ha b hb
    obtain rfl : a = [] := by simpa using ha
    simpa using h earlier later hsplit b hb

lemma segments_texts (texts : List Str) (h : ∀ s ∈ texts, 0 ∉ utf8 s) (last : InputEnd) :
    Stdin.segments ⟨texts.flatMap (fun s => utf8 s ++ [0]), last⟩ =
      texts.map utf8 ++ if last = .eof then [[]] else [] := by
  induction texts with
  | nil => exact segments_last (by simp)
  | cons s texts ih =>
    obtain ⟨hs, htexts⟩ := List.forall_mem_cons.mp h
    have hbytes : (s :: texts).flatMap (fun s => utf8 s ++ [0]) =
        utf8 s ++ 0 :: texts.flatMap (fun s => utf8 s ++ [0]) := by simp
    rw [hbytes, segments_terminated hs, ih htexts, List.map_cons, List.cons_append]

/-- Texts that are terminated one by one arrive as they are, also while the input stays open. -/
theorem watchStdin_texts (scriptToEngine : Str → Option ε) (texts : List Str)
    (h : ∀ s ∈ texts, s ≠ [] ∧ 0 ∉ utf8 s) (last : InputEnd) :
    stdinSource scriptToEngine true ⟨texts.flatMap (fun s => utf8 s ++ [0]), last⟩ none = texts := by
  have hfull : ∀ segment ∈ texts.map utf8, decide (segment ≠ []) = true := by
    intro segment hsegment
    obtain ⟨s, hs, rfl⟩ := List.mem_map.mp hsegment
    cases s with
    | nil => exact absurd rfl (h _ hs).1
    | cons c s => simp [utf8]
  have hrest : (if last = .eof then [[]] else [] : List Bytes).takeWhile (· ≠ []) = [] := by
    split <;> simp
  have hround : fromUtf8Lossy ∘ utf8 = id := funext fromUtf8Lossy_utf8
  rw [stdinSource, if_pos rfl, watchStdin_eq, segments_texts texts (fun s hs => (h s hs).2),
    List.takeWhile_append_of_pos hfull, hrest, List.append_nil, List.map_map, hround, List.map_id]

def gapped : Stdin := ⟨utf8 "a".toList ++ [0, 0] ++ utf8 "b".toList, .eof⟩

theorem gapped_stops :
    stdinSource (fun script => some script) true gapped none = ["a".toList] ∧
      stdinSource (fun script => some script) true gapped none ≠ gapped.scripts := by
  rw [stdinSource, if_pos rfl, watchStdin_eq]
  decide +kernel

end HttpNu.Serve
