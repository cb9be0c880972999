import HttpNu.Library.EventStream
import HttpNu.Value

/-! `to sse`: records as events of an event stream. -/

namespace HttpNu.Commands.Sse

open Text Library.EventStream

variable (R : Rendering)

def lineEnding : Str := "\n".toList

def emitDataLines (s : Str) : Str := (lines s).flatMap (fun l => "data: ".toList ++ l ++ lineEnding)

mutual

/-- `value_to_json` of the commands: what JSON has no form for becomes its expanded text. -/
def valueToJson : Value → Json
  | .bool val => .bool val
  | .int val => .int val
  | .float val => if val.isFinite then .float val else .null
  | .string val => .string val
  | .list vals => .array (valuesToJson vals)
  | .record val => .object (fieldsToJson val [])
  | .nothing => .null
  | other => .string (R.toExpandedString other)

def valuesToJson : List Value → List Json
  | [] => []
  | v :: vs => valueToJson v :: valuesToJson vs

def fieldsToJson : List (Str × Value) → List (Str × Json) → List (Str × Json)
  | [], map => map
  | (k, v) :: rest, map => fieldsToJson rest (Json.insertField map k (valueToJson v))

end

def valueToDataString : Value → Except ShellError Str
  | .string val => .ok val
  | val => (R.jsonToString (valueToJson R val)).mapError
      (fun err => .generic err "failed to serialize json".toList)

def field (rec : Record) (name : Str) : Option Value := (rec.get name).filter (fun v => !v.isNothing)

/-- `event`, `id` and `retry` are pushed as they are rendered. -/
def pushField (rec : Record) (name : Str) : Str :=
  match field rec name with
  | some v => name ++ ": ".toList ++ R.toExpandedString v ++ lineEnding
  | none => []

def dataStrings (rec : Record) : Except ShellError (List Str) :=
  match field rec "data".toList with
  | some (.list vals) => vals.mapM (valueToDataString R)
  | some data => (valueToDataString R data).map (fun s => [s])
  | none => .ok []

def eventToString : Value → Except ShellError Str
  | .record rec => do
    let out := pushField R rec "event".toList ++ pushField R rec "id".toList ++ pushField R rec "retry".toList
    let data ← dataStrings R rec
    return out ++ data.flatMap emitDataLines ++ lineEnding
  | .error error => .error error
  | other => .error (.typeMismatch ("expected record, got ".toList ++ R.typeName other))

def singleFields : List Str := ["event".toList, "id".toList, "retry".toList]

def fieldLine (name text : Str) : Str := name ++ ": ".toList ++ text

def dataLines (data : List Str) : List Str := (data.flatMap lines).map (fieldLine "data".toList)

def fieldLinesOf (rec : Record) (name : Str) : List Str :=
  ((field rec name).map (fun v => fieldLine name (R.toExpandedString v))).toList

def fieldLines (rec : Record) : List Str := singleFields.flatMap (fieldLinesOf R rec)

/-- What a client should read from the bytes of a record: the only empty line is the last, the single
fields are there once if the record has them, and every other line is a line of the data. -/
def Framed (rec : Record) (data : List Str) (out : Str) : Prop :=
  ∃ body, scan out = (body ++ [[]], []) ∧ [] ∉ body ∧
    (∀ name ∈ singleFields, body.countP (fun l => fieldName l = name) = (fieldLinesOf R rec name).length) ∧
    body.filter (fun l => fieldName l ∉ singleFields) = (dataLines data).map stripCr

/-- No line terminator hides in the text of a field or inside a line of the data. -/
def Clean (rec : Record) (data : List Str) : Prop :=
  (∀ name ∈ singleFields, ∀ v, field rec name = some v → OneLine (R.toExpandedString v)) ∧
    ∀ s ∈ data, ∀ l ∈ lines s, '\r' ∉ l.dropLast

lemma pushField_eq (rec : Record) (name : Str) :
    pushField R rec name = (fieldLinesOf R rec name).flatMap (· ++ ['\n']) := by
  cases h : field rec name <;> simp [pushField, fieldLinesOf, fieldLine, lineEnding, h]

lemma emitDataLines_eq (data : List Str) :
    data.flatMap emitDataLines = (dataLines data).flatMap (· ++ ['\n']) := by
  induction data with
  | nil => rfl
  | cons s data ih =>
    rw [List.flatMap_cons, ih]
    simp [emitDataLines, dataLines, fieldLine, lineEnding, List.flatMap_map]

lemma eventToString_record (rec : Record) :
    eventToString R (.record rec) = (dataStrings R rec).map
      (fun data => (fieldLines R rec ++ dataLines data).flatMap (· ++ ['\n']) ++ ['\n']) := by
  have hf : (fieldLines R rec).flatMap (· ++ ['\n']) = singleFields.flatMap (pushField R rec) := by
    rw [fieldLines, List.flatMap_assoc, ← funext (pushField_eq R rec)]
  simp only [List.flatMap_append, hf, ← emitDataLines_eq, eventToString]
  cases dataStrings R rec with
  | error e => rfl
  | ok data => simp [Except.map, singleFields, lineEnding, bind, Except.bind, pure, Except.pure]

lemma oneLine_fieldLine {name : Str} (hn : '\n' ∉ name) (hr : '\r' ∉ name) (text : Str) :
    OneLine (fieldLine name text) ↔ OneLine text :=
  oneLine_append (by simpa using hn) (by simpa using hr) text

lemma stripCr_fieldLine (name text : Str) : stripCr (fieldLine name text) = fieldLine name (stripCr text) :=
  stripCr_append (by simp [List.getLast?_append]) text

lemma fieldName_fieldLine {name : Str} (hn : ':' ∉ name) (text : Str) :
    fieldName (fieldLine name text) = name := by
  have := fieldName_append hn (' ' :: text)
  simpa [fieldLine] using this

lemma fieldLine_ne_nil (name text : Str) : fieldLine name text ≠ [] := by
  simp [fieldLine]

lemma length_filter_notMem {name : Str} {names : List Str} (hn : name ∉ names) (ls : List Str) :
    (ls.filter (fun l => fieldName l ∉ names)).length =
      ls.countP (fun l => fieldName l = name) + (ls.filter (fun l => fieldName l ∉ name :: names)).length := by
  induction ls with
  | nil => rfl
  | cons l ls ih =>
    by_cases hl : fieldName l = name
    · simp [hl, hn] at ih ⊢
      omega
    · by_cases hm : fieldName l ∈ names
      · simpa [hl, hm] using ih
      · simp [hl, hm] at ih ⊢
        omega

lemma length_partition {names : List Str} (hn : names.Nodup) (ls : List Str) :
    (names.map (fun name => ls.countP (fun l => fieldName l = name))).sum +
      (ls.filter (fun l => fieldName l ∉ names)).length = ls.length := by
  induction names with
  | nil => simp
  | cons name names ih =>
    obtain ⟨hname, hn⟩ := List.nodup_cons.mp hn
    have hsplit := length_filter_notMem hname ls
    have := ih hn
    rw [List.map_cons, List.sum_cons]
    omega

lemma mem_fieldLines {rec : Record} {p : Str} :
    p ∈ fieldLines R rec ↔
      ∃ name ∈ singleFields, ∃ v, field rec name = some v ∧ p = fieldLine name (R.toExpandedString v) := by
  simp [fieldLines, fieldLinesOf, eq_comm]

lemma mem_dataLines {data : List Str} {p : Str} :
    p ∈ dataLines data ↔ ∃ s ∈ data, ∃ l ∈ lines s, p = fieldLine "data".toList l := by
  simp only [dataLines, List.mem_map, List.mem_flatMap]
  constructor
  · rintro ⟨l, ⟨s, hs, hl⟩, rfl⟩
    exact ⟨s, hs, l, hl, rfl⟩
  · rintro ⟨s, hs, l, hl, rfl⟩
    exact ⟨l, ⟨s, hs, hl⟩, rfl⟩

lemma singleFields_plain : ∀ name ∈ "data".toList :: singleFields, '\n' ∉ name ∧ '\r' ∉ name ∧ ':' ∉ name := by
  decide

lemma oneLine_pieces_iff (rec : Record) (data : List Str) :
    (∀ p ∈ fieldLines R rec ++ dataLines data, OneLine p) ↔ Clean R rec data := by
  have hplain := singleFields_plain
  simp only [List.mem_append, or_imp, forall_and, Clean]
  refine and_congr ⟨fun h name hname v hv => ?_, fun h p hp => ?_⟩
    ⟨fun h s hs l hl => ?_, fun h p hp => ?_⟩
  · obtain ⟨hn, hr, _⟩ := hplain name (List.mem_cons_of_mem _ hname)
    exact (oneLine_fieldLine hn hr _).mp (h _ ((mem_fieldLines R).mpr ⟨name, hname, v, hv, rfl⟩))
  · obtain ⟨name, hname, v, hv, rfl⟩ := (mem_fieldLines R).mp hp
    obtain ⟨hn, hr, _⟩ := hplain name (List.mem_cons_of_mem _ hname)
    exact (oneLine_fieldLine hn hr _).mpr (h name hname v hv)
  · obtain ⟨hn, hr, _⟩ := hplain _ List.mem_cons_self
    exact ((oneLine_fieldLine hn hr _).mp (h _ (mem_dataLines.mpr ⟨s, hs, l, hl, rfl⟩))).2
  · obtain ⟨s, hs, l, hl, rfl⟩ := mem_dataLines.mp hp
    obtain ⟨hn, hr, _⟩ := hplain _ List.mem_cons_self
    exact (oneLine_fieldLine hn hr _).mpr ⟨newline_notMem_lines hl, h s hs l hl⟩

lemma countP_fieldLinesOf (rec : Record) (name' : Str) (hname : name' ∈ singleFields) (name : Str) :
    ((fieldLinesOf R rec name').map stripCr).countP (fun l => fieldName l = name) =
      if name' = name then (fieldLinesOf R rec name').length else 0 := by
  have hn := (singleFields_plain _ (List.mem_cons_of_mem _ hname)).2.2
  cases hf : field rec name' with
  | none => simp [fieldLinesOf, hf]
  | some v =>
    have hl := fieldName_fieldLine hn (stripCr (R.toExpandedString v))
    simp only [fieldLinesOf, hf, Option.map_some, Option.toList_some, List.map_cons, List.map_nil,
      stripCr_fieldLine, List.countP_singleton, hl, decide_eq_true_eq, List.length_singleton]

lemma countP_fieldLines (rec : Record) {name : Str} (hname : name ∈ singleFields) :
    ((fieldLines R rec).map stripCr).countP (fun l => fieldName l = name) = (fieldLinesOf R rec name).length := by
  have hof := fun other h => countP_fieldLinesOf R rec other h name
  simp only [fieldLines, singleFields, List.flatMap_cons, List.flatMap_nil, List.map_append, List.map_nil,
    List.countP_append, List.countP_nil]
  rw [hof _ (by decide), hof _ (by decide), hof _ (by decide)]
  simp only [singleFields, List.mem_cons, List.not_mem_nil, or_false] at hname
  rcases hname with rfl | rfl | rfl <;> simp

lemma fieldName_dataLines (data : List Str) :
    ∀ l ∈ (dataLines data).map stripCr, fieldName l = "data".toList := by
  simp only [List.mem_map]
  rintro _ ⟨p, hp, rfl⟩
  obtain ⟨s, _, l, _, rfl⟩ := mem_dataLines.mp hp
  rw [stripCr_fieldLine, fieldName_fieldLine (singleFields_plain _ List.mem_cons_self).2.2]

lemma fieldName_fieldLines (rec : Record) :
    ∀ l ∈ (fieldLines R rec).map stripCr, fieldName l ∈ singleFields := by
  simp only [List.mem_map]
  rintro _ ⟨p, hp, rfl⟩
  obtain ⟨name, hname, v, _, rfl⟩ := (mem_fieldLines R).mp hp
  rw [stripCr_fieldLine, fieldName_fieldLine (singleFields_plain _ (List.mem_cons_of_mem _ hname)).2.2]
  exact hname

lemma framed_of_clean {rec : Record} {data : List Str} (h : Clean R rec data) :
    Framed R rec data ((fieldLines R rec ++ dataLines data).flatMap (· ++ ['\n']) ++ ['\n']) := by
  have hscan := scan_pieces (fieldLines R rec ++ dataLines data)
  rw [scan_oneLines ((oneLine_pieces_iff R rec data).mpr h), List.map_append] at hscan
  refine ⟨_, hscan, ?_, fun name hname => ?_, ?_⟩
  · simp only [List.mem_append, List.mem_map, mem_fieldLines, mem_dataLines]
    rintro (⟨_, ⟨_, _, _, _, rfl⟩, he⟩ | ⟨_, ⟨_, _, _, _, rfl⟩, he⟩) <;>
      exact fieldLine_ne_nil _ _ ((stripCr_fieldLine _ _).symm.trans he)
  · rw [List.countP_append, countP_fieldLines R rec hname, List.countP_eq_zero.mpr, Nat.add_zero]
    intro l hl
    have := fieldName_dataLines data l hl
    simp only [this, decide_eq_true_eq]
    rintro rfl
    revert hname
    decide
  · rw [List.filter_append, List.filter_eq_nil_iff.mpr, List.filter_eq_self.mpr, List.nil_append]
    · intro l hl
      rw [fieldName_dataLines data l hl]
      decide
    · intro l hl
      simpa using fieldName_fieldLines R rec l hl

lemma clean_of_framed {rec : Record} {data : List Str}
    (h : Framed R rec data ((fieldLines R rec ++ dataLines data).flatMap (· ++ ['\n']) ++ ['\n'])) :
    Clean R rec data := by
  obtain ⟨body, hscan, _, hcount, hrest⟩ := h
  rw [scan_pieces] at hscan
  have hbody := List.append_cancel_right (congrArg Prod.fst hscan)
  rw [← oneLine_pieces_iff]
  apply oneLine_of_length
  have hlen := length_partition (by decide : singleFields.Nodup) body
  rw [hrest, List.map_congr_left hcount] at hlen
  rw [hbody, ← hlen]
  simp [fieldLines, List.length_flatMap]

theorem eventToString_framed_iff (rec : Record) :
    (∀ data out, dataStrings R rec = .ok data → eventToString R (.record rec) = .ok out →
        Framed R rec data out) ↔
      ∀ data, dataStrings R rec = .ok data → Clean R rec data := by
  rw [eventToString_record]
  constructor
  · intro h data hd
    exact clean_of_framed R (h data _ hd (by rw [hd]; rfl))
  · intro h data out hd ho
    rw [hd] at ho
    obtain rfl := Except.ok.inj ho
    exact framed_of_clean R (h data hd)

def twoEvents : Record := [("event".toList, .string "a\n\ndata: b".toList)]

theorem eventToString_twoEvents :
    dataStrings .plain twoEvents = .ok [] ∧
      eventToString .plain (.record twoEvents) = .ok "event: a\n\ndata: b\n\n".toList ∧
      ¬ Framed .plain twoEvents [] "event: a\n\ndata: b\n\n".toList := by
  refine ⟨by decide, by decide, ?_⟩
  rintro ⟨body, hscan, hbody, _⟩
  have hlines : scan "event: a\n\ndata: b\n\n".toList =
      (["event: a".toList, [], "data: b".toList] ++ [[]], []) := by decide
  rw [hlines] at hscan
  obtain rfl := List.append_cancel_right (congrArg Prod.fst hscan)
  exact hbody (by decide)

end HttpNu.Commands.Sse
