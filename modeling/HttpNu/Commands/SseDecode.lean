import HttpNu.Commands.Sse
import HttpNu.Worker

/-! What a client reads back from the output of `to sse`. -/

namespace HttpNu.Commands.Sse

open Text Response Library.EventStream Worker

variable (R : Rendering)

def updateMetadata (metadata : Option Metadata) : Option Metadata :=
  some { metadata.getD ⟨none, []⟩ with contentType := some "text/event-stream".toList }

/-- `ByteStream::from_result_iter`: a chunk for every value, until one cannot be rendered. -/
def eventReader (ending : List Response) (panics : Bool) : List (Pull Value) → Reader
  | [] => ⟨[], ending, if panics then .panics else .eof⟩
  | ⟨specials, val⟩ :: rest =>
    match eventToString R val with
    | .ok out =>
      let reader := eventReader ending panics rest
      { reader with pulls := ⟨specials, utf8 out⟩ :: reader.pulls }
    | .error error => ⟨[], specials, .shellError error⟩

def toSse : PipelineData → Except ShellError PipelineData
  | .listStream stream metadata =>
    .ok (.byteStream (some (eventReader R stream.ending stream.panics stream.pulls)) (updateMetadata metadata))
  | .value (.list vals) metadata =>
    .ok (.byteStream (some (eventReader R [] false (vals.map (fun val => ⟨[], val⟩)))) (updateMetadata metadata))
  | .value val metadata =>
    (eventToString R val).map (fun out => .value (.string out) (updateMetadata metadata))
  | .empty => .ok (.value (.string []) (updateMetadata none))
  | .byteStream _ _ => .error (.typeMismatch "expected record input".toList)

def written : PipelineData → Bytes
  | .value v _ => (valueToBytes R v).getD []
  | .byteStream (some reader) _ => reader.pulls.flatMap Pull.item
  | _ => []

/-- The inputs that are event records: a list, a stream or a single record. -/
inductive Carries : PipelineData → List Record → Prop where
  | list (recs : List Record) (metadata : Option Metadata) :
    Carries (.value (.list (recs.map .record)) metadata) recs
  | stream (recs : List Record) (stream : ValueIter) (metadata : Option Metadata)
    (h : stream.vals = recs.map .record) :
    Carries (.listStream stream metadata) recs
  | single (rec : Record) (metadata : Option Metadata) : Carries (.value (.record rec) metadata) [rec]

def dataOf (rec : Record) : List Str :=
  match dataStrings R rec with
  | .ok data => data
  | .error _ => []

/-- The single fields render without line terminators and the data without CR. -/
def Plain (rec : Record) : Prop :=
  (∀ name ∈ singleFields, ∀ v, field rec name = some v →
    '\n' ∉ R.toExpandedString v ∧ '\r' ∉ R.toExpandedString v) ∧
    ∀ s ∈ dataOf R rec, '\r' ∉ s

def blockOf (rec : Record) : Block where
  event := (field rec "event".toList).map R.toExpandedString
  id := (field rec "id".toList).map R.toExpandedString
  retry := (field rec "retry".toList).map R.toExpandedString
  data := (dataOf R rec).flatMap lines
  others := []

def pieces (rec : Record) : List Str := fieldLines R rec ++ dataLines (dataOf R rec)

section

variable {R} (hjson : ∀ json, ∃ text, R.jsonToString json = .ok text)
include hjson

lemma valueToDataString_ok (v : Value) : ∃ s, valueToDataString R v = .ok s := by
  obtain ⟨text, htext⟩ := hjson (valueToJson R v)
  cases v with
  | string val => exact ⟨val, rfl⟩
  | _ => exact ⟨text, by simp [valueToDataString, htext, Except.mapError]⟩

lemma mapM_valueToDataString_ok (vals : List Value) : ∃ data, vals.mapM (valueToDataString R) = .ok data := by
  induction vals with
  | nil => exact ⟨[], rfl⟩
  | cons v vals ih =>
    obtain ⟨s, hs⟩ := valueToDataString_ok hjson v
    obtain ⟨data, hdata⟩ := ih
    exact ⟨s :: data, by rw [List.mapM_cons, hs, hdata]; rfl⟩

lemma dataStrings_ok (rec : Record) : dataStrings R rec = .ok (dataOf R rec) := by
  have hok : ∃ data, dataStrings R rec = .ok data := by
    rw [dataStrings]
    split
    · exact mapM_valueToDataString_ok hjson _
    · rename_i data _ _
      obtain ⟨s, hs⟩ := valueToDataString_ok hjson data
      exact ⟨[s], by rw [hs]; rfl⟩
    · exact ⟨[], rfl⟩
  obtain ⟨data, hdata⟩ := hok
  rw [dataOf, hdata]

end

lemma eventToString_ok {rec : Record} (h : dataStrings R rec = .ok (dataOf R rec)) :
    eventToString R (.record rec) = .ok ((pieces R rec ++ [[]]).flatMap (· ++ ['\n'])) := by
  rw [eventToString_record, h, List.flatMap_append]
  rfl

lemma eventReader_ok (ending : List Response) (panics : Bool) {pulls : List (Pull Value)} {recs : List Record}
    (h : pulls.map Pull.item = recs.map .record) (hdata : ∀ rec ∈ recs, dataStrings R rec = .ok (dataOf R rec)) :
    (eventReader R ending panics pulls).pulls.flatMap Pull.item =
      utf8 ((recs.flatMap (fun rec => pieces R rec ++ [[]])).flatMap (· ++ ['\n'])) := by
  induction pulls generalizing recs with
  | nil =>
    obtain rfl := List.map_eq_nil_iff.mp h.symm
    rfl
  | cons pull pulls ih =>
    cases recs with
    | nil => simp at h
    | cons rec recs =>
      obtain ⟨specials, val⟩ := pull
      obtain ⟨hval, hrest⟩ := List.cons.inj h
      obtain rfl : val = .record rec := hval
      rw [eventReader, eventToString_ok R (hdata rec List.mem_cons_self)]
      simp only [List.flatMap_cons, ih hrest (fun r hr => hdata r (List.mem_cons_of_mem rec hr))]
      rw [← utf8_append, ← List.flatMap_append]

lemma toSse_written {input : PipelineData} {recs : List Record} (h : Carries input recs)
    (hdata : ∀ rec ∈ recs, dataStrings R rec = .ok (dataOf R rec)) :
    ∃ output, toSse R input = .ok output ∧
      written R output = utf8 ((recs.flatMap (fun rec => pieces R rec ++ [[]])).flatMap (· ++ ['\n'])) := by
  cases h with
  | list _ metadata =>
    refine ⟨_, rfl, eventReader_ok R [] false ?_ hdata⟩
    rw [List.map_map]
    exact List.map_id' _
  | stream _ stream metadata h => exact ⟨_, rfl, eventReader_ok R _ _ h hdata⟩
  | single rec metadata =>
    refine ⟨.value (.string ((pieces R rec ++ [[]]).flatMap (· ++ ['\n']))) (updateMetadata metadata), ?_, ?_⟩
    · rw [toSse, eventToString_ok R (hdata rec List.mem_cons_self)]
      · rfl
      · simp
    · simp [written, valueToBytes]

lemma mem_pieces {rec : Record} {p : Str} (hp : p ∈ pieces R rec) :
    (∃ name ∈ singleFields, ∃ v, field rec name = some v ∧ p = fieldLine name (R.toExpandedString v)) ∨
      ∃ s ∈ dataOf R rec, ∃ l ∈ lines s, p = fieldLine "data".toList l := by
  rcases List.mem_append.mp hp with hp | hp
  · exact Or.inl ((mem_fieldLines R).mp hp)
  · exact Or.inr (mem_dataLines.mp hp)

lemma notMem_fieldLine {c : Char} {name text : Str} (hname : c ∉ name) (hc : c ≠ ':') (hs : c ≠ ' ') :
    c ∈ fieldLine name text → c ∈ text := by
  simp [fieldLine, hname, hc, hs]

lemma pieces_plain {rec : Record} (h : Plain R rec) :
    ∀ p ∈ pieces R rec, OneLine p ∧ '\r' ∉ p ∧ p ≠ [] := by
  have hkeep : ∀ name ∈ "data".toList :: singleFields, ∀ text, '\n' ∉ text → '\r' ∉ text →
      OneLine (fieldLine name text) ∧ '\r' ∉ fieldLine name text ∧ fieldLine name text ≠ [] := by
    intro name hname text hn hr
    obtain ⟨hnewline, hcr, _⟩ := singleFields_plain name hname
    refine ⟨(oneLine_fieldLine hnewline hcr text).mpr ⟨hn, fun hm => hr (List.mem_of_mem_dropLast hm)⟩,
      fun hm => hr (notMem_fieldLine hcr (by decide) (by decide) hm), fieldLine_ne_nil name text⟩
  intro p hp
  rcases mem_pieces R hp with ⟨name, hname, v, hv, rfl⟩ | ⟨s, hs, l, hl, rfl⟩
  · obtain ⟨hn, hr⟩ := h.1 name hname v hv
    exact hkeep name (List.mem_cons_of_mem _ hname) _ hn hr
  · exact hkeep _ List.mem_cons_self l (newline_notMem_lines hl) (fun hm => h.2 s hs (mem_of_mem_lines hl hm))

lemma fieldValue_fieldLine {name : Str} (hn : ':' ∉ name) (text : Str) :
    fieldValue (fieldLine name text) = text := by
  have h := fieldValue_append hn text
  simpa [fieldLine] using h

lemma valuesOf_fieldLinesOf (rec : Record) {name' : Str} (hname : ':' ∉ name') (name : Str) :
    valuesOf name (fieldLinesOf R rec name') =
      if name' = name then ((field rec name').map R.toExpandedString).toList else [] := by
  cases hf : field rec name' with
  | none => simp [fieldLinesOf, hf, valuesOf]
  | some v =>
    simp only [fieldLinesOf, hf, Option.map_some, Option.toList_some, valuesOf, List.filter_cons, List.filter_nil,
      fieldName_fieldLine hname, decide_eq_true_eq]
    split
    · simp [fieldValue_fieldLine hname]
    · rfl

lemma valuesOf_dataLines (data : List Str) (name : Str) :
    valuesOf name (dataLines data) = if "data".toList = name then data.flatMap lines else [] := by
  have hcolon := (singleFields_plain _ List.mem_cons_self).2.2
  have hname : ∀ l ∈ dataLines data, fieldName l = "data".toList := by
    intro l hl
    obtain ⟨_, _, text, _, rfl⟩ := mem_dataLines.mp hl
    exact fieldName_fieldLine hcolon text
  split
  · rename_i he
    rw [← he, valuesOf_eq_map hname, dataLines, List.map_map]
    exact (List.map_congr_left (fun text _ => fieldValue_fieldLine hcolon text)).trans (List.map_id' _)
  · rename_i hne
    exact valuesOf_eq_nil (fun l hl he => hne ((hname l hl).symm.trans he))

lemma valuesOf_pieces (rec : Record) (name : Str) :
    valuesOf name (pieces R rec) =
      (singleFields.flatMap
          (fun name' => if name' = name then ((field rec name').map R.toExpandedString).toList else [])) ++
        if "data".toList = name then (dataOf R rec).flatMap lines else [] := by
  have hcolon := fun name' (h : name' ∈ singleFields) => (singleFields_plain name' (List.mem_cons_of_mem _ h)).2.2
  rw [pieces, valuesOf_append, valuesOf_dataLines, fieldLines]
  simp only [singleFields, List.flatMap_cons, List.flatMap_nil, valuesOf_append]
  rw [valuesOf_fieldLinesOf R rec (hcolon _ (by decide)), valuesOf_fieldLinesOf R rec (hcolon _ (by decide)),
    valuesOf_fieldLinesOf R rec (hcolon _ (by decide))]
  rfl

lemma flatMap_of_notMem {names : List Str} {name : Str} (h : name ∉ names) (f : Str → List Str) :
    names.flatMap (fun name' => if name' = name then f name' else []) = [] := by
  apply List.flatMap_eq_nil_iff.mpr
  intro name' hname'
  have hne : name' ≠ name := fun heq => h (heq ▸ hname')
  exact if_neg hne

lemma flatMap_of_mem {names : List Str} {name : Str} (hn : names.Nodup) (h : name ∈ names) (f : Str → List Str) :
    names.flatMap (fun name' => if name' = name then f name' else []) = f name := by
  induction names with
  | nil => cases h
  | cons first names ih =>
    obtain ⟨hnot, hn⟩ := List.nodup_cons.mp hn
    rw [List.flatMap_cons]
    rcases List.mem_cons.mp h with rfl | h
    · rw [if_pos rfl, flatMap_of_notMem hnot, List.append_nil]
    · have hne : first ≠ name := fun heq => hnot (heq ▸ h)
      rw [if_neg hne, List.nil_append, ih hn h]

lemma valuesOf_single (rec : Record) {name : Str} (h : name ∈ singleFields) :
    valuesOf name (pieces R rec) = ((field rec name).map R.toExpandedString).toList := by
  have hnot : "data".toList ∉ singleFields := by decide
  have hne : "data".toList ≠ name := fun heq => hnot (heq ▸ h)
  rw [valuesOf_pieces,
    flatMap_of_mem (by decide) h (fun name' => ((field rec name').map R.toExpandedString).toList),
    if_neg hne, List.append_nil]

lemma fieldName_pieces {rec : Record} {p : Str} (hp : p ∈ pieces R rec) :
    fieldName p ∈ "data".toList :: singleFields := by
  rcases mem_pieces R hp with ⟨name, hname, v, _, rfl⟩ | ⟨_, _, l, _, rfl⟩
  · rw [fieldName_fieldLine (singleFields_plain name (List.mem_cons_of_mem _ hname)).2.2]
    exact List.mem_cons_of_mem _ hname
  · rw [fieldName_fieldLine (singleFields_plain _ List.mem_cons_self).2.2]
    exact List.mem_cons_self

lemma ofLines_pieces (rec : Record) : Block.ofLines (pieces R rec) = blockOf R rec := by
  have hothers : (pieces R rec).filter (fun l => !knownFields.contains (fieldName l)) = [] := by
    apply List.filter_eq_nil_iff.mpr
    intro l hl
    have hknown : ∀ name ∈ "data".toList :: singleFields, name ∈ knownFields := by decide
    simpa using hknown _ (fieldName_pieces R hl)
  have hlast : ∀ o : Option Str, o.toList.getLast? = o := by
    intro o
    cases o <;> rfl
  have hdata : valuesOf "data".toList (pieces R rec) = (dataOf R rec).flatMap lines := by
    have hnot : "data".toList ∉ singleFields := by decide
    rw [valuesOf_pieces, if_pos rfl, flatMap_of_notMem hnot, List.nil_append]
  rw [Block.ofLines, hothers, blockOf, hdata, valuesOf_single R rec (by decide), valuesOf_single R rec (by decide),
    valuesOf_single R rec (by decide), hlast, hlast, hlast]

lemma decode_written {input : PipelineData} {recs : List Record} (h : Carries input recs)
    (hdata : ∀ rec ∈ recs, dataStrings R rec = .ok (dataOf R rec)) (hplain : ∀ rec ∈ recs, Plain R rec) :
    ∃ output, toSse R input = .ok output ∧ decode (fromUtf8Lossy (written R output)) = recs.map (blockOf R) := by
  obtain ⟨output, houtput, htext⟩ := toSse_written R h hdata
  refine ⟨output, houtput, ?_⟩
  have hgroups : recs.flatMap (fun rec => pieces R rec ++ [[]]) =
      (recs.map (pieces R)).flatMap (fun ls => ls ++ [[]]) := by
    rw [List.flatMap_map]
  have hlines : ∀ ls ∈ recs.map (pieces R), ∀ l ∈ ls, OneLine l ∧ '\r' ∉ l ∧ l ≠ [] := by
    intro ls hls
    obtain ⟨rec, hrec, rfl⟩ := List.mem_map.mp hls
    exact pieces_plain R (hplain rec hrec)
  rw [htext, fromUtf8Lossy_utf8, hgroups, decode, blocks_groups (fun ls hls l hl => (hlines ls hls l hl).1)
    (fun ls hls l hl => (hlines ls hls l hl).2.1) (fun ls hls hl => (hlines ls hls [] hl).2.2 rfl), List.map_map]
  exact List.map_congr_left (fun rec _ => ofLines_pieces R rec)

theorem toSse_decode {R : Rendering} (hjson : ∀ json, ∃ text, R.jsonToString json = .ok text)
    {input : PipelineData} {recs : List Record} (h : Carries input recs) (hplain : ∀ rec ∈ recs, Plain R rec) :
    ∃ output, toSse R input = .ok output ∧ decode (fromUtf8Lossy (written R output)) = recs.map (blockOf R) :=
  decode_written R h (fun rec _ => dataStrings_ok hjson rec) hplain

def sample : Record :=
  [("id".toList, .string "1".toList), ("data".toList, .list [.string " a\n\nid: 2".toList, .string ":b\n".toList])]

theorem toSse_decode_sample :
    ∃ output, toSse .plain (.value (.list [.record sample, .record []]) none) = .ok output ∧
      decode (fromUtf8Lossy (written .plain output)) =
        [⟨none, some "1".toList, none, [" a".toList, [], "id: 2".toList, ":b".toList], []⟩,
          ⟨none, none, none, [], []⟩] := by
  have hplain : ∀ rec ∈ [sample, []], Plain .plain rec := by
    intro rec hrec
    rcases List.mem_cons.mp hrec with rfl | hrec
    · refine ⟨fun name hname v hv => ?_, by decide⟩
      simp only [singleFields, List.mem_cons, List.not_mem_nil, or_false] at hname
      rcases hname with rfl | rfl | rfl
      · have hnone : field sample "event".toList = none := rfl
        exact absurd (hnone.symm.trans hv) (Option.some_ne_none v).symm
      · have hsome : field sample "id".toList = some (.string "1".toList) := rfl
        rw [hsome] at hv
        obtain rfl := Option.some.inj hv
        decide
      · have hnone : field sample "retry".toList = none := rfl
        exact absurd (hnone.symm.trans hv) (Option.some_ne_none v).symm
    · obtain rfl := List.mem_singleton.mp hrec
      refine ⟨fun name _ v hv => ?_, by decide⟩
      have hnone : field [] name = none := rfl
      exact absurd (hnone.symm.trans hv) (Option.some_ne_none v).symm
  exact toSse_decode (fun _ => ⟨[], rfl⟩) (.list [sample, []] none) hplain

def beforeData (rec : Record) : Client :=
  Client.readAll ⟨[], []⟩ (scan ((fieldLines R rec).flatMap (· ++ ['\n']))).1

/-- The string arrives as the only event, given what the client has read before it. -/
def Arrives (client : Client) (s : Str) : Prop :=
  (client.events = [] ∧ client.buffer = [] ∧ s ≠ [] ∧ s.getLast? ≠ some '\n') ∨
    (client.events = [] ∧ client.buffer = [[]] ∧ ∀ c ∈ s, c = '\n') ∨
    (client.events = [[]] ∧ client.buffer = [] ∧ s = [])

lemma lines_eq_nil_iff {s : Str} (hcr : '\r' ∉ s) : lines s = [] ↔ s = [] := by
  constructor
  · intro h
    by_contra hne
    by_cases hlast : s.getLast? = some '\n'
    · rw [← List.dropLast_append_getLast? _ hlast, lines_concat (fun hm => hcr (List.mem_of_mem_dropLast hm))] at h
      exact List.splitOn_ne_nil _ _ h
    · rw [lines_of_getLast? hcr hne hlast] at h
      exact List.splitOn_ne_nil _ _ h
  · rintro rfl
    rfl

lemma intercalate_eq_nil {ls : List Str} (h : ['\n'].intercalate ls = []) : ls = [] ∨ ls = [[]] := by
  cases ls with
  | nil => exact Or.inl rfl
  | cons l ls =>
    cases ls with
    | nil => exact Or.inr (by simpa using h)
    | cons m ls => simp at h

lemma newline_comm_iff (t : Str) : '\n' :: t = t ++ ['\n'] ↔ ∀ c ∈ t, c = '\n' := by
  induction t with
  | nil => simp
  | cons c t ih =>
    rw [List.cons_append, List.cons.injEq, List.forall_mem_cons, eq_comm (a := '\n')]
    constructor
    · rintro ⟨rfl, h⟩
      exact ⟨rfl, ih.mp h⟩
    · rintro ⟨rfl, h⟩
      exact ⟨rfl, ih.mpr h⟩

lemma joined_eq_iff {buffer : List Str} {s : Str} (hcr : '\r' ∉ s) (hne : buffer ++ lines s ≠ []) :
    ['\n'].intercalate (buffer ++ lines s) = s ↔
      (buffer = [] ∧ s.getLast? ≠ some '\n') ∨ (buffer = [[]] ∧ ∀ c ∈ s, c = '\n') := by
  by_cases hs : s = []
  · subst hs
    have hlines : lines [] = [] := rfl
    rw [hlines, List.append_nil] at hne ⊢
    constructor
    · exact fun h => Or.inr ⟨(intercalate_eq_nil h).resolve_left hne, by simp⟩
    · rintro (⟨h, _⟩ | ⟨rfl, _⟩)
      · exact absurd h hne
      · rfl
  by_cases hlast : s.getLast? = some '\n'
  · obtain ⟨t, rfl⟩ : ∃ t, s = t ++ ['\n'] := ⟨_, (List.dropLast_append_getLast? _ hlast).symm⟩
    have hcr' : '\r' ∉ t := fun hm => hcr (List.mem_append_left _ hm)
    rw [lines_concat hcr']
    cases buffer with
    | nil => simp
    | cons l ls =>
      rw [intercalate_append _ (by simp) (List.splitOn_ne_nil _ _), List.intercalate_splitOn]
      constructor
      · intro h
        have hlen := congrArg List.length h
        simp only [List.length_append, List.length_singleton] at hlen
        have hnil : ['\n'].intercalate (l :: ls) = [] := List.length_eq_zero_iff.mp (by omega)
        have hbuffer := (intercalate_eq_nil hnil).resolve_left (by simp)
        rw [hnil] at h
        exact Or.inr ⟨hbuffer, by simpa [or_imp, forall_and] using (newline_comm_iff t).mp h⟩
      · rintro (⟨h, _⟩ | ⟨h, hall⟩)
        · simp at h
        · rw [h]
          exact (newline_comm_iff t).mpr (fun c hc => hall c (List.mem_append_left _ hc))
  · rw [lines_of_getLast? hcr hs hlast]
    cases buffer with
    | nil => simp [hlast]
    | cons l ls =>
      rw [intercalate_append _ (by simp) (List.splitOn_ne_nil _ _), List.intercalate_splitOn]
      constructor
      · intro h
        have hlen := congrArg List.length h
        simp only [List.length_append, List.length_singleton] at hlen
        omega
      · rintro (⟨h, _⟩ | ⟨_, hall⟩)
        · simp at h
        · obtain ⟨c, hc⟩ := Option.ne_none_iff_exists'.mp (fun hn => hs (List.getLast?_eq_none_iff.mp hn))
          rw [hc, hall c (List.mem_of_getLast? hc)] at hlast
          exact absurd rfl hlast

lemma read_end (client : Client) {s : Str} (hcr : '\r' ∉ s) :
    (Client.read ⟨client.events, client.buffer ++ lines s⟩ []).events = [s] ↔ Arrives client s := by
  by_cases hne : client.buffer ++ lines s = []
  · obtain ⟨hbuffer, hlines⟩ := List.append_eq_nil_iff.mp hne
    obtain rfl := (lines_eq_nil_iff hcr).mp hlines
    simp [Client.read, Arrives, hbuffer, hlines]
  · have hread : (Client.read ⟨client.events, client.buffer ++ lines s⟩ []).events =
        client.events ++ [['\n'].intercalate (client.buffer ++ lines s)] := by
      simp only [Client.read, if_true, if_neg hne]
    have hs : client.buffer = [] → s ≠ [] := by
      rintro hb rfl
      exact hne (by rw [hb]; rfl)
    rw [hread, List.append_eq_singleton_iff]
    simp only [List.cons.injEq, and_true, joined_eq_iff hcr hne, List.cons_ne_nil, and_false, or_false]
    constructor
    · rintro ⟨hevents, ⟨hbuffer, hlast⟩ | ⟨hbuffer, hall⟩⟩
      · exact Or.inl ⟨hevents, hbuffer, hs hbuffer, hlast⟩
      · exact Or.inr (Or.inl ⟨hevents, hbuffer, hall⟩)
    · rintro (⟨hevents, hbuffer, _, hlast⟩ | ⟨hevents, hbuffer, hall⟩ | ⟨_, hbuffer, hnil⟩)
      · exact ⟨hevents, Or.inl ⟨hbuffer, hlast⟩⟩
      · exact ⟨hevents, Or.inr ⟨hbuffer, hall⟩⟩
      · exact absurd hnil (hs hbuffer)

lemma data_string {rec : Record} {s : Str} (h : rec.get "data".toList = some (.string s)) :
    dataStrings R rec = .ok [s] := by
  have hfield : field rec "data".toList = some (.string s) := by
    rw [field, h]
    rfl
  rw [dataStrings, hfield]
  rfl

lemma eventToString_string {rec : Record} {s : Str} (h : rec.get "data".toList = some (.string s)) :
    eventToString R (.record rec) = .ok ((fieldLines R rec ++ dataLines [s]).flatMap (· ++ ['\n']) ++ ['\n']) := by
  rw [eventToString_record, data_string R h]
  rfl

lemma stripBom_pieces (ps : List Str) (h : ∀ p ∈ ps, ∃ c, p.head? = some c ∧ c ≠ Char.ofNat 0xfeff) :
    stripBom (ps.flatMap (· ++ ['\n']) ++ ['\n']) = ps.flatMap (· ++ ['\n']) ++ ['\n'] := by
  cases ps with
  | nil => rfl
  | cons p ps =>
    obtain ⟨c, hc, hne⟩ := h p List.mem_cons_self
    cases p with
    | nil => simp at hc
    | cons d p =>
      obtain rfl := Option.some.inj hc
      exact if_neg hne

lemma head_fieldLine {name : Str} (hname : name ∈ "data".toList :: singleFields) (text : Str) :
    ∃ c, (fieldLine name text).head? = some c ∧ c ≠ Char.ofNat 0xfeff := by
  simp only [singleFields, List.mem_cons, List.not_mem_nil, or_false] at hname
  rcases hname with rfl | rfl | rfl | rfl <;> exact ⟨_, rfl, by decide⟩

lemma dataLines_plain {s l : Str} (hcr : '\r' ∉ s) (hl : l ∈ dataLines [s]) :
    OneLine l ∧ '\r' ∉ l ∧ l ≠ [] ∧ fieldName l = "data".toList := by
  obtain ⟨hn, hr, hcolon⟩ := singleFields_plain _ List.mem_cons_self
  obtain ⟨t, ht, text, htext, rfl⟩ := mem_dataLines.mp hl
  obtain rfl := List.mem_singleton.mp ht
  have hcr' : '\r' ∉ text := fun hm => hcr (mem_of_mem_lines htext hm)
  exact ⟨(oneLine_fieldLine hn hr text).mpr
    ⟨newline_notMem_lines htext, fun hm => hcr' (List.mem_of_mem_dropLast hm)⟩,
    fun hm => hcr' (notMem_fieldLine hr (by decide) (by decide) hm), fieldLine_ne_nil _ _,
      fieldName_fieldLine hcolon _⟩

lemma dispatched_string {rec : Record} {s : Str} (hcr : '\r' ∉ s) :
    dispatched ((fieldLines R rec ++ dataLines [s]).flatMap (· ++ ['\n']) ++ ['\n']) =
      (Client.read ⟨(beforeData R rec).events, (beforeData R rec).buffer ++ lines s⟩ []).events := by
  have hhead : ∀ p ∈ fieldLines R rec ++ dataLines [s], ∃ c, p.head? = some c ∧ c ≠ Char.ofNat 0xfeff := by
    intro p hp
    rcases List.mem_append.mp hp with hp | hp
    · obtain ⟨name, hname, v, _, rfl⟩ := (mem_fieldLines R).mp hp
      exact head_fieldLine (List.mem_cons_of_mem _ hname) _
    · obtain ⟨_, _, l, _, rfl⟩ := mem_dataLines.mp hp
      exact head_fieldLine List.mem_cons_self l
  have hdata := fun l hl => dataLines_plain (l := l) hcr hl
  have hvalues : (dataLines [s]).map fieldValue = lines s := by
    have hv := valuesOf_dataLines [s] "data".toList
    rw [valuesOf_eq_map (fun l hl => (hdata l hl).2.2.2)] at hv
    simpa using hv
  have hstrip : (dataLines [s]).map stripCr = dataLines [s] := by
    rw [List.map_congr_left (fun l hl => stripCr_of_notMem (hdata l hl).2.1), List.map_id']
  rw [dispatched, stripBom_pieces _ hhead, scan_pieces, List.flatMap_append,
    scan_oneLines (fun l hl => (hdata l hl).1), hstrip, List.append_assoc, Client.readAll_append,
      Client.readAll_append,
    Client.readAll_data (fun hm => (hdata [] hm).2.2.1 rfl) (fun l hl => (hdata l hl).2.2.2), hvalues]
  have hbefore : beforeData R rec =
      Client.readAll ⟨[], []⟩ ((fieldLines R rec).flatMap (fun p => (scan (p ++ ['\n'])).1)) := by
    rw [beforeData, scan_terminated]
  rw [← hbefore]
  rfl

/-- The only two strings with the same lines: a last line with its terminator and without. -/
def Merges (s t : Str) : Prop := t = s ++ ['\n'] ∧ s ≠ [] ∧ s.getLast? ≠ some '\n'

lemma splitOn_injective (c : Char) : Function.Injective (List.splitOn c) :=
  Function.LeftInverse.injective (g := [c].intercalate) (fun _ => List.intercalate_splitOn c)

lemma lines_cases {s : Str} (hcr : '\r' ∉ s) :
    s = [] ∨ (∃ t, s = t ++ ['\n'] ∧ lines s = t.splitOn '\n') ∨
      (s ≠ [] ∧ s.getLast? ≠ some '\n' ∧ lines s = s.splitOn '\n') := by
  by_cases hs : s = []
  · exact Or.inl hs
  by_cases hlast : s.getLast? = some '\n'
  · refine Or.inr (Or.inl ⟨s.dropLast, (List.dropLast_append_getLast? _ hlast).symm, ?_⟩)
    have hdrop : '\r' ∉ s.dropLast := fun hm => hcr (List.mem_of_mem_dropLast hm)
    rw [← lines_concat hdrop, List.dropLast_append_getLast? _ hlast]
  · exact Or.inr (Or.inr ⟨hs, hlast, lines_of_getLast? hcr hs hlast⟩)

lemma lines_eq_iff {s u : Str} (hs : '\r' ∉ s) (hu : '\r' ∉ u) :
    lines s = lines u ↔ s = u ∨ Merges s u ∨ Merges u s := by
  constructor
  · intro h
    rcases lines_cases hs with rfl | ⟨t, rfl, ht⟩ | ⟨hne, hlast, ht⟩
    · exact Or.inl ((lines_eq_nil_iff hu).mp h.symm).symm
    · rcases lines_cases hu with rfl | ⟨t', rfl, ht'⟩ | ⟨hne', hlast', ht'⟩
      · exact Or.inl ((lines_eq_nil_iff hs).mp h)
      · rw [ht, ht'] at h
        exact Or.inl (congrArg (· ++ ['\n']) (splitOn_injective _ h))
      · rw [ht, ht'] at h
        exact Or.inr (Or.inr ⟨congrArg (· ++ ['\n']) (splitOn_injective _ h), hne', hlast'⟩)
    · rcases lines_cases hu with rfl | ⟨t', rfl, ht'⟩ | ⟨_, _, ht'⟩
      · exact Or.inl ((lines_eq_nil_iff hs).mp h)
      · rw [ht, ht'] at h
        exact Or.inr (Or.inl ⟨congrArg (· ++ ['\n']) (splitOn_injective _ h.symm), hne, hlast⟩)
      · rw [ht, ht'] at h
        exact Or.inl (splitOn_injective _ h)
  · have hmerge : ∀ {v w : Str}, '\r' ∉ v → Merges v w → lines w = lines v := by
      rintro v _ hv ⟨rfl, hne, hlast⟩
      rw [lines_concat hv, lines_of_getLast? hv hne hlast]
    rintro (rfl | h | h)
    · rfl
    · exact (hmerge hs h).symm
    · exact hmerge hu h

lemma fieldLine_injective (name : Str) : Function.Injective (fieldLine name) :=
  List.append_right_injective (name ++ ": ".toList)

lemma emitDataLines_inj {s u : Str} (hs : '\r' ∉ s) (hu : '\r' ∉ u)
    (h : (dataLines [s]).flatMap (· ++ ['\n']) = (dataLines [u]).flatMap (· ++ ['\n'])) : lines s = lines u := by
  have hscan : ∀ t : Str, '\r' ∉ t → (scan ((dataLines [t]).flatMap (· ++ ['\n']))).1 = dataLines [t] := by
    intro t ht
    have hline : ∀ l ∈ dataLines [t], OneLine l ∧ '\r' ∉ l := by
      intro l hl
      exact ⟨(dataLines_plain ht hl).1, (dataLines_plain ht hl).2.1⟩
    rw [scan_terminated, scan_oneLines (fun l hl => (hline l hl).1),
      List.map_congr_left (fun l hl => stripCr_of_notMem (hline l hl).2), List.map_id']
  have hlines := (hscan s hs).symm.trans ((congrArg (fun text => (scan text).1) h).trans (hscan u hu))
  have hmap : (lines s).map (fieldLine "data".toList) = (lines u).map (fieldLine "data".toList) := by
    simpa [dataLines] using hlines
  exact List.map_injective_iff.mpr (fieldLine_injective _) hmap

lemma eventToString_eq_iff {rec rec' : Record} {s s' : Str} (hdata : rec.get "data".toList = some (.string s))
    (hdata' : rec'.get "data".toList = some (.string s'))
    (hsame : ∀ name ∈ singleFields, rec.get name = rec'.get name) (hs : '\r' ∉ s) (hs' : '\r' ∉ s') :
    eventToString R (.record rec) = eventToString R (.record rec') ↔ lines s = lines s' := by
  have hfields : fieldLines R rec = fieldLines R rec' := by
    apply List.flatMap_congr
    intro name hname
    rw [fieldLinesOf, fieldLinesOf, field, field, hsame name hname]
  rw [eventToString_string R hdata, eventToString_string R hdata', hfields, Except.ok.injEq,
    List.append_cancel_right_eq,
    List.flatMap_append, List.flatMap_append, List.append_cancel_left_eq]
  constructor
  · exact emitDataLines_inj hs hs'
  · intro h
    simp only [dataLines, List.flatMap_cons, List.flatMap_nil, h]

theorem eventToString_arrives_iff {rec rec' : Record} {s s' : Str}
    (hdata : rec.get "data".toList = some (.string s))
    (hdata' : rec'.get "data".toList = some (.string s'))
    (hsame : ∀ name ∈ singleFields, rec.get name = rec'.get name) (hs : '\r' ∉ s) (hs' : '\r' ∉ s') :
    ((eventToString R (.record rec)).map dispatched = .ok [s] ↔ Arrives (beforeData R rec) s) ∧
      ((eventToString R (.record rec) = eventToString R (.record rec') → s = s') ↔
        ¬ Merges s s' ∧ ¬ Merges s' s) := by
  constructor
  · rw [eventToString_string R hdata, ← read_end _ hs, ← dispatched_string R hs]
    exact ⟨Except.ok.inj, congrArg Except.ok⟩
  · rw [eventToString_eq_iff R hdata hdata' hsame hs hs', lines_eq_iff hs hs']
    constructor
    · intro h
      constructor
      · intro hm
        have he := hm.1.symm.trans (h (Or.inr (Or.inl hm))).symm
        simp at he
      · intro hm
        have he := hm.1.symm.trans (h (Or.inr (Or.inr hm)))
        simp at he
    · rintro ⟨h, h'⟩ (he | he | he)
      · exact he
      · exact absurd he h
      · exact absurd he h'

def greeting (data : Str) : Record := [("event".toList, .string "greet".toList), ("data".toList, .string data)]

theorem eventToString_greeting :
    (eventToString .plain (.record (greeting "a\n\nb".toList))).map dispatched = .ok ["a\n\nb".toList] ∧
      (eventToString .plain (.record (greeting "a\n\nb".toList)) =
        eventToString .plain (.record (greeting "a".toList)) →
        "a\n\nb".toList = "a".toList) := by
  have hsame : ∀ name ∈ singleFields, (greeting "a\n\nb".toList).get name = (greeting "a".toList).get name := by
    intro name hname
    simp only [singleFields, List.mem_cons, List.not_mem_nil, or_false] at hname
    rcases hname with rfl | rfl | rfl <;> rfl
  have hiff := eventToString_arrives_iff .plain rfl rfl hsame (by decide) (by decide)
  have hbefore : beforeData .plain (greeting "a\n\nb".toList) = ⟨[], []⟩ := rfl
  exact ⟨hiff.1.mpr (hbefore ▸ Or.inl ⟨rfl, rfl, by decide, by decide⟩),
    hiff.2.mpr ⟨by simp [Merges], by simp [Merges]⟩⟩

theorem eventToString_empty_lost :
    ¬ ∀ rec s, Record.get rec "data".toList = some (.string s) → '\r' ∉ s →
      (eventToString .plain (.record rec)).map dispatched = .ok [s] := by
  intro h
  have hlost : (eventToString .plain (.record [("data".toList, .string [])])).map dispatched = .ok [] := by decide
  have harrives := h [("data".toList, .string [])] [] rfl (by simp)
  rw [hlost] at harrives
  simp at harrives

end HttpNu.Commands.Sse
