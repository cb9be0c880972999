import HttpNu.Handler.StreamBody
import HttpNu.Worker

/-! JSON Lines: what a client reads of a list stream that begins with a record. -/

namespace HttpNu.Worker

open Text Library Response

variable (R : Rendering)

/-- The loop of `inner` over a list stream, with its separate copy for the value that was peeked. -/
def sendListStream (stream : ValueIter) (t : Thread) : Thread × Option Failure :=
  match stream.pulls with
  | [] => sendValues R (useJsonl stream.vals) stream.panics stream.ending [] t
  | first :: rest =>
    match asError first.item with
    | some error => (t.logError (R.formatCliError error), none)
    | none =>
      match streamBytes R (useJsonl stream.vals) first.item with
      | none => (t, some .panic)
      | some bytes =>
        match t.sendChunk bytes with
        | (t, false) => (t, none)
        | (t, true) => sendValues R (useJsonl stream.vals) stream.panics stream.ending rest t

theorem sendStream_listStream (stream : ValueIter) (metadata : Option Metadata) (t : Thread) :
    sendStream R (.listStream stream metadata) t = sendListStream R stream t := by
  obtain ⟨pulls, ending, panics⟩ := stream
  cases pulls with
  | nil => rfl
  | cons first rest =>
    simp only [sendStream, sendListStream, peeked, sendValues]
    cases asError first.item with
    | some error => rfl
    | none =>
      simp only [Thread.specials, List.foldl_nil]
      cases streamBytes R _ first.item with
      | none => rfl
      | some bytes =>
        dsimp only
        rcases t.sendChunk bytes with ⟨t', sent⟩
        cases sent <;> rfl

def sentVals (vals : List Value) : List Value := vals.takeWhile (fun v => (asError v).isNone)

mutual

def jsonToValue : Json → Value
  | .null => .nothing
  | .bool b => .bool b
  | .int n => .int n
  | .float f => .float f
  | .string s => .string s
  | .array items => .list (jsonToValues items)
  | .object fields => .record (jsonToFields fields)

def jsonToValues : List Json → List Value
  | [] => []
  | json :: rest => jsonToValue json :: jsonToValues rest

def jsonToFields : List (Str × Json) → List (Str × Value)
  | [] => []
  | (k, json) :: rest => (k, jsonToValue json) :: jsonToFields rest

end

mutual

/-- A value of JSON type: its numbers are finite and its records have distinct columns. -/
def JsonTyped : Value → Prop
  | .nothing | .bool _ | .int _ | .string _ => True
  | .float f => f.isFinite = true
  | .list vals => AllJsonTyped vals
  | .record val => (val.map Prod.fst).Nodup ∧ FieldsJsonTyped val
  | _ => False

def AllJsonTyped : List Value → Prop
  | [] => True
  | v :: vs => JsonTyped v ∧ AllJsonTyped vs

def FieldsJsonTyped : List (Str × Value) → Prop
  | [] => True
  | (_, v) :: rest => JsonTyped v ∧ FieldsJsonTyped rest

end

mutual

lemma jsonToValue_valueToJson {v : Value} (h : JsonTyped v) :
    ∃ json, Response.valueToJson v = some json ∧ jsonToValue json = v := by
  cases v with
  | nothing => exact ⟨.null, rfl, rfl⟩
  | bool b => exact ⟨.bool b, rfl, rfl⟩
  | int n => exact ⟨.int n, rfl, rfl⟩
  | string s => exact ⟨.string s, rfl, rfl⟩
  | float f => exact ⟨.float f, congrArg some (if_pos h), rfl⟩
  | list vals =>
    obtain ⟨items, hitems, hback⟩ := jsonToValues_valuesToJson h
    exact ⟨.array items, by rw [Response.valueToJson, hitems]; rfl, by rw [jsonToValue, hback]⟩
  | record val =>
    have hmap : ∀ e ∈ ([] : List (Str × Json)), e.1 ∉ val.map Prod.fst := nofun
    obtain ⟨fields, hfields, hback⟩ := jsonToFields_fieldsToJson h.2 h.1 hmap
    exact ⟨.object fields, by rw [Response.valueToJson, hfields]; rfl, by rw [jsonToValue, hback]⟩
  | _ => exact h.elim

lemma jsonToValues_valuesToJson {vals : List Value} (h : AllJsonTyped vals) :
    ∃ items, valuesToJson vals = some items ∧ jsonToValues items = vals := by
  cases vals with
  | nil => exact ⟨[], rfl, rfl⟩
  | cons v vs =>
    obtain ⟨json, hjson, hv⟩ := jsonToValue_valueToJson h.1
    obtain ⟨items, hitems, hvs⟩ := jsonToValues_valuesToJson h.2
    exact ⟨json :: items, by rw [valuesToJson, hjson, hitems]; rfl, by rw [jsonToValues, hv, hvs]⟩

lemma jsonToFields_fieldsToJson {fields : List (Str × Value)} (h : FieldsJsonTyped fields)
    (hn : (fields.map Prod.fst).Nodup) {map : List (Str × Json)} (hmap : ∀ e ∈ map, e.1 ∉ fields.map Prod.fst) :
    ∃ added, fieldsToJson fields map = some (map ++ added) ∧ jsonToFields added = fields := by
  cases fields with
  | nil => exact ⟨[], by rw [List.append_nil]; rfl, rfl⟩
  | cons e rest =>
    obtain ⟨k, v⟩ := e
    obtain ⟨hnot, hrest⟩ := List.nodup_cons.mp hn
    obtain ⟨json, hjson, hv⟩ := jsonToValue_valueToJson h.1
    have habsent : map.any (fun e => e.1 = k) = false :=
      Bool.eq_false_iff.mpr (fun hany => by
        obtain ⟨e, he, hk⟩ := List.any_eq_true.mp hany
        exact hmap e he (of_decide_eq_true hk ▸ List.mem_cons_self))
    have hmap' : ∀ e ∈ map ++ [(k, json)], e.1 ∉ rest.map Prod.fst := by
      intro e he
      rcases List.mem_append.mp he with he | he
      · exact fun hmem => hmap e he (List.mem_cons_of_mem _ hmem)
      · exact List.mem_singleton.mp he ▸ hnot
    obtain ⟨added, hadded, hback⟩ := jsonToFields_fieldsToJson h.2 hrest hmap'
    refine ⟨(k, json) :: added, ?_, by rw [jsonToFields, hv, hback]⟩
    rw [fieldsToJson, hjson]
    simp only [bind, Option.bind_some, Json.insertField, habsent]
    exact hadded.trans (by rw [List.append_assoc]; rfl)

end

def cutLines : Bytes → List Bytes
  | [] => []
  | b :: bs =>
    if b = 10 then [b] :: cutLines bs
    else
      match cutLines bs with
      | [] => [[b]]
      | line :: rest => (b :: line) :: rest

lemma cutLines_append {line : Bytes} (h : 10 ∉ line) (rest : Bytes) :
    cutLines (line ++ 10 :: rest) = (line ++ [10]) :: cutLines rest := by
  induction line with
  | nil => rfl
  | cons b line ih =>
    obtain ⟨hb, hline⟩ := not_or.mp (mt List.mem_cons.mpr h)
    rw [List.cons_append, cutLines, if_neg (Ne.symm hb), ih hline]
    rfl

lemma cutLines_flatMap {lines : List Bytes} (h : ∀ line ∈ lines, 10 ∉ line) :
    cutLines (lines.flatMap (fun line => line ++ [10])) = lines.map (fun line => line ++ [10]) := by
  induction lines with
  | nil => rfl
  | cons line lines ih =>
    obtain ⟨hline, hlines⟩ := List.forall_mem_cons.mp h
    rw [List.flatMap_cons, List.append_assoc, List.singleton_append, cutLines_append hline, ih hlines,
      List.map_cons]

/-- The text is the compact rendering of this JSON, on one line, and is read back. -/
structure CompactText (parse : Str → Option Json) (json : Json) (text : Str) : Prop where
  rendered : R.jsonToString json = .ok text
  oneLine : 10 ∉ utf8 text
  parsed : parse text = some json

def LineOf (parse : Str → Option Json) (v : Value) (text : Str) : Prop :=
  ∃ json, CompactText R parse json text ∧ jsonToValue json = v

variable {R}

lemma streamBytes_of_line {parse : Str → Option Json} {v : Value} (hv : JsonTyped v)
    (hserde : ∀ json, Response.valueToJson v = some json → ∃ text, CompactText R parse json text) :
    ∃ text, LineOf R parse v text ∧ streamBytes R true v = some (utf8 text ++ [10]) := by
  obtain ⟨json, hjson, hback⟩ := jsonToValue_valueToJson hv
  obtain ⟨text, htext⟩ := hserde json hjson
  refine ⟨text, ⟨json, htext, hback⟩, ?_⟩
  rw [streamBytes, if_pos rfl, hjson, Option.map_some, jsonText, htext.rendered, utf8_append]
  rfl

lemma sendChunk_of_room {t : Thread} (h : t.room = none) (bytes : Bytes) :
    t.sendChunk bytes = ({ t with chunks := t.chunks ++ [bytes] }, true) := by
  rw [Thread.sendChunk]
  split <;> simp_all

lemma sendValues_lines {parse : Str → Option Json} {panics : Bool} {ending : List Response}
    {pulls : List (Pull Value)}
    (hvals : ∀ v ∈ sentVals (pulls.map Pull.item), JsonTyped v)
    (hserde : ∀ v ∈ sentVals (pulls.map Pull.item), ∀ json, Response.valueToJson v = some json →
      ∃ text, CompactText R parse json text) {t : Thread} (hroom : t.room = none) (hquiet : t.responseTx = none) :
    ∃ texts, List.Forall₂ (LineOf R parse) (sentVals (pulls.map Pull.item)) texts ∧
      (sendValues R true panics ending pulls t).1.chunks =
        t.chunks ++ texts.map (fun text => utf8 text ++ [10]) := by
  induction pulls generalizing t with
  | nil => exact ⟨[], .nil, by rw [sendValues, specials_none hquiet, List.map_nil, List.append_nil]⟩
  | cons pull rest ih =>
    obtain ⟨specials, v⟩ := pull
    rw [sendValues, specials_none hquiet]
    cases herror : asError v with
    | some error =>
      have hsent : sentVals ((⟨specials, v⟩ :: rest : List (Pull Value)).map Pull.item) = [] := by
        simp [sentVals, herror]
      rw [hsent]
      exact ⟨[], .nil, (List.append_nil _).symm⟩
    | none =>
      have hsent : sentVals ((⟨specials, v⟩ :: rest : List (Pull Value)).map Pull.item) =
          v :: sentVals (rest.map Pull.item) := by
        simp [sentVals, herror]
      rw [hsent] at hvals hserde
      obtain ⟨hv, hrest⟩ := List.forall_mem_cons.mp hvals
      obtain ⟨hline, hlines⟩ := List.forall_mem_cons.mp hserde
      obtain ⟨text, hof, hbytes⟩ := streamBytes_of_line hv hline
      obtain ⟨texts, hall, hchunks⟩ := ih hrest hlines (t := { t with chunks := t.chunks ++ [utf8 text ++ [10]] })
        hroom hquiet
      refine ⟨text :: texts, hsent ▸ .cons hof hall, ?_⟩
      simp only [hbytes, sendChunk_of_room hroom]
      rw [hchunks, List.append_assoc]
      rfl

lemma specials_stream (specials : List Response) (t : Thread) :
    (t.specials specials).room = t.room ∧ (t.specials specials).chunks = t.chunks := by
  rw [Thread.specials]
  refine List.foldlRecOn specials Thread.special (motive := fun t' => t'.room = t.room ∧ t'.chunks = t.chunks)
    ⟨rfl, rfl⟩ ?_
  intro t' h response _
  rw [Thread.special]
  split <;> exact h

lemma spawnEvalThread_lines {parse : Str → Option Json} {stream : ValueIter} {metadata : Option Metadata}
    {specials : List Response} (hfirst : useJsonl stream.vals = true)
    (hvals : ∀ v ∈ sentVals stream.vals, JsonTyped v)
    (hserde : ∀ v ∈ sentVals stream.vals, ∀ json, Response.valueToJson v = some json →
      ∃ text, CompactText R parse json text) :
    ∃ texts, List.Forall₂ (LineOf R parse) (sentVals stream.vals) texts ∧
      (spawnEvalThread R false ⟨specials, .ok (.listStream stream metadata)⟩ none).chunks =
        texts.map (fun text => utf8 text ++ [10]) := by
  have hitems : (peeked stream.pulls).map Pull.item = stream.vals := by
    rw [ValueIter.vals]
    cases stream.pulls <;> rfl
  have hne : stream.vals.isEmpty = false := by
    cases hvals : stream.vals with
    | nil => simp [hvals, useJsonl] at hfirst
    | cons v vs => rfl
  -- when the stream is evaluated, no sender for special responses is left
  set started := (runSpecials .mk specials (start none)).clearResponseTx with hstarted
  have hspecials := specials_stream specials { start none with responseTx := some .mk }
  have hroom : started.room = none := hspecials.1
  have hchunks : started.chunks = [] := hspecials.2
  have hpeek : peek (.listStream stream metadata) started = started := specials_none rfl _
  have htuple : responseTuple R (.listStream stream metadata) =
      .ok (some "application/x-ndjson".toList, extractHttpResponseMeta metadata, .stream) := by
    rw [responseTuple, hne, Bool.false_and, if_neg Bool.false_ne_true, if_pos hfirst]
  have hsent : ∃ texts, List.Forall₂ (LineOf R parse) (sentVals ((peeked stream.pulls).map Pull.item)) texts ∧
      (sendValues R true stream.panics stream.ending (peeked stream.pulls) (started.sendBody .mk
        (some "application/x-ndjson".toList, extractHttpResponseMeta metadata, .stream))).1.chunks =
          started.chunks ++ texts.map (fun text => utf8 text ++ [10]) :=
    sendValues_lines (hitems ▸ hvals) (hitems ▸ hserde) hroom rfl
  obtain ⟨texts, hall, hlines⟩ := hsent
  rw [hitems] at hall
  refine ⟨texts, hall, ?_⟩
  have hinner : (inner R ⟨specials, .ok (.listStream stream metadata)⟩ .mk .mk (start none)).1.chunks =
      texts.map (fun text => utf8 text ++ [10]) := by
    simp only [inner, respond, ← hstarted, hpeek, htuple, sendStream, hfirst]
    rw [hlines, hchunks, List.nil_append]
  have hevaluate : evaluate R false ⟨specials, .ok (.listStream stream metadata)⟩ { room := none } =
      inner R ⟨specials, .ok (.listStream stream metadata)⟩ .mk .mk (start none) := rfl
  rw [spawnEvalThread, hevaluate]
  rcases hresult : inner R ⟨specials, .ok (.listStream stream metadata)⟩ .mk .mk (start none) with ⟨t, failure⟩
  rw [hresult] at hinner
  cases failure with
  | none => exact hinner
  | some failure =>
    refine Eq.trans ?_ hinner
    simp only [exit, fallback]
    split <;> rfl

lemma exists_lineOf {parse : Str → Option Json} {vals : List Value} {texts : List Str}
    (h : List.Forall₂ (LineOf R parse) vals texts) {text : Str} (htext : text ∈ texts) :
    ∃ v, LineOf R parse v text := by
  induction h with
  | nil => cases htext
  | @cons v text' _ _ hline _ ih =>
    rcases List.mem_cons.mp htext with rfl | htext
    · exact ⟨v, hline⟩
    · exact ih htext

theorem jsonLines_body (R : Rendering) (parse : Str → Option Json) (stream : ValueIter)
    (metadata : Option Metadata)
    (specials : List Response) (hfirst : useJsonl stream.vals = true)
    (hvals : ∀ v ∈ sentVals stream.vals, JsonTyped v)
    (hserde : ∀ v ∈ sentVals stream.vals, ∀ json, Response.valueToJson v = some json →
      ∃ text, CompactText R parse json text)
    (enc : Encoder) (decode : Bytes → Bytes) (hlaw : enc.Lawful decode) (isSse useBrotli : Bool)
    (acts : List Handler.StreamBody.Act) (s : Handler.StreamBody.State)
    (hrun : run (Handler.StreamBody.step enc isSse) (Handler.StreamBody.init useBrotli) acts = some s)
    (hsent : s.rx.sent = (spawnEvalThread R false ⟨specials, .ok (.listStream stream metadata)⟩ none).chunks)
    (hend : s.EndedCleanly) :
    ∃ texts, List.Forall₂ (LineOf R parse) (sentVals stream.vals) texts ∧
      cutLines (s.delivered decode) = texts.map (fun text => utf8 text ++ [10]) := by
  obtain ⟨texts, hall, hchunks⟩ :=
    spawnEvalThread_lines hfirst hvals hserde
  have hinv := Handler.StreamBody.inv_run hlaw hrun
  obtain ⟨hlive, hmem, _, hgot, _⟩ := hinv.endedCleanly hend
  have hlines : ∀ line ∈ texts.map utf8, 10 ∉ line := by
    intro line hline
    obtain ⟨text, htext, rfl⟩ := List.mem_map.mp hline
    obtain ⟨v, json, hcompact, _⟩ := exists_lineOf hall htext
    exact hcompact.oneLine
  refine ⟨texts, hall, ?_⟩
  rw [hinv.delivered_eq hlaw hlive hmem, hgot, hsent, hchunks]
  have hcut := cutLines_flatMap hlines
  rw [List.flatMap_map, List.map_map] at hcut
  rw [← List.flatMap_def]
  exact hcut

def objectText : Str := braced "\"a\":1".toList
def stringText : Str := "\"x\\ny\"".toList

def twoRenderings : Rendering where
  toExpandedString := Rendering.plain.toExpandedString
  typeName := Rendering.plain.typeName
  jsonToString
    | .object _ => .ok objectText
    | .string _ => .ok stringText
    | _ => .ok []
  floatToString := Rendering.plain.floatToString
  formatCliError := Rendering.plain.formatCliError

def parseTwo (text : Str) : Option Json :=
  if text = objectText then some (.object [("a".toList, .int 1)])
  else if text = stringText then some (.string "x\ny".toList)
  else none

def recordStream : ValueIter where
  pulls := [⟨[], .record [("a".toList, .int 1)]⟩, ⟨[], .string "x\ny".toList⟩, ⟨[], .error (.other "gone".toList)⟩,
    ⟨[], .int 3⟩]
  ending := []
  panics := false

def readAll : List Handler.StreamBody.Act :=
  [.send (utf8 objectText ++ [10]), .send (utf8 stringText ++ [10]), .close, .poll, .look, .recv,
    .poll, .look, .recv,
    .poll, .look, .recv]

theorem jsonLines_body_read :
    ∃ s, run (Handler.StreamBody.step .framed false) (Handler.StreamBody.init false) readAll = some s ∧
      ∃ texts, List.Forall₂ (LineOf twoRenderings parseTwo) (sentVals recordStream.vals) texts ∧
        cutLines (s.delivered Encoder.unframe) = texts.map (fun text => utf8 text ++ [10]) := by
  have hrecord : JsonTyped (.record [("a".toList, .int 1)]) := ⟨List.nodup_singleton _, trivial, trivial⟩
  have hstring : JsonTyped (.string "x\ny".toList) := trivial
  refine ⟨_, rfl, jsonLines_body twoRenderings parseTwo recordStream none [] rfl ?_ ?_ .framed
    Encoder.unframe Encoder.framed_lawful false false readAll _ rfl rfl ?_⟩
  · exact List.forall_mem_cons.mpr ⟨hrecord, List.forall_mem_singleton.mpr hstring⟩
  · refine List.forall_mem_cons.mpr ⟨?_, List.forall_mem_singleton.mpr ?_⟩
    · intro json hjson
      obtain rfl := Option.some.inj hjson
      exact ⟨objectText, rfl, by decide, if_pos rfl⟩
    · intro json hjson
      obtain rfl := Option.some.inj hjson
      exact ⟨stringText, rfl, by decide, (if_neg (by decide)).trans (if_pos rfl)⟩
  · exact .inl ⟨by decide, by decide⟩

end HttpNu.Worker
