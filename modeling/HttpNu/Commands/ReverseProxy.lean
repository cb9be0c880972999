import HttpNu.Worker

/-! `.reverse-proxy`: the body that it takes from its input, and its configuration. -/

namespace HttpNu.Commands.ReverseProxy

open Text Worker Response

variable (R : Rendering)

/-- The loop over the reads: their end, a read of no bytes and an error all break it. -/
def readBody (last : ReadEnd) : List (Pull Bytes) → Bytes → Option Bytes
  | [], bodyBytes =>
    match last with
    | .eof => some bodyBytes
    | .shellError _ => some bodyBytes
    | .otherError _ => some bodyBytes
    | .panics => none
  | pull :: rest, bodyBytes =>
    if pull.item = [] then some bodyBytes else readBody last rest (bodyBytes ++ pull.item)

/-- The input as bytes; `none` where a value is a `todo!()` or a read panics. -/
def requestBody : PipelineData → Option Bytes
  | .empty => some []
  | .value value _ => valueToBytes R value
  | .byteStream (some reader) _ => readBody reader.last reader.pulls []
  | .byteStream none _ => some []
  | .listStream stream _ =>
    if stream.panics then none
    else (valuesToJson stream.vals).map (fun items => utf8 (jsonText R (.array items)))

structure Config where
  headers : Headers := []
  preserveHost : Bool := true
  stripPrefix : Option Str := none
  query : Option (List (Str × Str)) := none

def asBool : Value → Option Bool
  | .bool val => some val
  | _ => none

def insertQuery (map : List (Str × Str)) (k v : Str) : List (Str × Str) :=
  if map.any (fun e => e.1 = k) then map.map (fun e => if e.1 = k then (k, v) else e) else map ++ [(k, v)]

def queryOf (rec : Record) : List (Str × Str) :=
  rec.foldl (fun map e =>
    match e.2.asStr with
    | some v => insertQuery map e.1 v
    | none => map) []

def parseConfig (config : Option Value) : Config :=
  match config.bind Value.asRecord with
  | none => {}
  | some rec =>
    { headers := ((rec.get "headers".toList).bind Value.asRecord).elim [] headersOf
      preserveHost := ((rec.get "preserve_host".toList).bind asBool).getD true
      stripPrefix := (rec.get "strip_prefix".toList).bind Value.asStr
      query := ((rec.get "query".toList).bind Value.asRecord).map queryOf }

def reverseProxy (targetUrl : Str) (config : Option Value) (input : PipelineData) : Option Response :=
  (requestBody R input).map (fun body =>
    let config := parseConfig config
    ⟨200, [], .reverseProxy targetUrl config.headers config.preserveHost config.stripPrefix body config.query⟩)

lemma readBody_eq {last : ReadEnd} (hlast : last ≠ .panics) {pulls : List (Pull Bytes)}
    (h : ∀ pull ∈ pulls, pull.item ≠ [])
    (bodyBytes : Bytes) : readBody last pulls bodyBytes = some (bodyBytes ++ (pulls.map Pull.item).flatten) := by
  induction pulls generalizing bodyBytes with
  | nil => cases last <;> simp_all [readBody]
  | cons pull pulls ih =>
    obtain ⟨hpull, hrest⟩ := List.forall_mem_cons.mp h
    rw [readBody, if_neg hpull, ih hrest, List.map_cons, List.flatten_cons, List.append_assoc]

end HttpNu.Commands.ReverseProxy
