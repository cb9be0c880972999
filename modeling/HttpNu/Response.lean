import HttpNu.Http
import HttpNu.Value

/-! Responses: their metadata and the bytes that values become. -/

namespace HttpNu

open Text

namespace Response

inductive HeaderValue where
  | single (s : Str)
  | multiple (values : List Str)
  deriving DecidableEq

/-- A `HashMap` of headers: one entry for each name, in the order in which it is iterated. -/
abbrev Headers := List (Str × HeaderValue)

structure HttpResponseMeta where
  status : Option UInt16 := none
  headers : Headers := []
  deriving DecidableEq

inductive ResponseBodyType where
  | normal
  | static (root path : Str) (fallback : Option Str)
  | reverseProxy (targetUrl : Str) (headers : Headers) (preserveHost : Bool) (stripPrefix : Option Str)
      (requestBody : Bytes) (query : Option (List (Str × Str)))
  deriving DecidableEq

inductive ResponseTransport where
  | empty
  | full (bytes : Bytes)
  | stream
  deriving DecidableEq

end Response

/-- A special response, by which `.static` and `.reverse-proxy` bypass the normal body. -/
structure Response where
  status : UInt16
  headers : Response.Headers
  bodyType : Response.ResponseBodyType
  deriving DecidableEq

namespace Response

variable (R : Rendering)

mutual

/-- `value_to_json`; `none` where the code is `todo!()`. -/
def valueToJson : Value → Option Json
  | .nothing => some .null
  | .bool val => some (.bool val)
  | .int val => some (.int val)
  | .float val => some (if val.isFinite then .float val else .null)
  | .string val => some (.string val)
  | .list vals => (valuesToJson vals).map .array
  | .record val => (fieldsToJson val []).map .object
  | _ => none

def valuesToJson : List Value → Option (List Json)
  | [] => some []
  | v :: vs => do return (← valueToJson v) :: (← valuesToJson vs)

def fieldsToJson : List (Str × Value) → List (Str × Json) → Option (List (Str × Json))
  | [], map => some map
  | (k, v) :: rest, map => do fieldsToJson rest (Json.insertField map k (← valueToJson v))

end

/-- `serde_json::to_string`, an error read as the empty string. -/
def jsonText (json : Json) : Str := (R.jsonToString json).toOption.getD []

def valueToBytes : Value → Option Bytes
  | .nothing => some []
  | .string val => some (utf8 val)
  | .int val => some (utf8 (toString val).toList)
  | .float val => some (utf8 (R.floatToString val))
  | .binary val => some val
  | .bool val => some (utf8 (toString val).toList)
  | .record val =>
    match Record.get val "__html".toList with
    | some (.string html) => some (utf8 html)
    | some _ => some []
    | none => (valueToJson (.record val)).map (fun json => utf8 (jsonText R json))
  | .list vals => (valueToJson (.list vals)).map (fun json => utf8 (jsonText R json))
  | _ => none

def headerEntry : Value → Option HeaderValue
  | .string val => some (.single val)
  | .list vals => some (.multiple (vals.filterMap Value.asStr))
  | _ => none

def insertHeader (map : Headers) (k : Str) (v : HeaderValue) : Headers :=
  if map.any (fun e => e.1 = k) then map.map (fun e => if e.1 = k then (k, v) else e) else map ++ [(k, v)]

def headersOf (rec : Record) : Headers :=
  rec.foldl (fun map e =>
    match headerEntry e.2 with
    | some v => insertHeader map e.1 v
    | none => map) []

def extractHttpResponseMeta (metadata : Option Metadata) : HttpResponseMeta :=
  match metadata.bind (fun m => (m.custom.get "http.response".toList).bind Value.asRecord) with
  | none => {}
  | some rec =>
    { status := ((rec.get "status".toList).bind Value.asInt).map UInt16.ofInt
      headers := ((rec.get "headers".toList).bind Value.asRecord).elim [] headersOf }

end Response

end HttpNu
