import HttpNu.Library.MultiMap
import HttpNu.Text

/-! Nushell values, pipeline data and JSON trees (`nu_protocol`, `serde_json`), spans left out. -/

namespace HttpNu

open Text

/-- An `f64` as its bit pattern. -/
structure F64 where
  bits : BitVec 64
  deriving DecidableEq

def F64.isFinite (f : F64) : Bool := f.bits.extractLsb' 52 11 ≠ 0x7ff

inductive ShellError where
  | typeMismatch (errMessage : Str)
  | cantConvert (toType fromType : Str)
  | generic (error msg : Str)
  | other (text : Str)
  deriving DecidableEq

/-- A value that only its rendering tells about keeps it as text. -/
inductive Value where
  | nothing
  | bool (val : Bool)
  | int (val : Int)
  | float (val : F64)
  | string (val : Str)
  | glob (val : Str)
  | filesize (val : Int)
  | duration (val : Int)
  | date (text : Str)
  | range (text : Str)
  | cellPath (text : Str)
  | binary (val : Bytes)
  | list (vals : List Value)
  | record (val : List (Str × Value))
  | closure (blockId : Nat)
  | custom (typeName : Str) (hash : Nat)
  | error (error : ShellError)

abbrev Record := List (Str × Value)

namespace Record

def get (rec : Record) (col : Str) : Option Value := (rec.find? (fun e => e.1 = col)).map Prod.snd

/-- A cell path finds the last column of its name. -/
def follow (rec : Record) (col : Str) : Option Value := Record.get rec.reverse col

/-- The first column of the name is replaced, or the column is added. -/
def upsert (rec : Record) (col : Str) (v : Value) : Record :=
  match rec with
  | [] => [(col, v)]
  | (k, w) :: rest => if k = col then (k, v) :: rest else (k, w) :: upsert rest col v

def columns (rec : Record) : List Str := rec.map Prod.fst

lemma get_eq_some_iff {rec : Record} (h : rec.columns.Nodup) {col : Str} {v : Value} :
    rec.get col = some v ↔ (col, v) ∈ rec :=
  Library.lookup_eq_some_iff h

lemma mem_columns_iff {rec : Record} {col : Str} : col ∈ rec.columns ↔ (rec.get col).isSome := by
  simp [columns, get]

lemma follow_eq_some_iff {rec : Record} (h : rec.columns.Nodup) {col : Str} {v : Value} :
    rec.follow col = some v ↔ (col, v) ∈ rec := by
  have hreverse : columns rec.reverse = rec.columns.reverse := List.map_reverse
  rw [follow, get_eq_some_iff (by rw [hreverse, List.nodup_reverse]; exact h), List.mem_reverse]

lemma follow_eq_get {rec : Record} (h : rec.columns.Nodup) (col : Str) : rec.follow col = rec.get col :=
  Option.ext (fun _ => (follow_eq_some_iff h).trans (get_eq_some_iff h).symm)

@[simp] lemma columns_cons (e : Str × Value) (rest : Record) : columns (e :: rest) = e.1 :: columns rest := rfl

lemma columns_upsert (rec : Record) (col : Str) (v : Value) :
    (rec.upsert col v).columns = if col ∈ rec.columns then rec.columns else rec.columns ++ [col] := by
  induction rec with
  | nil => rfl
  | cons e rest ih =>
    obtain ⟨k, w⟩ := e
    rw [upsert]
    by_cases hk : k = col
    · simp [hk]
    · rw [if_neg hk, columns_cons, ih]
      by_cases hcol : col ∈ columns rest <;> simp [hcol, Ne.symm hk]

lemma nodup_upsert {rec : Record} (h : rec.columns.Nodup) (col : Str) (v : Value) :
    (rec.upsert col v).columns.Nodup := by
  rw [columns_upsert]
  split
  · exact h
  · rename_i hcol
    exact List.concat_eq_append ▸ h.concat hcol

lemma upsert_of_notMem {rec : Record} {col : Str} (h : col ∉ rec.columns) (v : Value) :
    rec.upsert col v = rec ++ [(col, v)] := by
  induction rec with
  | nil => rfl
  | cons e rest ih =>
    obtain ⟨k, w⟩ := e
    rw [columns_cons, List.mem_cons, not_or] at h
    rw [upsert, if_neg (Ne.symm h.1), ih h.2, List.cons_append]

lemma get_upsert_self (rec : Record) (col : Str) (v : Value) : (rec.upsert col v).get col = some v := by
  induction rec with
  | nil => simp [upsert, get]
  | cons e rest ih =>
    obtain ⟨k, w⟩ := e
    rw [upsert]
    by_cases hk : k = col
    · simp [hk, get]
    · rw [if_neg hk, get, List.find?_cons_of_neg (by simpa using hk)]
      exact ih

lemma get_upsert_ne (rec : Record) {col other : Str} (h : other ≠ col) (v : Value) :
    (rec.upsert col v).get other = rec.get other := by
  induction rec with
  | nil => simp [upsert, get, h.symm]
  | cons e rest ih =>
    obtain ⟨k, w⟩ := e
    rw [upsert]
    by_cases hk : k = col
    · simp [hk, get, h.symm]
    · rw [if_neg hk]
      simp only [get, List.find?_cons] at ih ⊢
      split
      · rfl
      · exact ih

end Record

namespace Value

def isNothing : Value → Bool
  | nothing => true
  | _ => false

def asRecord : Value → Option Record
  | record val => some val
  | _ => none

def asStr : Value → Option Str
  | string val => some val
  | _ => none

def asInt : Value → Option Int
  | int val => some val
  | _ => none

def orDefault (replacement : Value) : Option Value → Value
  | none | some .nothing => replacement
  | some value => value

end Value

inductive Json where
  | null
  | bool (b : Bool)
  | int (n : Int)
  | float (f : F64)
  | string (s : Str)
  | array (items : List Json)
  | object (fields : List (Str × Json))

/-- `serde_json::Map::insert` keeps the place of a key that is there already. -/
def Json.insertField (fields : List (Str × Json)) (k : Str) (v : Json) : List (Str × Json) :=
  if fields.any (fun e => e.1 = k) then fields.map (fun e => if e.1 = k then (k, v) else e)
  else fields ++ [(k, v)]

/-- The renderings done by code outside the repository. -/
structure Rendering where
  toExpandedString : Value → Str
  typeName : Value → Str
  jsonToString : Json → Except Str Str
  floatToString : F64 → Str
  formatCliError : ShellError → Str

def Rendering.plain : Rendering where
  toExpandedString
    | .string val => val
    | _ => []
  typeName _ := []
  jsonToString _ := .ok []
  floatToString _ := []
  formatCliError
    | .typeMismatch errMessage => errMessage
    | .cantConvert toType _ => toType
    | .generic error _ => error
    | .other text => text

structure Metadata where
  contentType : Option Str
  custom : Record

end HttpNu
