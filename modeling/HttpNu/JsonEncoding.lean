import HttpNu.Commands.Sse
import HttpNu.Response

/-! The two encoders of values as JSON: that of response bodies and that of the commands. -/

namespace HttpNu.Response

open Text Commands

mutual

/-- Values of the types that JSON has, at every depth. -/
def jsonTree : Value → Bool
  | .nothing => true
  | .bool _ => true
  | .int _ => true
  | .float _ => true
  | .string _ => true
  | .list vals => jsonTrees vals
  | .record val => jsonFields val
  | _ => false

def jsonTrees : List Value → Bool
  | [] => true
  | v :: vs => jsonTree v && jsonTrees vs

def jsonFields : List (Str × Value) → Bool
  | [] => true
  | (_, v) :: rest => jsonTree v && jsonFields rest

end

variable (R : Rendering)

mutual

lemma valueToJson_eq (v : Value) : valueToJson v = if jsonTree v then some (Sse.valueToJson R v) else none := by
  cases v with
  | list vals =>
    rw [valueToJson, jsonTree, Sse.valueToJson, valuesToJson_eq vals]
    cases jsonTrees vals <;> rfl
  | record val =>
    rw [valueToJson, jsonTree, Sse.valueToJson, fieldsToJson_eq val []]
    cases jsonFields val <;> rfl
  | _ => rfl

lemma valuesToJson_eq (vals : List Value) :
    valuesToJson vals = if jsonTrees vals then some (Sse.valuesToJson R vals) else none := by
  cases vals with
  | nil => rfl
  | cons v vs =>
    rw [valuesToJson, jsonTrees, Sse.valuesToJson, valueToJson_eq v, valuesToJson_eq vs]
    cases jsonTree v <;> cases jsonTrees vs <;> rfl

lemma fieldsToJson_eq (fields : List (Str × Value)) (map : List (Str × Json)) :
    fieldsToJson fields map = if jsonFields fields then some (Sse.fieldsToJson R fields map) else none := by
  cases fields with
  | nil => rfl
  | cons e rest =>
    obtain ⟨k, v⟩ := e
    rw [fieldsToJson, jsonFields, Sse.fieldsToJson, valueToJson_eq v]
    cases jsonTree v with
    | false => rfl
    | true => exact fieldsToJson_eq rest _

end

lemma valueToBytes_of_jsonTree {v : Value} (h : jsonTree v = true) : valueToBytes R v ≠ none := by
  have hjson := valueToJson_eq R v
  rw [if_pos h] at hjson
  cases v with
  | list vals => simp [valueToBytes, hjson]
  | record val =>
    rw [valueToBytes]
    split
    · nofun
    · nofun
    · simp [hjson]
  | nothing => nofun
  | bool val => nofun
  | int val => nofun
  | float val => nofun
  | string val => nofun
  | _ => cases h

theorem valueToJson_agrees_iff (v : Value) :
    (valueToBytes R v ≠ none ∧ valueToJson v = some (Sse.valueToJson R v)) ↔ jsonTree v = true := by
  rw [valueToJson_eq R v]
  constructor
  · rintro ⟨_, hjson⟩
    by_contra htree
    rw [if_neg htree] at hjson
    cases hjson
  · intro htree
    exact ⟨valueToBytes_of_jsonTree R htree, if_pos htree⟩

/-- A record with a date aborts the evaluation, where the commands write the date as text. -/
theorem date_unimplemented :
    valueToBytes .plain (.record [("at".toList, .date "now".toList)]) = none ∧
      valueToJson (.record [("at".toList, .date "now".toList)]) = none ∧
      Sse.valueToJson .plain (.record [("at".toList, .date "now".toList)]) = .object [("at".toList, .string [])] :=
  ⟨rfl, rfl, rfl⟩

end HttpNu.Response
