import HttpNu.Logging
import HttpNu.Value

/-! `request_to_value`: the record that the handler closure receives. -/

namespace HttpNu.Request

open Text Library Http

def optionalColumn {α : Type} (name : Str) (value : α → Value) (field : Option α) : Record :=
  (field.map (fun a => (name, value a))).toList

/-- One column for each line; a line that is no visible ASCII is empty. -/
def headersRecord (headers : HeaderMap) : Record :=
  headers.entries.map (fun e => (e.1, .string (e.2.toStr.getD [])))

def requestToValue (request : RequestParts) : Record :=
  [("proto".toList, .string request.proto), ("method".toList, .string request.method),
      ("uri".toList, .string request.uri.text), ("path".toList, .string request.path)] ++
    optionalColumn "authority".toList .string request.authority ++
    optionalColumn "remote_ip".toList (.string ∘ IpAddr.text) request.remoteIp ++
    optionalColumn "remote_port".toList (fun port => .int port.toNat) request.remotePort ++
    optionalColumn "trusted_ip".toList (.string ∘ IpAddr.text) request.trustedIp ++
    [("headers".toList, .record (headersRecord request.headers)),
      ("query".toList, .record (request.query.map (fun e => (e.1, .string e.2))))]

def InOrder : List HeaderValue → Bytes → Prop
  | [], _ => True
  | v :: vs, bytes => ∃ before after, bytes = before ++ v.bytes ++ after ∧ InOrder vs after

/-- No name has two columns, and under each name that was sent stand all the values sent for it. -/
def Delivers (headers : HeaderMap) (rec : Record) : Prop :=
  rec.columns.Nodup ∧ ∀ e ∈ headers.entries, ∃ text, rec.follow e.1 = some (.string text) ∧
    InOrder (headers.getAll e.1) (utf8 text)

lemma columns_optionalColumn {α : Type} (name : Str) (value : α → Value) (field : Option α) :
    (optionalColumn name value field).columns.Sublist [name] := by
  cases field with
  | none => exact List.nil_sublist _
  | some a => exact List.Sublist.refl _

def requestColumns : List Str :=
  ["proto".toList, "method".toList, "uri".toList, "path".toList] ++ ["authority".toList] ++ ["remote_ip".toList] ++
    ["remote_port".toList] ++ ["trusted_ip".toList] ++ ["headers".toList, "query".toList]

lemma columns_sublist (request : RequestParts) : (requestToValue request).columns.Sublist requestColumns := by
  simp only [requestToValue, Record.columns, List.map_append]
  refine .append (.append (.append (.append (.append (.refl _) ?_) ?_) ?_) ?_) (.refl _)
  · exact columns_optionalColumn _ _ _
  · exact columns_optionalColumn _ _ _
  · exact columns_optionalColumn _ _ _
  · exact columns_optionalColumn _ _ _

lemma columns_requestToValue (request : RequestParts) : (requestToValue request).columns.Nodup :=
  (columns_sublist request).nodup (by decide)

lemma follow_headers (request : RequestParts) :
    (requestToValue request).follow "headers".toList = some (.record (headersRecord request.headers)) := by
  rw [Record.follow_eq_some_iff (columns_requestToValue request), requestToValue]
  exact List.mem_append_right _ List.mem_cons_self

lemma columns_headersRecord (headers : HeaderMap) :
    (headersRecord headers).columns = headers.entries.map Prod.fst := by
  rw [headersRecord, Record.columns, List.map_map]
  rfl

lemma ofByte_utf8 {b : UInt8} (h : b < 128) : String.utf8EncodeChar (Char.ofNat b.toNat) = [b] := by
  have hlt : b.toNat < 128 := UInt8.lt_iff_toNat_lt.mp h
  have hvalid : b.toNat.isValidChar := Or.inl (by omega)
  have hval : (Char.ofNat b.toNat).val.toNat = b.toNat := by
    rw [Char.ofNat, dif_pos hvalid]
    rfl
  have hsize : (Char.ofNat b.toNat).utf8Size = 1 := by
    rw [Char.utf8Size_eq_one_iff, UInt32.le_iff_toNat_le, hval]
    exact Nat.le_of_lt_succ hlt
  rw [String.utf8EncodeChar_eq_singleton hsize, List.singleton_inj, ← UInt8.toNat_inj, UInt32.toNat_toUInt8, hval]
  omega

lemma utf8_chars {v : HeaderValue} (h : v.visible = true) : utf8 v.chars = v.bytes := by
  rw [HeaderValue.visible, List.all_eq_true] at h
  rw [utf8, HeaderValue.chars, List.flatMap_map]
  refine (List.flatMap_congr (fun b hb => ?_)).trans (List.flatMap_singleton' v.bytes)
  have hb := h b hb
  simp only [isVisibleAscii, Bool.or_eq_true, Bool.and_eq_true, decide_eq_true_eq] at hb
  apply ofByte_utf8
  rcases hb with ⟨_, hb⟩ | rfl
  · exact UInt8.lt_trans hb (by decide)
  · decide

lemma visible_nil {v : HeaderValue} (h : v.bytes = []) : v.visible = true := by rw [HeaderValue.visible, h]; rfl

lemma getAll_of_mem {headers : HeaderMap} (h : (headers.entries.map Prod.fst).Nodup) {name : Str} {v : HeaderValue}
    (hmem : (name, v) ∈ headers.entries) : headers.getAll name = [v] := by
  obtain ⟨entries⟩ := headers
  dsimp only at h hmem
  rw [MultiMap.getAll]
  induction entries with
  | nil => cases hmem
  | cons e rest ih =>
    rw [List.map_cons, List.nodup_cons] at h
    rcases List.mem_cons.mp hmem with rfl | hmem
    · have hnone : rest.filter (fun e => e.1 = name) = [] := by
        rw [List.filter_eq_nil_iff]
        intro e he heq
        exact h.1 (List.mem_map.mpr ⟨e, he, of_decide_eq_true heq⟩)
      simp [hnone]
    · have hne : e.1 ≠ name := by
        rintro rfl
        exact h.1 (List.mem_map.mpr ⟨_, hmem, rfl⟩)
      rw [List.filter_cons_of_neg (by simpa using hne)]
      exact ih h.2 hmem

lemma inOrder_text_iff (v : HeaderValue) : InOrder [v] (utf8 (v.toStr.getD [])) ↔ v.visible = true := by
  rw [HeaderValue.toStr]
  by_cases hv : v.visible = true
  · rw [if_pos hv, Option.getD_some, utf8_chars hv]
    exact iff_of_true ⟨[], [], by simp, trivial⟩ hv
  · rw [if_neg hv]
    refine iff_of_false ?_ hv
    rintro ⟨before, after, hbytes, _⟩
    have hnil : v.bytes = [] := by
      simp only [Option.getD_none, utf8, List.flatMap_nil] at hbytes
      simp_all
    exact hv (visible_nil hnil)

theorem requestToValue_delivers_iff (request : RequestParts) :
    (∃ rec, (requestToValue request).follow "headers".toList = some (.record rec) ∧ Delivers request.headers rec) ↔
      (request.headers.entries.map Prod.fst).Nodup ∧ ∀ e ∈ request.headers.entries, e.2.visible = true := by
  rw [follow_headers]
  simp only [Option.some_inj, Value.record.injEq, exists_eq_left', Delivers, columns_headersRecord]
  refine and_congr_right (fun hnodup => forall₂_congr (fun e he => ?_))
  obtain ⟨name, v⟩ := e
  have hfollow : (headersRecord request.headers).follow name = some (.string (v.toStr.getD [])) := by
    rw [Record.follow_eq_some_iff (by rwa [columns_headersRecord])]
    exact List.mem_map.mpr ⟨(name, v), he, rfl⟩
  rw [hfollow, getAll_of_mem hnodup he, ← inOrder_text_iff]
  simp only [Option.some_inj, Value.string.injEq, exists_eq_left']

def splitCookies : RequestParts where
  proto := "HTTP/2.0".toList
  method := "GET".toList
  authority := none
  remoteIp := none
  remotePort := none
  trustedIp := none
  headers := ⟨[("cookie".toList, ⟨utf8 "a=1".toList, by decide⟩),
    ("cookie".toList, ⟨utf8 "b=2".toList, by decide⟩)]⟩
  uri := ⟨"/".toList, none, "/".toList, none⟩
  path := "/".toList
  query := []

theorem splitCookies_lost :
    (headersRecord splitCookies.headers).follow "cookie".toList = some (.string "b=2".toList) ∧
      ¬ ∃ rec, (requestToValue splitCookies).follow "headers".toList = some (.record rec) ∧
        Delivers splitCookies.headers rec := by
  refine ⟨rfl, ?_⟩
  rw [follow_headers]
  rintro ⟨rec, hrec, hnodup, _⟩
  obtain rfl := Value.record.inj (Option.some.inj hrec)
  exact absurd hnodup (by decide)

end HttpNu.Request
