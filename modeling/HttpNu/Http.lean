import HttpNu.Library.MultiMap
import HttpNu.Text

/-! Header values, header names and header maps of the `http` crate, as it documents them. -/

namespace HttpNu.Http

open Library Text

def isHeaderByte (b : UInt8) : Bool := (32 ≤ b && b ≠ 127) || b = 9

/-- A header value is a byte string without control characters other than tab. -/
structure HeaderValue where
  bytes : Bytes
  valid : bytes.all isHeaderByte = true
  deriving DecidableEq

def HeaderValue.fromStr (s : Str) : Option HeaderValue :=
  if h : (utf8 s).all isHeaderByte = true then some ⟨utf8 s, h⟩ else none

lemma HeaderValue.bytes_of_fromStr {s : Str} {v : HeaderValue} (h : fromStr s = some v) : v.bytes = utf8 s := by
  rw [fromStr] at h
  split at h
  · exact (congrArg bytes (Option.some.inj h)).symm
  · cases h

lemma HeaderValue.bytes_eq_utf8_iff {s : Str} {v : HeaderValue} : v.bytes = utf8 s ↔ fromStr s = some v := by
  constructor
  · intro h
    rw [fromStr, dif_pos (h ▸ v.valid)]
    exact congrArg some (by simp only [← h])
  · exact bytes_of_fromStr

lemma HeaderValue.fromStr_inj {s t : Str} {v : HeaderValue} (hs : fromStr s = some v) (ht : fromStr t = some v) :
    s = t :=
  utf8_injective ((bytes_of_fromStr hs).symm.trans (bytes_of_fromStr ht))

def isVisibleAscii (b : UInt8) : Bool := (32 ≤ b && b < 127) || b = 9

def HeaderValue.visible (v : HeaderValue) : Bool := v.bytes.all isVisibleAscii

def HeaderValue.chars (v : HeaderValue) : Str := v.bytes.map (fun b => Char.ofNat b.toNat)

/-- `HeaderValue::to_str` reads a value only when all its bytes are visible ASCII. -/
def HeaderValue.toStr (v : HeaderValue) : Option Str := if v.visible then some v.chars else none

def HeaderValue.comma (v w : HeaderValue) : HeaderValue where
  bytes := v.bytes ++ 0x2c :: 0x20 :: w.bytes
  valid := by simp [v.valid, w.valid, isHeaderByte]

/-- The one value that means the same as several lines of a header, in order. -/
def HeaderValue.join : List HeaderValue → HeaderValue
  | [] => ⟨[], rfl⟩
  | [v] => v
  | v :: w :: vs => v.comma (join (w :: vs))

@[simp] lemma HeaderValue.chars_comma (v w : HeaderValue) :
    (v.comma w).chars = v.chars ++ ',' :: ' ' :: w.chars := by
  simp [chars, comma]

@[simp] lemma HeaderValue.visible_comma (v w : HeaderValue) :
    (v.comma w).visible = (v.visible && w.visible) := by
  simp [visible, comma, isVisibleAscii]

@[simp] lemma HeaderValue.visible_join (vs : List HeaderValue) :
    (join vs).visible = vs.all visible := by
  induction vs with
  | nil => rfl
  | cons v vs ih =>
    cases vs with
    | nil => simp [join]
    | cons w vs => rw [join, visible_comma, ih, ← List.all_cons]

def isTokenChar (c : Char) : Bool :=
  c.isAlphanum || "!#$%&'*+-.^_`|~".toList.contains c

def headerName (s : Str) : Option Str :=
  if s ≠ [] ∧ s.all isTokenChar ∧ s.length < 2 ^ 16 then some (s.map Char.toLower) else none

abbrev HeaderMap := MultiMap Str HeaderValue

def contentType : Str := "content-type".toList
def contentEncoding : Str := "content-encoding".toList
def contentLength : Str := "content-length".toList
def vary : Str := "vary".toList
def cacheControl : Str := "cache-control".toList
def connection : Str := "connection".toList
def host : Str := "host".toList
def acceptEncoding : Str := "accept-encoding".toList

def br : Str := "br".toList

end HttpNu.Http
