import Mathlib.Data.List.Basic
import Mathlib.Tactic

/-! Streaming encoders, known by what they emit at each call. -/

namespace HttpNu.Library

abbrev Octets := List UInt8

inductive Op where
  | process
  | flush
  | finish
  deriving DecidableEq

structure Call where
  op : Op
  input : Octets

/-- What a call comes to: its output, a refusal, or no return at all. -/
inductive Emission where
  | ok (out : Octets)
  | failed
  | stuck

def Emission.octets : Emission → Octets
  | .ok out => out
  | _ => []

/-- The outcome of a call after the calls made before it, the latest first. -/
structure Encoder where
  emit : List Call → Call → Emission

def Call.Plain (c : Call) : Prop := c.op = .process ∨ c.input = []

def fed : List Call → Octets
  | [] => []
  | c :: earlier => fed earlier ++ c.input

def Unfinished (calls : List Call) : Prop := ∀ c ∈ calls, c.op ≠ .finish

def Settled : List Call → Prop
  | [] => True
  | c :: _ => c.op ≠ .process

namespace Encoder

variable (enc : Encoder)

def output : List Call → Octets
  | [] => []
  | c :: earlier => output earlier ++ (enc.emit earlier c).octets

def Made : List Call → Prop
  | [] => True
  | c :: earlier => Made earlier ∧ c.Plain ∧ ∃ out, enc.emit earlier c = .ok out

/-- Calls on an unfinished stream are not refused, and what was emitted up to a flush or to the end decodes to
what was fed up to it. -/
structure Honest (decode : Octets → Octets) : Prop where
  never_fails : ∀ calls c, enc.Made calls → Unfinished calls → c.Plain → enc.emit calls c ≠ .failed
  decode_settled : ∀ calls, enc.Made calls → Unfinished calls.tail → Settled calls →
    decode (enc.output calls) = fed calls

/-- Besides, every call on an unfinished stream returns. -/
structure Lawful (decode : Octets → Octets) : Prop extends enc.Honest decode where
  returns : ∀ calls c, enc.Made calls → Unfinished calls → c.Plain → enc.emit calls c ≠ .stuck

/-- The one call that finishes the stream completes an encoding of all that was fed, which `undo` reads back. -/
def Completes (undo : Octets → Option Octets) : Prop :=
  ∀ calls c, enc.Made (c :: calls) → Unfinished calls → c.op = .finish →
    undo (enc.output (c :: calls)) = some (fed (c :: calls))

lemma output_cons {calls : List Call} {c : Call} {out : Octets} (h : enc.emit calls c = .ok out) :
    enc.output (c :: calls) = enc.output calls ++ out := by
  rw [output, h, Emission.octets]

lemma Made.cons {calls : List Call} {c : Call} {out : Octets} (h : enc.Made calls) (hc : c.Plain)
    (ho : enc.emit calls c = .ok out) : enc.Made (c :: calls) :=
  ⟨h, hc, out, ho⟩

lemma Made.suffix {calls earlier : List Call} (h : enc.Made calls) (hsuffix : earlier <:+ calls) :
    enc.Made earlier := by
  induction calls with
  | nil => exact List.suffix_nil.mp hsuffix ▸ trivial
  | cons c calls ih =>
    rcases List.suffix_cons_iff.mp hsuffix with rfl | hsuffix
    · exact h
    · exact ih h.1 hsuffix

def Emitted (calls : List Call) (octets : Octets) : Prop :=
  ∃ flushed, flushed <:+ calls ∧ Settled flushed ∧ enc.output flushed = octets

lemma Emitted.cons {calls : List Call} {octets : Octets} (h : enc.Emitted calls octets) (c : Call) :
    enc.Emitted (c :: calls) octets := by
  obtain ⟨flushed, hsuffix, hrest⟩ := h
  exact ⟨flushed, hsuffix.trans (List.suffix_cons c calls), hrest⟩

end Encoder

lemma unfinished_cons {calls : List Call} {c : Call} :
    Unfinished (c :: calls) ↔ c.op ≠ .finish ∧ Unfinished calls := by
  simp [Unfinished]

lemma fed_append (calls earlier : List Call) : fed (calls ++ earlier) = fed earlier ++ fed calls := by
  induction calls with
  | nil => simp [fed]
  | cons c calls ih => simp [fed, ih]

lemma fed_suffix {flushed calls : List Call} (h : flushed <:+ calls) : fed flushed <+: fed calls := by
  obtain ⟨later, rfl⟩ := h
  exact ⟨fed later, (fed_append later flushed).symm⟩

namespace Encoder

variable {enc : Encoder} {decode : Octets → Octets}

lemma Honest.emits (h : enc.Honest decode) {calls : List Call} (hmade : enc.Made calls) (hc : Unfinished calls)
    {c : Call} (hplain : c.Plain) : enc.emit calls c = .stuck ∨ ∃ out, enc.emit calls c = .ok out := by
  cases hemit : enc.emit calls c with
  | ok out => exact Or.inr ⟨out, rfl⟩
  | failed => exact absurd hemit (h.never_fails calls c hmade hc hplain)
  | stuck => exact Or.inl rfl

lemma Honest.decode_emitted (h : enc.Honest decode) {calls : List Call} {octets : Octets} (hmade : enc.Made calls)
    (hc : Unfinished calls) (he : enc.Emitted calls octets) : decode octets <+: fed calls := by
  obtain ⟨flushed, hsuffix, hs, rfl⟩ := he
  have hf : Unfinished flushed.tail := fun c hm => hc c (hsuffix.mem (List.mem_of_mem_tail hm))
  rw [h.decode_settled flushed (hmade.suffix enc hsuffix) hf hs]
  exact fed_suffix hsuffix

def waiting : List Call → Octets
  | [] => []
  | c :: earlier => if c.op = .process then waiting earlier ++ c.input else []

def frame (octets : Octets) : Octets := octets.flatMap (fun b => [1, b])

def unframe : Octets → Octets
  | 1 :: b :: rest => b :: unframe rest
  | _ => []

def framedEmit (calls : List Call) (c : Call) : Octets :=
  match c.op with
  | .process => []
  | .flush => frame (waiting calls ++ c.input)
  | .finish => frame (waiting calls ++ c.input) ++ [0]

/-- An encoder that holds its input until a flush, marks every octet and ends the stream with a zero. -/
def framed : Encoder := ⟨fun calls c => .ok (framedEmit calls c)⟩

lemma framed_output_cons (calls : List Call) (c : Call) :
    framed.output (c :: calls) = framed.output calls ++ framedEmit calls c := rfl

lemma frame_append (xs ys : Octets) : frame (xs ++ ys) = frame xs ++ frame ys := by
  simp [frame]

lemma unframe_frame (xs rest : Octets) : unframe (frame xs ++ rest) = xs ++ unframe rest := by
  induction xs with
  | nil => rfl
  | cons x xs ih => simpa [frame, unframe] using ih

lemma framed_output {calls : List Call} (h : Unfinished calls) :
    framed.output calls ++ frame (waiting calls) = frame (fed calls) := by
  induction calls with
  | nil => rfl
  | cons c calls ih =>
    obtain ⟨hc, hcalls⟩ := unfinished_cons.mp h
    have ih := ih hcalls
    rcases c with ⟨op, input⟩
    rw [framed_output_cons, fed, frame_append, ← ih]
    cases op with
    | process => simp [framedEmit, waiting, frame_append]
    | flush => simp [framedEmit, waiting, frame]
    | finish => exact absurd rfl hc

lemma framed_lawful : framed.Lawful unframe where
  never_fails _ _ _ _ _ := nofun
  returns _ _ _ _ _ := nofun
  decode_settled calls _ htail hs := by
    cases calls with
    | nil => rfl
    | cons c calls =>
      have ho : framed.output calls ++ frame (waiting calls) = frame (fed calls) := framed_output htail
      rcases c with ⟨op, input⟩
      cases op with
      | process => exact absurd rfl hs
      | flush =>
        have hout : framed.output (⟨.flush, input⟩ :: calls) = frame (fed (⟨.flush, input⟩ :: calls)) ++ [] := by
          simp [framed_output_cons, framedEmit, fed, frame_append, ← ho]
        rw [hout, unframe_frame]
        simp [unframe]
      | finish =>
        have hout : framed.output (⟨.finish, input⟩ :: calls) =
            frame (fed (⟨.finish, input⟩ :: calls)) ++ [0] := by
          simp [framed_output_cons, framedEmit, fed, frame_append, ← ho]
        rw [hout, unframe_frame]
        simp [unframe]

end Encoder

end HttpNu.Library
