import HttpNu.Http
import HttpNu.Library.Codec

/-! `accepts_brotli`, and `BrotliStream`: a compressed body stream that flushes whenever its source goes
idle. -/

namespace HttpNu.Compression

open Text Library Http

/-- A decoded `Accept-Encoding` header: which of the offered encodings it prefers, if it allows one. -/
structure AcceptEncoding where
  preferredAllowed : List Str → Option Str

def acceptsBrotli (decode : List HeaderValue → Option AcceptEncoding) (headers : HeaderMap) : Bool :=
  match decode (headers.getAll acceptEncoding) with
  | none => false
  | some accept => (accept.preferredAllowed [br]).isSome

inductive Polled where
  | item (chunk : Bytes)
  | pending
  | failed
  | ended

inductive Output where
  | data (frame : Bytes)
  | error
  | done
  | pending
  deriving DecidableEq

def Output.frame : Output → Bytes
  | .data frame => frame
  | _ => []

def drainBudget : Nat := 32

/-- The encoder is known by the calls of `encode` made to it. -/
structure BrotliStream where
  calls : List Call := []
  finished : Bool := false

structure Drain where
  accumulated : Bytes := []
  drained : Nat := 0

namespace BrotliStream

variable (enc : Encoder)

def call (b : BrotliStream) (input : Bytes) (op : Op) : Emission × BrotliStream :=
  (enc.emit b.calls ⟨op, input⟩, { b with calls := ⟨op, input⟩ :: b.calls })

/-- One round of the loop of `poll_next`: it returns, or goes on with what it has accumulated; `none` when a call
of `encode` in it does not return. -/
def round (b : BrotliStream) (p : Drain) : Polled → Option (BrotliStream × (Output ⊕ Drain))
  | .item chunk =>
    match b.call enc chunk .process with
    | (.stuck, _) => none
    | (.failed, b) => some (b, .inl .error)
    | (.ok out, b) =>
      let p := { accumulated := p.accumulated ++ out, drained := p.drained + 1 : Drain }
      if p.drained ≥ drainBudget then
        match b.call enc [] .flush with
        | (.stuck, _) => none
        | (.failed, b) => some (b, .inl .error)
        | (.ok out, b) => some (b, .inl (.data (p.accumulated ++ out)))
      else some (b, .inr p)
  | .pending =>
    match b.call enc [] .flush with
    | (.stuck, _) => none
    | (.failed, b) => some (b, .inl .error)
    | (.ok out, b) =>
      some (b, .inl (if p.accumulated ++ out = [] then .pending else .data (p.accumulated ++ out)))
  | .failed => some ({ b with finished := true }, .inl .error)
  | .ended =>
    match { b with finished := true }.call enc [] .finish with
    | (.stuck, _) => none
    | (.failed, b) => some (b, .inl .error)
    | (.ok out, b) => some (b, .inl (if p.accumulated ++ out = [] then .done else .data (p.accumulated ++ out)))

variable {enc}

/-- Between two polls, none of which failed: everything emitted was returned, up to a flush or the end. -/
structure Between (enc : Encoder) (b : BrotliStream) (frames : Bytes) : Prop where
  output : enc.output b.calls = frames
  made : enc.Made b.calls
  settled : Settled b.calls
  tail : Unfinished b.calls.tail
  unfinished : b.finished = false → Unfinished b.calls
  ended : b.finished = true → ∃ c ∈ b.calls.head?, c.op = .finish

/-- Inside a poll: what was emitted since the last flush is accumulated. -/
structure During (enc : Encoder) (b : BrotliStream) (p : Drain) (frames : Bytes) : Prop where
  output : enc.output b.calls = frames ++ p.accumulated
  made : enc.Made b.calls
  emitted : enc.Emitted b.calls frames
  unfinished : Unfinished b.calls
  live : b.finished = false

/-- After an error of the source: the frames end at some flush, and the stream was not finished. -/
structure Failed (enc : Encoder) (b : BrotliStream) (frames : Bytes) : Prop where
  made : enc.Made b.calls
  emitted : enc.Emitted b.calls frames
  unfinished : Unfinished b.calls
  finished : b.finished = true

lemma Between.during {b : BrotliStream} {frames : Bytes} (h : Between enc b frames) (hb : b.finished = false) :
    During enc b {} frames where
  output := by rw [h.output, List.append_nil]
  made := h.made
  emitted := ⟨b.calls, List.suffix_refl _, h.settled, h.output⟩
  unfinished := h.unfinished hb
  live := hb

variable {decode : Bytes → Bytes} {b : BrotliStream} {p : Drain} {frames : Bytes}

lemma During.settle (h : During enc b p frames) {op : Op} (hop : op ≠ .process) {out : Bytes}
    (ho : enc.emit b.calls ⟨op, []⟩ = .ok out) {finished : Bool} (hf : op = .finish ↔ finished = true) :
    Between enc ⟨⟨op, []⟩ :: b.calls, finished⟩ (frames ++ (p.accumulated ++ out)) where
  output := by rw [Encoder.output_cons _ ho, h.output, List.append_assoc]
  made := h.made.cons enc (Or.inr rfl) ho
  settled := hop
  tail := h.unfinished
  unfinished := by
    rintro rfl
    exact unfinished_cons.mpr ⟨fun ho => Bool.noConfusion (hf.mp ho), h.unfinished⟩
  ended hfin := ⟨⟨op, []⟩, rfl, hf.mpr hfin⟩

lemma During.process (h : During enc b p frames) {chunk out : Bytes}
    (ho : enc.emit b.calls ⟨.process, chunk⟩ = .ok out) :
    During enc ⟨⟨.process, chunk⟩ :: b.calls, b.finished⟩ ⟨p.accumulated ++ out, p.drained + 1⟩ frames where
  output := by rw [Encoder.output_cons _ ho, h.output, List.append_assoc]
  made := h.made.cons enc (Or.inl rfl) ho
  emitted := h.emitted.cons enc _
  unfinished := unfinished_cons.mpr ⟨by simp, h.unfinished⟩
  live := h.live

lemma During.emits (hhonest : enc.Honest decode) (h : During enc b p frames) (c : Call) (hc : c.Plain) :
    enc.emit b.calls c = .stuck ∨ ∃ out, enc.emit b.calls c = .ok out :=
  hhonest.emits h.made h.unfinished hc

lemma round_item (hhonest : enc.Honest decode) (h : During enc b p frames) (chunk : Bytes)
    {r : BrotliStream × (Output ⊕ Drain)} (hr : b.round enc p (.item chunk) = some r) :
    (∃ b' frame, r = (b', .inl (.data frame)) ∧ Between enc b' (frames ++ frame) ∧
        fed b'.calls = fed b.calls ++ chunk ∧ b'.finished = false ∧ drainBudget ≤ p.drained + 1) ∨
      ∃ b' p', r = (b', .inr p') ∧ During enc b' p' frames ∧ fed b'.calls = fed b.calls ++ chunk ∧
        p'.drained = p.drained + 1 ∧ p'.drained < drainBudget := by
  rcases h.emits hhonest ⟨.process, chunk⟩ (Or.inl rfl) with ho | ⟨out, ho⟩
  · simp only [round, call, ho, reduceCtorEq] at hr
  · have hd := h.process ho
    simp only [round, call, ho] at hr
    split at hr
    · rename_i hbudget
      rcases hd.emits hhonest ⟨.flush, []⟩ (Or.inr rfl) with ho' | ⟨out', ho'⟩
      · simp only [ho', reduceCtorEq] at hr
      · simp only [ho'] at hr
        obtain rfl := Option.some.inj hr
        refine Or.inl ⟨_, _, rfl, hd.settle (by simp) ho' (by simp [h.live]), ?_, h.live, hbudget⟩
        simp [fed]
    · rename_i hbudget
      obtain rfl := Option.some.inj hr
      exact Or.inr ⟨_, _, rfl, hd, rfl, rfl, Nat.lt_of_not_le hbudget⟩

lemma round_pending (hhonest : enc.Honest decode) (h : During enc b p frames)
    {r : BrotliStream × (Output ⊕ Drain)} (hr : b.round enc p .pending = some r) :
    ∃ b' out, r = (b', .inl out) ∧ out ≠ .error ∧ out ≠ .done ∧ Between enc b' (frames ++ out.frame) ∧
      fed b'.calls = fed b.calls ∧ b'.finished = false := by
  rcases h.emits hhonest ⟨.flush, []⟩ (Or.inr rfl) with ho | ⟨out, ho⟩
  · simp only [round, call, ho, reduceCtorEq] at hr
  · have hb : Between enc ⟨⟨.flush, []⟩ :: b.calls, b.finished⟩ (frames ++ (p.accumulated ++ out)) :=
      h.settle (by simp) ho (by simp [h.live])
    simp only [round, call, ho] at hr
    obtain rfl := Option.some.inj hr
    by_cases hempty : p.accumulated ++ out = []
    · refine ⟨⟨⟨.flush, []⟩ :: b.calls, b.finished⟩, .pending, by rw [if_pos hempty], by simp, by simp,
        ?_, by simp [fed], h.live⟩
      simpa [hempty, Output.frame] using hb
    · exact ⟨⟨⟨.flush, []⟩ :: b.calls, b.finished⟩, .data _, by rw [if_neg hempty], by simp, by simp,
        hb, by simp [fed], h.live⟩

lemma round_ended (hhonest : enc.Honest decode) (h : During enc b p frames)
    {r : BrotliStream × (Output ⊕ Drain)} (hr : b.round enc p .ended = some r) :
    ∃ b' out, r = (b', .inl out) ∧ out ≠ .error ∧ out ≠ .pending ∧ Between enc b' (frames ++ out.frame) ∧
      fed b'.calls = fed b.calls ∧ b'.finished = true := by
  rcases h.emits hhonest ⟨.finish, []⟩ (Or.inr rfl) with ho | ⟨out, ho⟩
  · simp only [round, call, ho, reduceCtorEq] at hr
  · have hb : Between enc ⟨⟨.finish, []⟩ :: b.calls, true⟩ (frames ++ (p.accumulated ++ out)) :=
      h.settle (by simp) ho (by simp)
    simp only [round, call, ho] at hr
    obtain rfl := Option.some.inj hr
    by_cases hempty : p.accumulated ++ out = []
    · refine ⟨⟨⟨.finish, []⟩ :: b.calls, true⟩, .done, by rw [if_pos hempty], by simp, by simp,
        ?_, by simp [fed], rfl⟩
      simpa [hempty, Output.frame] using hb
    · exact ⟨⟨⟨.finish, []⟩ :: b.calls, true⟩, .data _, by rw [if_neg hempty], by simp, by simp,
        hb, by simp [fed], rfl⟩

lemma round_failed (h : During enc b p frames) :
    ∃ b', b.round enc p .failed = some (b', .inl .error) ∧ Failed enc b' frames ∧ fed b'.calls = fed b.calls :=
  ⟨_, rfl, ⟨h.made, h.emitted, h.unfinished, rfl⟩, rfl⟩

lemma round_returns (hlaw : enc.Lawful decode) (h : During enc b p frames) (polled : Polled) :
    ∃ r, b.round enc p polled = some r := by
  have hcall : ∀ {b' p'}, During enc b' p' frames → ∀ c : Call, c.Plain → ∃ out, enc.emit b'.calls c = .ok out :=
    fun hd c hc => (hd.emits hlaw.toHonest c hc).resolve_left (hlaw.returns _ c hd.made hd.unfinished hc)
  cases polled with
  | item chunk =>
    obtain ⟨out, ho⟩ := hcall h ⟨.process, chunk⟩ (Or.inl rfl)
    obtain ⟨out', ho'⟩ := hcall (h.process ho) ⟨.flush, []⟩ (Or.inr rfl)
    simp only [round, call, ho, ho']
    split <;> exact ⟨_, rfl⟩
  | pending =>
    obtain ⟨out, ho⟩ := hcall h ⟨.flush, []⟩ (Or.inr rfl)
    simp only [round, call, ho]
    exact ⟨_, rfl⟩
  | failed => exact ⟨_, rfl⟩
  | ended =>
    obtain ⟨out, ho⟩ := hcall h ⟨.finish, []⟩ (Or.inr rfl)
    simp only [round, call, ho]
    exact ⟨_, rfl⟩

lemma Between.decode_eq (hhonest : enc.Honest decode) (h : Between enc b frames) :
    decode frames = fed b.calls := by
  rw [← h.output, hhonest.decode_settled _ h.made h.tail h.settled]

lemma During.decode_isPrefix (hhonest : enc.Honest decode) (h : During enc b p frames) :
    decode frames <+: fed b.calls :=
  hhonest.decode_emitted h.made h.unfinished h.emitted

lemma Failed.decode_isPrefix (hhonest : enc.Honest decode) (h : Failed enc b frames) :
    decode frames <+: fed b.calls :=
  hhonest.decode_emitted h.made h.unfinished h.emitted

end BrotliStream

end HttpNu.Compression
