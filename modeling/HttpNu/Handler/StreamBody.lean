import HttpNu.Compression
import HttpNu.Library.Channel
import HttpNu.Library.Runs

/-! Stream bodies of normal responses, plain and compressed, with their cancellation. -/

namespace HttpNu.Handler.StreamBody

open Text Library Compression

inductive Body where
  | plain
  | brotli (b : BrotliStream)

/-- Where the poll in progress stands: at the token, or past it and at the channel. -/
inductive Phase where
  | idle
  | looking (p : Drain)
  | receiving (p : Drain)

structure State where
  rx : Mpsc Bytes
  cancelled : Bool
  live : Bool
  phase : Phase
  body : Body
  outputs : List Output
  /-- the token as the last poll of the source saw it -/
  tokenSeen : Bool

inductive Act where
  | send (chunk : Bytes)
  | close
  | cancel
  | poll
  | look
  | recv
  | starve

def channelCapacity : Nat := 32

def init (useBrotli : Bool) : State :=
  ⟨.new, false, true, .idle, if useBrotli then .brotli {} else .plain, [], false⟩

variable (enc : Encoder) (isSse : Bool)

def plainOutput : Polled → Output
  | .item chunk => .data chunk
  | .pending => .pending
  | .failed => .error
  | .ended => .done

/-- The body's reaction to what the poll of its source returned, if the encoder does not stick in it. -/
def State.react (s : State) (p : Drain) (polled : Polled) : Option State :=
  match s.body with
  | .plain => some { s with phase := .idle, outputs := s.outputs ++ [plainOutput polled] }
  | .brotli b =>
    match b.round enc p polled with
    | none => none
    | some (b, .inl out) => some { s with body := .brotli b, phase := .idle, outputs := s.outputs ++ [out] }
    | some (b, .inr p) => some { s with body := .brotli b, phase := .looking p }

def Body.finished : Body → Bool
  | .plain => false
  | .brotli b => b.finished

def step (s : State) : Act → Option State
  | .send chunk =>
    if s.rx.closed = false ∧ s.rx.queue.length < channelCapacity then some { s with rx := s.rx.send chunk }
    else none
  | .close => some { s with rx := s.rx.close }
  | .cancel => some { s with cancelled := true }
  | .poll =>
    match s.phase with
    | .idle =>
      if s.body.finished then some { s with outputs := s.outputs ++ [.done] }
      else some { s with phase := .looking {} }
    | _ => none
  | .look =>
    match s.phase with
    | .looking p =>
      if s.live = false then s.react enc p .ended
      else if isSse && s.cancelled then { s with live := false, tokenSeen := s.cancelled }.react enc p .failed
      else some { s with phase := .receiving p, tokenSeen := s.cancelled }
    | _ => none
  | .recv =>
    match s.phase with
    | .receiving p =>
      match s.rx.recv with
      | (.item chunk, rx) => { s with rx := rx }.react enc p (.item chunk)
      | (.empty, _) => s.react enc p .pending
      | (.disconnected, _) => { s with live := false }.react enc p .ended
    | _ => none
  -- the task's budget is used up: the source is pending whatever it holds
  | .starve =>
    match s.phase with
    | .looking p => if s.live then s.react enc p .pending else none
    | .receiving p => s.react enc p .pending
    | .idle => none

def Body.compressed : Body → Bool
  | .plain => false
  | .brotli _ => true

def frames (outputs : List Output) : Bytes := outputs.flatMap Output.frame

def State.delivered (decode : Bytes → Bytes) (s : State) : Bytes :=
  match s.body with
  | .plain => frames s.outputs
  | .brotli _ => decode (frames s.outputs)

def Body.finishWritten : Body → Bool
  | .plain => false
  | .brotli b => b.calls.any (fun c => c.op = .finish)

/-- The client sees the end of the body and no error before it, or the end of the compressed stream. -/
def State.EndedCleanly (s : State) : Prop :=
  (.done ∈ s.outputs ∧ .error ∉ s.outputs) ∨ s.body.finishWritten = true

def Quiet (outputs : List Output) : Prop := .error ∉ outputs ∧ .done ∉ outputs

namespace Body

def Between (enc : Encoder) (body : Body) (out got : Bytes) (ended : Bool) : Prop :=
  match body with
  | plain => out = got
  | brotli b => b.Between enc out ∧ fed b.calls = got ∧ b.finished = ended

def During (enc : Encoder) (body : Body) (p : Drain) (out got : Bytes) : Prop :=
  match body with
  | plain => out = got
  | brotli b => b.During enc p out ∧ fed b.calls = got

def Failed (enc : Encoder) (body : Body) (out got : Bytes) : Prop :=
  match body with
  | plain => out = got
  | brotli b => b.Failed enc out ∧ fed b.calls = got

end Body

variable {enc} {isSse} {decode : Bytes → Bytes} {s : State} {p : Drain} {got : Bytes}

lemma frames_snoc (outputs : List Output) (out : Output) :
    frames (outputs ++ [out]) = frames outputs ++ out.frame := by
  simp [frames]

lemma react_item (hlaw : enc.Lawful decode) (h : s.body.During enc p (frames s.outputs) got) (chunk : Bytes) :
    (∃ body frame, s.react enc p (.item chunk) =
          some { s with body := body, phase := .idle, outputs := s.outputs ++ [.data frame] } ∧
        body.Between enc (frames (s.outputs ++ [.data frame])) (got ++ chunk) false) ∨
      ∃ body p', s.react enc p (.item chunk) = some { s with body := body, phase := .looking p' } ∧
        body.During enc p' (frames s.outputs) (got ++ chunk) := by
  simp only [State.react, frames_snoc]
  cases hb : s.body with
  | plain =>
    rw [hb, Body.During] at h
    exact Or.inl ⟨.plain, chunk, rfl, by simp [Body.Between, h, Output.frame]⟩
  | brotli b =>
    rw [hb] at h
    obtain ⟨h, rfl⟩ := h
    obtain ⟨r, hr⟩ := BrotliStream.round_returns hlaw h (.item chunk)
    rcases BrotliStream.round_item hlaw.toHonest h chunk hr with
      ⟨b', frame, rfl, hbt, hf, hfin, _⟩ | ⟨b', p', rfl, hd, hf, _⟩
    · exact Or.inl ⟨.brotli b', frame, by simp only [hr], hbt, hf, hfin⟩
    · exact Or.inr ⟨.brotli b', p', by simp only [hr], hd, hf⟩

lemma react_pending (hlaw : enc.Lawful decode) (h : s.body.During enc p (frames s.outputs) got) :
    ∃ body out, s.react enc p .pending =
        some { s with body := body, phase := .idle, outputs := s.outputs ++ [out] } ∧ out ≠ .error ∧ out ≠ .done ∧
      body.Between enc (frames (s.outputs ++ [out])) got false := by
  simp only [State.react, frames_snoc]
  cases hb : s.body with
  | plain =>
    rw [hb, Body.During] at h
    exact ⟨.plain, .pending, rfl, by simp, by simp, by simp [Body.Between, h, Output.frame]⟩
  | brotli b =>
    rw [hb] at h
    obtain ⟨h, rfl⟩ := h
    obtain ⟨r, hr⟩ := BrotliStream.round_returns hlaw h .pending
    obtain ⟨b', out, rfl, he, hd, hbt, hf, hfin⟩ := BrotliStream.round_pending hlaw.toHonest h hr
    exact ⟨.brotli b', out, by simp only [hr], he, hd, hbt, hf, hfin⟩

lemma react_ended (hlaw : enc.Lawful decode) (h : s.body.During enc p (frames s.outputs) got) :
    ∃ body out, s.react enc p .ended =
        some { s with body := body, phase := .idle, outputs := s.outputs ++ [out] } ∧ out ≠ .error ∧
          out ≠ .pending ∧
      body.Between enc (frames (s.outputs ++ [out])) got true := by
  simp only [State.react, frames_snoc]
  cases hb : s.body with
  | plain =>
    rw [hb, Body.During] at h
    exact ⟨.plain, .done, rfl, by simp, by simp, by simp [Body.Between, h, Output.frame]⟩
  | brotli b =>
    rw [hb] at h
    obtain ⟨h, rfl⟩ := h
    obtain ⟨r, hr⟩ := BrotliStream.round_returns hlaw h .ended
    obtain ⟨b', out, rfl, he, hd, hbt, hf, hfin⟩ := BrotliStream.round_ended hlaw.toHonest h hr
    exact ⟨.brotli b', out, by simp only [hr], he, hd, hbt, hf, hfin⟩

lemma react_failed (h : s.body.During enc p (frames s.outputs) got) :
    ∃ body, s.react enc p .failed =
        some { s with body := body, phase := .idle, outputs := s.outputs ++ [.error] } ∧
      body.Failed enc (frames (s.outputs ++ [.error])) got := by
  simp only [State.react, frames_snoc]
  cases hb : s.body with
  | plain =>
    rw [hb, Body.During] at h
    exact ⟨.plain, rfl, by simp [Body.Failed, h, Output.frame]⟩
  | brotli b =>
    rw [hb] at h
    obtain ⟨h, rfl⟩ := h
    obtain ⟨b', hr, hf, hfed⟩ := BrotliStream.round_failed h
    exact ⟨.brotli b', by simp only [hr], by simpa [Output.frame] using hf, hfed⟩

/-- The channel was closed and emptied, and the poll that found its end saw no cancellation. -/
def Drained (isSse : Bool) (s : State) : Prop :=
  s.rx.closed = true ∧ s.rx.received = s.rx.sent ∧ (isSse = true → s.tokenSeen = false)

def Ended (isSse : Bool) (s : State) : Prop :=
  ∃ quiet n, Quiet quiet ∧ (s.outputs = quiet ++ .error :: List.replicate n .done ∨
    (s.outputs = quiet ++ List.replicate n .done ∧ Drained isSse s))

structure Inv (enc : Encoder) (isSse : Bool) (s : State) : Prop where
  body : match s.phase with
    | .idle =>
      if .error ∈ s.outputs then s.body.Failed enc (frames s.outputs) s.rx.received.flatten
      else s.body.Between enc (frames s.outputs) s.rx.received.flatten (!s.live)
    | .looking p =>
      s.body.During enc p (frames s.outputs) s.rx.received.flatten ∧ (s.live = false → s.body = .plain)
    | .receiving p =>
      s.body.During enc p (frames s.outputs) s.rx.received.flatten ∧ s.live = true ∧
        (isSse = true → s.tokenSeen = false)
  quiet : s.live = true → Quiet s.outputs
  ended : s.live = false → Ended isSse s

lemma quiet_snoc {outputs : List Output} (h : Quiet outputs) {out : Output} (he : out ≠ .error)
    (hd : out ≠ .done) : Quiet (outputs ++ [out]) := by
  simp [Quiet, h.1, h.2, he.symm, hd.symm]

lemma Ended.snoc_done {s s' : State} (h : Ended isSse s) (ho : s'.outputs = s.outputs ++ [.done])
    (hd : Drained isSse s → Drained isSse s') : Ended isSse s' := by
  obtain ⟨quiet, n, hq, h | ⟨h, hdr⟩⟩ := h
  · exact ⟨quiet, n + 1, hq, Or.inl (by simp [ho, h, List.replicate_succ'])⟩
  · exact ⟨quiet, n + 1, hq, Or.inr ⟨by simp [ho, h, List.replicate_succ'], hd hdr⟩⟩

lemma Ended.same {s s' : State} (h : Ended isSse s) (ho : s'.outputs = s.outputs)
    (hd : Drained isSse s → Drained isSse s') : Ended isSse s' := by
  obtain ⟨quiet, n, hq, h | ⟨h, hdr⟩⟩ := h
  · exact ⟨quiet, n, hq, Or.inl (ho.trans h)⟩
  · exact ⟨quiet, n, hq, Or.inr ⟨ho.trans h, hd hdr⟩⟩

lemma inv_init (useBrotli : Bool) : Inv enc isSse (init useBrotli) where
  body := by
    cases useBrotli with
    | false => rfl
    | true => refine ⟨⟨rfl, trivial, trivial, ?_, ?_, ?_⟩, rfl, rfl⟩ <;> simp [Unfinished]
  quiet _ := by simp [Quiet, init]
  ended h := by simp [init] at h

lemma inv_frame {s s' : State} (h : Inv enc isSse s) (hb : s'.body = s.body) (hp : s'.phase = s.phase)
    (ho : s'.outputs = s.outputs) (hl : s'.live = s.live) (ht : s'.tokenSeen = s.tokenSeen)
    (hr : s'.rx.received = s.rx.received) (hd : Drained isSse s → Drained isSse s') : Inv enc isSse s' where
  body := by simpa only [hb, hp, ho, hl, ht, hr] using h.body
  quiet := by simpa only [hl, ho] using h.quiet
  ended hl' := (h.ended (hl ▸ hl')).same ho hd

lemma inv_send {s' : State} {chunk : Bytes} (h : Inv enc isSse s)
    (hs : step enc isSse s (.send chunk) = some s') : Inv enc isSse s' := by
  simp only [step] at hs
  split at hs
  · rename_i hopen
    obtain rfl := Option.some.inj hs
    refine inv_frame h rfl rfl rfl rfl rfl (by simp) ?_
    rintro ⟨hc, _⟩
    simp [hc] at hopen
  · simp at hs

lemma inv_close {s' : State} (h : Inv enc isSse s) (hs : step enc isSse s .close = some s') :
    Inv enc isSse s' := by
  obtain rfl := Option.some.inj hs
  exact inv_frame h rfl rfl rfl rfl rfl rfl (fun ⟨_, hr, ht⟩ => ⟨rfl, hr, ht⟩)

lemma inv_cancel {s' : State} (h : Inv enc isSse s) (hs : step enc isSse s .cancel = some s') :
    Inv enc isSse s' := by
  obtain rfl := Option.some.inj hs
  exact inv_frame h rfl rfl rfl rfl rfl rfl id

lemma Inv.during (h : Inv enc isSse s) (hp : s.phase = .idle) (hf : s.body.finished = false) :
    s.body.During enc {} (frames s.outputs) s.rx.received.flatten ∧ (s.live = false → s.body = .plain) := by
  have hb := h.body
  rw [hp] at hb
  simp only at hb
  cases hbody : s.body with
  | plain =>
    rw [hbody] at hb
    refine ⟨?_, fun _ => rfl⟩
    split at hb <;> exact hb
  | brotli b =>
    rw [hbody] at hb hf
    split at hb
    · exact absurd hb.1.finished (by simpa [Body.finished] using hf)
    · obtain ⟨hbt, hfed, hfin⟩ := hb
      refine ⟨⟨hbt.during hf, hfed⟩, fun hl => ?_⟩
      rw [show b.finished = false from hf, hl] at hfin
      exact Bool.noConfusion hfin

lemma Inv.not_live (h : Inv enc isSse s) (hp : s.phase = .idle) (hf : s.body.finished = true) :
    s.live = false := by
  have hb := h.body
  rw [hp] at hb
  simp only at hb
  by_contra hl
  have hl : s.live = true := by simpa using hl
  rw [if_neg (h.quiet hl).1] at hb
  cases hbody : s.body with
  | plain => simp [hbody, Body.finished] at hf
  | brotli b =>
    rw [hbody] at hb hf
    have hfin := hb.2.2
    rw [show b.finished = true from hf, hl] at hfin
    exact Bool.noConfusion hfin

lemma inv_poll {s' : State} (h : Inv enc isSse s) (hs : step enc isSse s .poll = some s') :
    Inv enc isSse s' := by
  simp only [step] at hs
  split at hs
  · rename_i hp
    split at hs
    · rename_i hf
      obtain rfl := Option.some.inj hs
      have hl := h.not_live hp hf
      have hb := h.body
      rw [hp] at hb
      refine ⟨?_, fun hl' => absurd hl' (by simp [hl]), fun _ => (h.ended hl).snoc_done rfl id⟩
      rw [hp]
      simpa [frames_snoc, Output.frame] using hb
    · rename_i hf
      obtain rfl := Option.some.inj hs
      exact ⟨h.during hp (by simpa using hf), h.quiet, fun hl => (h.ended hl).same rfl id⟩
  · simp at hs

lemma inv_ended {s' : State} (hlaw : enc.Lawful decode) (h : Quiet s.outputs)
    (hd : s.body.During enc p (frames s.outputs) s.rx.received.flatten) (hl : s.live = false)
    (hdr : Drained isSse s) (hs : s.react enc p .ended = some s') : Inv enc isSse s' := by
  obtain ⟨body, out, hr, he, _, hb⟩ := react_ended hlaw hd
  obtain rfl := Option.some.inj (hr.symm.trans hs)
  have hmem : Output.error ∉ s.outputs ++ [out] := by simp [h.1, he.symm]
  refine ⟨by simpa only [hmem, if_false, hl, Bool.not_false] using hb,
    fun hl' => absurd hl' (by simp [hl]), fun _ => ?_⟩
  by_cases hdone : out = .done
  · exact ⟨s.outputs, 1, h, Or.inr ⟨by simp [hdone], hdr⟩⟩
  · exact ⟨s.outputs ++ [out], 0, quiet_snoc h he hdone, Or.inr ⟨by simp, hdr⟩⟩

lemma inv_pending {s' : State} (hlaw : enc.Lawful decode) (h : Quiet s.outputs)
    (hd : s.body.During enc p (frames s.outputs) s.rx.received.flatten) (hl : s.live = true)
    (hs : s.react enc p .pending = some s') : Inv enc isSse s' := by
  obtain ⟨body, out, hr, he, hdone, hb⟩ := react_pending hlaw hd
  obtain rfl := Option.some.inj (hr.symm.trans hs)
  have hq := quiet_snoc h he hdone
  refine ⟨by simpa only [hq.1, if_false, hl, Bool.not_true] using hb, fun _ => hq,
    fun hl' => absurd hl' (by simp [hl])⟩

lemma inv_failed {s' : State} (h : Quiet s.outputs)
    (hd : s.body.During enc p (frames s.outputs) s.rx.received.flatten) (hl : s.live = false)
    (hs : s.react enc p .failed = some s') : Inv enc isSse s' := by
  obtain ⟨body, hr, hb⟩ := react_failed hd
  obtain rfl := Option.some.inj (hr.symm.trans hs)
  refine ⟨by simpa using hb, fun hl' => absurd hl' (by simp [hl]), fun _ => ?_⟩
  exact ⟨s.outputs, 0, h, Or.inl (by simp)⟩

lemma inv_item {s' : State} (hlaw : enc.Lawful decode) {chunk : Bytes} {got : Bytes} (h : Quiet s.outputs)
    (hd : s.body.During enc p (frames s.outputs) got) (hl : s.live = true)
    (hgot : s.rx.received.flatten = got ++ chunk) (hs : s.react enc p (.item chunk) = some s') :
    Inv enc isSse s' := by
  rcases react_item hlaw hd chunk with ⟨body, frame, hr, hb⟩ | ⟨body, p', hr, hb⟩
  · have hq : Quiet (s.outputs ++ [.data frame]) := quiet_snoc h (by simp) (by simp)
    obtain rfl := Option.some.inj (hr.symm.trans hs)
    exact ⟨by simpa only [hq.1, if_false, hl, hgot, Bool.not_true] using hb, fun _ => hq,
      fun hl' => absurd hl' (by simp [hl])⟩
  · obtain rfl := Option.some.inj (hr.symm.trans hs)
    exact ⟨⟨hgot ▸ hb, fun hl' => absurd hl' (by simp [hl])⟩, fun _ => h, fun hl' => absurd hl' (by simp [hl])⟩

lemma inv_dead {s' : State} (h : Inv enc isSse s)
    (hd : s.body.During enc p (frames s.outputs) s.rx.received.flatten) (hl : s.live = false)
    (hplain : s.body = .plain) (hs : s.react enc p .ended = some s') : Inv enc isSse s' := by
  have hr : s.react enc p .ended = some { s with phase := .idle, outputs := s.outputs ++ [.done] } := by
    simp only [State.react, hplain, plainOutput]
  obtain rfl := Option.some.inj (hr.symm.trans hs)
  refine ⟨?_, fun hl' => absurd hl' (by simp [hl]), fun _ => (h.ended hl).snoc_done rfl id⟩
  rw [hplain] at hd
  simp only [hplain, Body.Failed, Body.Between, ite_self, frames_snoc, Output.frame, List.append_nil]
  exact hd

lemma inv_look {s' : State} (h : Inv enc isSse s)
    (hs : step enc isSse s .look = some s') : Inv enc isSse s' := by
  simp only [step] at hs
  split at hs
  · rename_i p hp
    have hb := h.body
    rw [hp] at hb
    obtain ⟨hd, hplain⟩ := hb
    split at hs
    · rename_i hl
      exact inv_dead h hd hl (hplain hl) hs
    · rename_i hl
      have hl : s.live = true := by simpa using hl
      split at hs
      · exact inv_failed (s := { s with live := false, tokenSeen := s.cancelled }) (h.quiet hl) hd rfl hs
      · rename_i hc
        obtain rfl := Option.some.inj hs
        refine ⟨⟨hd, hl, fun hsse => ?_⟩, fun _ => h.quiet hl, fun hl' => absurd hl' (by simp [hl])⟩
        simpa [hsse] using hc
  · simp at hs

lemma inv_recv (hlaw : enc.Lawful decode) {s' : State} (h : Inv enc isSse s)
    (hs : step enc isSse s .recv = some s') : Inv enc isSse s' := by
  simp only [step] at hs
  split at hs
  · rename_i p hp
    have hb := h.body
    rw [hp] at hb
    obtain ⟨hd, hl, ht⟩ := hb
    split at hs
    · rename_i chunk rx hrx
      obtain ⟨_, _, hgot⟩ := Mpsc.recv_item hrx
      exact inv_item (s := { s with rx := rx }) hlaw (h.quiet hl) hd hl (by simp [hgot]) hs
    · exact inv_pending hlaw (h.quiet hl) hd hl hs
    · rename_i rx hrx
      obtain ⟨_, hclosed, hgot⟩ := Mpsc.recv_disconnected hrx
      exact inv_ended (s := { s with live := false }) hlaw (h.quiet hl) hd rfl ⟨hclosed, hgot, ht⟩ hs
  · simp at hs

lemma inv_starve (hlaw : enc.Lawful decode) {s' : State} (h : Inv enc isSse s)
    (hs : step enc isSse s .starve = some s') : Inv enc isSse s' := by
  simp only [step] at hs
  have hb := h.body
  split at hs
  · rename_i p hp
    rw [hp] at hb
    split at hs
    · rename_i hl
      exact inv_pending hlaw (h.quiet hl) hb.1 hl hs
    · simp at hs
  · rename_i p hp
    rw [hp] at hb
    exact inv_pending hlaw (h.quiet hb.2.1) hb.1 hb.2.1 hs
  · simp at hs

lemma inv_step (hlaw : enc.Lawful decode) (s : State) (a : Act) (s' : State) (h : Inv enc isSse s)
    (hs : step enc isSse s a = some s') : Inv enc isSse s' := by
  cases a with
  | send chunk => exact inv_send h hs
  | close => exact inv_close h hs
  | cancel => exact inv_cancel h hs
  | poll => exact inv_poll h hs
  | look => exact inv_look h hs
  | recv => exact inv_recv hlaw h hs
  | starve => exact inv_starve hlaw h hs

lemma inv_run (hlaw : enc.Lawful decode) {useBrotli : Bool} {acts : List Act}
    (h : run (step enc isSse) (init useBrotli) acts = some s) : Inv enc isSse s :=
  run_invariant (inv_step hlaw) (inv_init useBrotli) h

lemma Inv.delivered_prefix (hlaw : enc.Lawful decode) (h : Inv enc isSse s) :
    s.delivered decode <+: s.rx.received.flatten := by
  have hb := h.body
  rw [State.delivered]
  cases hbody : s.body with
  | plain =>
    have hgot : frames s.outputs = s.rx.received.flatten := by
      rw [hbody] at hb
      split at hb
      · split at hb <;> exact hb
      · exact hb.1
      · exact hb.1
    exact hgot ▸ List.prefix_refl _
  | brotli b =>
    rw [hbody] at hb
    split at hb
    · split at hb
      · exact hb.2 ▸ hb.1.decode_isPrefix hlaw.toHonest
      · rw [hb.1.decode_eq hlaw.toHonest, hb.2.1]
    · exact hb.1.2 ▸ hb.1.1.decode_isPrefix hlaw.toHonest
    · exact hb.1.2 ▸ hb.1.1.decode_isPrefix hlaw.toHonest

lemma Inv.delivered_eq (hlaw : enc.Lawful decode) (h : Inv enc isSse s) (hl : s.live = false)
    (he : .error ∉ s.outputs) : s.delivered decode = s.rx.received.flatten := by
  have hb := h.body
  rw [State.delivered]
  cases hbody : s.body with
  | plain =>
    rw [hbody] at hb
    split at hb
    · split at hb <;> exact hb
    · exact hb.1
    · exact hb.1
  | brotli b =>
    rw [hbody] at hb
    split at hb
    · rw [if_neg he] at hb
      exact (hb.1.decode_eq hlaw.toHonest).trans hb.2.1
    · exact absurd (hb.2 hl) (by simp)
    · simp [hl] at hb

lemma Inv.finishWritten (h : Inv enc isSse s) (hf : s.body.finishWritten = true) :
    s.live = false ∧ .error ∉ s.outputs := by
  have hb := h.body
  cases hbody : s.body with
  | plain => simp [hbody, Body.finishWritten] at hf
  | brotli b =>
    have hfin : ¬ Unfinished b.calls := by
      rw [hbody, Body.finishWritten, List.any_eq_true] at hf
      obtain ⟨c, hc, hop⟩ := hf
      exact fun hu => hu c hc (by simpa using hop)
    rw [hbody] at hb
    split at hb
    · split at hb
      · exact absurd hb.1.unfinished hfin
      · rename_i he
        obtain ⟨hbt, _, hl⟩ := hb
        refine ⟨?_, he⟩
        cases hlive : s.live with
        | false => rfl
        | true => exact absurd (hbt.unfinished (by simpa [hlive] using hl)) hfin
    · exact absurd hb.1.1.unfinished hfin
    · exact absurd hb.1.1.unfinished hfin

lemma Inv.endedCleanly (h : Inv enc isSse s) (he : s.EndedCleanly) :
    s.live = false ∧ .error ∉ s.outputs ∧ Drained isSse s := by
  have hend : s.live = false ∧ .error ∉ s.outputs := by
    rcases he with ⟨hd, he⟩ | hf
    · refine ⟨?_, he⟩
      by_contra hl
      exact (h.quiet (by simpa using hl)).2 hd
    · exact h.finishWritten hf
  obtain ⟨quiet, n, _, ho | ⟨_, hdr⟩⟩ := h.ended hend.1
  · exact absurd (by simp [ho]) hend.2
  · exact ⟨hend.1, hend.2, hdr⟩

lemma Inv.error_once (h : Inv enc isSse s) (he : .error ∈ s.outputs) :
    s.body.finishWritten = false ∧
      ∃ quiet n, Quiet quiet ∧ s.outputs = quiet ++ .error :: List.replicate n .done := by
  constructor
  · by_contra hf
    exact (h.finishWritten (by simpa using hf)).2 he
  · have hl : s.live = false := by
      by_contra hl
      exact (h.quiet (by simpa using hl)).1 he
    obtain ⟨quiet, n, hq, ho | ⟨ho, _⟩⟩ := h.ended hl
    · exact ⟨quiet, n, hq, ho⟩
    · rw [ho] at he
      simp [hq.1, List.mem_replicate] at he

lemma react_frame {s t : State} {p : Drain} {polled : Polled} (hs : s.react enc p polled = some t) :
    t.live = s.live ∧ t.cancelled = s.cancelled ∧ (∀ p', t.phase ≠ .receiving p') ∧ s.outputs <+: t.outputs ∧
      t.body.compressed = s.body.compressed := by
  simp only [State.react] at hs
  split at hs
  · obtain rfl := Option.some.inj hs
    simp
  · rename_i b hb
    split at hs
    · cases hs
    · obtain rfl := Option.some.inj hs
      simp [hb, Body.compressed]
    · obtain rfl := Option.some.inj hs
      simp [hb, Body.compressed]

/-- Cancelled while no poll had looked at the token and not yet at the channel, or failed since. -/
def Doomed (s : State) : Prop :=
  s.cancelled = true ∧ ((s.live = true ∧ ∀ p, s.phase ≠ .receiving p) ∨ .error ∈ s.outputs)

lemma react_failed_returns (enc : Encoder) (s : State) (p : Drain) : ∃ t, s.react enc p .failed = some t := by
  simp only [State.react]
  split <;> exact ⟨_, rfl⟩

lemma react_failed_error {s t : State} {p : Drain} (hs : s.react enc p .failed = some t) : .error ∈ t.outputs := by
  simp only [State.react] at hs
  split at hs
  · obtain rfl := Option.some.inj hs
    simp [plainOutput]
  · obtain rfl := Option.some.inj hs
    simp

lemma step_mono {s s' : State} {a : Act} (hs : step enc isSse s a = some s') :
    (s.cancelled = true → s'.cancelled = true) ∧ s.outputs <+: s'.outputs ∧
      s'.body.compressed = s.body.compressed := by
  have hreact : ∀ {t : State} {p polled}, t.react enc p polled = some s' → t.cancelled = s.cancelled →
      t.outputs = s.outputs → t.body = s.body → (s.cancelled = true → s'.cancelled = true) ∧
        s.outputs <+: s'.outputs ∧ s'.body.compressed = s.body.compressed := by
    intro t p polled hs hc ho hb
    obtain ⟨_, hc', _, ho', hb'⟩ := react_frame hs
    exact ⟨fun h => by rw [hc', hc, h], ho ▸ ho', hb ▸ hb'⟩
  cases a with
  | send chunk =>
    simp only [step] at hs
    split at hs
    · obtain rfl := Option.some.inj hs
      simp
    · simp at hs
  | close =>
    obtain rfl := Option.some.inj hs
    simp
  | cancel =>
    obtain rfl := Option.some.inj hs
    simp
  | poll =>
    simp only [step] at hs
    split at hs
    · split at hs <;> obtain rfl := Option.some.inj hs <;> simp
    · simp at hs
  | look =>
    simp only [step] at hs
    split at hs
    · split at hs
      · exact hreact hs rfl rfl rfl
      · split at hs
        · exact hreact hs rfl rfl rfl
        · obtain rfl := Option.some.inj hs
          simp
    · simp at hs
  | recv =>
    simp only [step] at hs
    split at hs
    · split at hs <;> exact hreact hs rfl rfl rfl
    · simp at hs
  | starve =>
    simp only [step] at hs
    split at hs
    · split at hs
      · exact hreact hs rfl rfl rfl
      · simp at hs
    · exact hreact hs rfl rfl rfl
    · simp at hs

lemma doomed_step (s : State) (a : Act) (s' : State) (hd : Doomed s) (hs : step enc true s a = some s') :
    Doomed s' := by
  obtain ⟨hmono, hout, _⟩ := step_mono hs
  obtain ⟨hc, ⟨hl, hp⟩ | he⟩ := hd
  swap
  · exact ⟨hmono hc, Or.inr (hout.mem he)⟩
  refine ⟨hmono hc, ?_⟩
  cases a with
  | send chunk =>
    simp only [step] at hs
    split at hs
    · obtain rfl := Option.some.inj hs
      exact Or.inl ⟨hl, hp⟩
    · simp at hs
  | close =>
    obtain rfl := Option.some.inj hs
    exact Or.inl ⟨hl, hp⟩
  | cancel =>
    obtain rfl := Option.some.inj hs
    exact Or.inl ⟨hl, hp⟩
  | poll =>
    simp only [step] at hs
    split at hs
    · split at hs <;> obtain rfl := Option.some.inj hs
      · exact Or.inl ⟨hl, hp⟩
      · exact Or.inl ⟨hl, by simp⟩
    · simp at hs
  | look =>
    simp only [step, hl, hc, Bool.true_eq_false, if_false, Bool.and_self, if_true] at hs
    split at hs
    · exact Or.inr (react_failed_error hs)
    · simp at hs
  | recv =>
    cases hphase : s.phase with
    | receiving p => exact absurd hphase (hp p)
    | _ => simp [step, hphase] at hs
  | starve =>
    simp only [step, hl] at hs
    split at hs
    · obtain ⟨hl', _, hp', _⟩ := react_frame hs
      exact Or.inl ⟨hl'.trans hl, hp'⟩
    · rename_i p hr
      exact absurd hr (hp p)
    · simp at hs

lemma Inv.doomed_fails (h : Inv enc true s) (hd : Doomed s) :
    .error ∈ s.outputs ∨ ∃ polls ∈ [[Act.look], [Act.poll, Act.look]], ∃ s',
      run (step enc true) s polls = some s' ∧ .error ∈ s'.outputs := by
  obtain ⟨hc, ⟨hl, hp⟩ | he⟩ := hd
  swap
  · exact Or.inl he
  right
  cases hphase : s.phase with
  | idle =>
    have hf : s.body.finished = false := by
      by_contra hf
      simp [h.not_live hphase (by simpa using hf)] at hl
    refine ⟨[.poll, .look], by simp, ?_⟩
    obtain ⟨t, ht⟩ :=
      react_failed_returns enc { s with phase := .looking {}, live := false, tokenSeen := s.cancelled } {}
    have hlook : step enc true { s with phase := .looking {} } .look = some t := by
      simpa only [step, hl, hc, Bool.true_eq_false, if_false, Bool.and_self, if_true] using ht
    have hpoll : step enc true s .poll = some { s with phase := .looking {} } := by simp [step, hphase, hf]
    exact ⟨t, run_cons.mpr ⟨_, hpoll, run_of_step hlook⟩, react_failed_error ht⟩
  | looking p =>
    refine ⟨[.look], by simp, ?_⟩
    obtain ⟨t, ht⟩ := react_failed_returns enc { s with live := false, tokenSeen := s.cancelled } p
    have hlook : step enc true s .look = some t := by
      simpa only [step, hphase, hl, hc, Bool.true_eq_false, if_false, Bool.and_self, if_true] using ht
    exact ⟨t, run_of_step hlook, react_failed_error ht⟩
  | receiving p => exact absurd hphase (hp p)

lemma compressed_run {useBrotli : Bool} {acts : List Act}
    (h : run (step enc isSse) (init useBrotli) acts = some s) : s.body.compressed = useBrotli :=
  run_invariant (P := fun s => s.body.compressed = useBrotli)
    (fun _ _ _ hb hs => (step_mono hs).2.2.trans hb) (by cases useBrotli <;> rfl) h

lemma Inv.encoder_finished (h : Inv enc isSse s) (he : s.EndedCleanly) {b : BrotliStream}
    (hbody : s.body = .brotli b) :
    ∃ call earlier, b.calls = call :: earlier ∧ call.op = .finish ∧ Unfinished earlier ∧ enc.Made b.calls ∧
      enc.output b.calls = frames s.outputs ∧ fed b.calls = s.rx.received.flatten := by
  obtain ⟨hl, hmem, _⟩ := h.endedCleanly he
  have hb := h.body
  rw [hbody] at hb
  split at hb
  · rw [if_neg hmem] at hb
    obtain ⟨hbt, hfed, hfin⟩ := hb
    obtain ⟨call, hcall, hop⟩ := hbt.ended (by simp [hfin, hl])
    obtain ⟨earlier, hcalls⟩ := List.head?_eq_some_iff.mp hcall
    exact ⟨call, earlier, hcalls, hop, by simpa [hcalls] using hbt.tail, hbt.made, hbt.output, hfed⟩
  · exact absurd (hb.2 hl) (by simp)
  · simp [hl] at hb

theorem sseBody_cancellation (hlaw : enc.Lawful decode) {useBrotli : Bool} {acts : List Act}
    (h : run (step enc true) (init useBrotli) acts = some s) :
    s.delivered decode <+: s.rx.sent.flatten ∧
      (s.EndedCleanly →
        s.rx.closed = true ∧ s.delivered decode = s.rx.sent.flatten ∧ s.tokenSeen = false) ∧
      (∀ pre post s₀, acts = pre ++ .cancel :: post → run (step enc true) (init useBrotli) pre = some s₀ →
        s₀.live = true → (∀ p, s₀.phase ≠ .receiving p) →
        ¬ s.EndedCleanly ∧ s.body.finishWritten = false ∧
          (.error ∈ s.outputs ∨ ∃ polls ∈ [[Act.look], [Act.poll, Act.look]], ∃ s',
            run (step enc true) s polls = some s' ∧ .error ∈ s'.outputs)) ∧
      (.error ∈ s.outputs → s.body.finishWritten = false ∧
        ∃ quiet n, Quiet quiet ∧ s.outputs = quiet ++ .error :: List.replicate n .done) := by
  have hinv := inv_run hlaw h
  refine ⟨?_, fun he => ?_, fun pre post s₀ hacts hpre hl hp => ?_, hinv.error_once⟩
  · exact (hinv.delivered_prefix hlaw).trans (List.IsPrefix.flatten s.rx.received_prefix)
  · obtain ⟨hl, hmem, hclosed, hgot, ht⟩ := hinv.endedCleanly he
    exact ⟨hclosed, by rw [hinv.delivered_eq hlaw hl hmem, hgot], ht rfl⟩
  · rw [hacts, run_append] at h
    obtain ⟨t, ht, h⟩ := h
    obtain rfl := Option.some.inj (hpre.symm.trans ht)
    obtain ⟨u, hu, h⟩ := run_cons.mp h
    obtain rfl := Option.some.inj hu
    have hcancel : Doomed { s₀ with cancelled := true } := ⟨rfl, Or.inl ⟨hl, hp⟩⟩
    have hd : Doomed s := run_invariant doomed_step hcancel h
    have hclean : ¬ s.EndedCleanly := by
      intro he
      obtain ⟨hl', hmem, _⟩ := hinv.endedCleanly he
      rcases hd.2 with ⟨hl, _⟩ | he
      · simp [hl] at hl'
      · exact hmem he
    refine ⟨hclean, ?_, hinv.doomed_fails hd⟩
    by_contra hf
    exact hclean (Or.inr (by simpa using hf))

def reloadedRun : List Act :=
  [.send [1, 2], .poll, .look, .recv, .look, .recv, .send [3], .cancel, .poll, .look, .close, .poll]

theorem sseBody_cancellation_reloaded :
    ∃ s, run (step .framed true) (init true) reloadedRun = some s ∧
      s.outputs = [.data [1, 1, 1, 2], .error, .done] ∧ s.delivered Encoder.unframe <+: s.rx.sent.flatten ∧
      s.body.finishWritten = false := by
  obtain ⟨s, hs⟩ := Option.isSome_iff_exists.mp
    (by decide : (run (step .framed true) (init true) reloadedRun).isSome = true)
  have ho : (run (step .framed true) (init true) reloadedRun).map State.outputs =
      some [.data [1, 1, 1, 2], .error, .done] := by decide
  rw [hs] at ho
  have hout : s.outputs = [.data [1, 1, 1, 2], .error, .done] := Option.some.inj ho
  obtain ⟨hpre, _, _, herror⟩ := sseBody_cancellation Encoder.framed_lawful hs
  exact ⟨s, hs, hout, hpre, (herror (by simp [hout])).1⟩

end HttpNu.Handler.StreamBody
