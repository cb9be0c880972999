import HttpNu.Compression.Encode
import HttpNu.Library.Runs

/-! `BrotliStream::poll_next` over whole runs: what its frames say about the chunks of the inner stream. -/

namespace HttpNu.Compression

open Text Library

variable {ε : Type}

inductive Inner (ε : Type) where
  | item (chunk : Bytes)
  | pending
  | failed (err : ε)
  | ended

def Inner.polled : Inner ε → Polled
  | .item chunk => .item chunk
  | .pending => .pending
  | .failed _ => .failed
  | .ended => .ended

def Inner.chunk? : Inner ε → Option Bytes
  | .item chunk => some chunk
  | _ => none

/-- The errors that `poll_next` yields: the one of the inner stream, or its own. -/
inductive PollError (ε : Type) where
  | inner (err : ε)
  | compressionFailed

inductive Returned (ε : Type) where
  | data (frame : Bytes)
  | error (err : PollError ε)
  | done
  | pending

def Returned.frame : Returned ε → Bytes
  | .data frame => frame
  | _ => []

/-- A round that returns an error passes on the one it was given, if any. -/
def returned (result : Inner ε) : Output → Returned ε
  | .data frame => .data frame
  | .error =>
    match result with
    | .failed err => .error (.inner err)
    | _ => .error .compressionFailed
  | .done => .done
  | .pending => .pending

/-- A call of `poll_next`: the results it got from the inner stream, and what it returned. -/
structure Poll (ε : Type) where
  results : List (Inner ε)
  returned : Returned ε

structure Polling (ε : Type) where
  stream : BrotliStream := {}
  drain : Option Drain := none
  got : List (Inner ε) := []
  polls : List (Poll ε) := []

inductive Act (ε : Type) where
  | poll
  | inner (result : Inner ε)

variable (enc : Encoder)

/-- A call that does not return ends the run. -/
def Polling.step (s : Polling ε) : Act ε → Option (Polling ε)
  | .poll =>
    match s.drain with
    | some _ => none
    | none =>
      if s.stream.finished then some { s with polls := s.polls ++ [⟨[], .done⟩] }
      else some { s with drain := some {} }
  | .inner result =>
    match s.drain with
    | none => none
    | some p =>
      match s.stream.round enc p result.polled with
      | none => none
      | some (stream, .inl out) =>
        some ⟨stream, none, [], s.polls ++ [⟨s.got ++ [result], returned result out⟩]⟩
      | some (stream, .inr p) => some ⟨stream, some p, s.got ++ [result], s.polls⟩

def chunksOf (results : List (Inner ε)) : List Bytes := results.filterMap Inner.chunk?

def Poll.chunks (q : Poll ε) : List Bytes := chunksOf q.results

def consumed (polls : List (Poll ε)) : Bytes := (polls.flatMap Poll.chunks).flatten

def framesOf (polls : List (Poll ε)) : Bytes := polls.flatMap (fun q => q.returned.frame)

/-- Up to a budget's worth of chunks, then the result at which the call returned. -/
def Poll.After (q : Poll ε) (last : Inner ε) : Prop :=
  ∃ chunks : List Bytes, chunks.length < drainBudget ∧ q.results = chunks.map .item ++ [last]

def Poll.returnsData (q : Poll ε) : Prop := ∃ frame, q.returned = .data frame

/-- The source was idle, or the budget was used up. -/
def Poll.Live (q : Poll ε) : Prop :=
  (q.After .pending ∧ (q.returned = .pending ∨ q.returnsData)) ∨
    ((∃ chunks : List Bytes, chunks.length = drainBudget ∧ q.results = chunks.map .item) ∧ q.returnsData)

def Poll.Ends (q : Poll ε) : Prop := q.After .ended ∧ (q.returned = .done ∨ q.returnsData)

def Poll.Fails (q : Poll ε) : Prop := ∃ err, q.After (.failed err) ∧ q.returned = .error (.inner err)

structure Inv (decode : Bytes → Bytes) (s : Polling ε) : Prop where
  fed : fed s.stream.calls = consumed s.polls ++ (chunksOf s.got).flatten
  draining : ∀ p, s.drain = some p → BrotliStream.During enc s.stream p (framesOf s.polls) ∧
    p.drained < drainBudget ∧ ∃ chunks : List Bytes, chunks.length = p.drained ∧ s.got = chunks.map .item
  resting : s.drain = none → s.got = []
  live : s.stream.finished = false → (∀ q ∈ s.polls, q.Live) ∧ decode (framesOf s.polls) = consumed s.polls ∧
    (s.drain = none → BrotliStream.Between enc s.stream (framesOf s.polls))
  finished : s.stream.finished = true → s.drain = none ∧ ∃ earlier last n,
    s.polls = earlier ++ last :: List.replicate n ⟨[], .done⟩ ∧ (∀ q ∈ earlier, q.Live) ∧
      ((last.Ends ∧ BrotliStream.Between enc s.stream (framesOf s.polls)) ∨
        (last.Fails ∧ BrotliStream.Failed enc s.stream (framesOf s.polls)))

variable {enc} {decode : Bytes → Bytes} {s s' : Polling ε}

lemma consumed_snoc (polls : List (Poll ε)) (q : Poll ε) :
    consumed (polls ++ [q]) = consumed polls ++ q.chunks.flatten := by
  simp [consumed]

lemma framesOf_snoc (polls : List (Poll ε)) (q : Poll ε) :
    framesOf (polls ++ [q]) = framesOf polls ++ q.returned.frame := by
  simp [framesOf]

lemma chunksOf_snoc (results : List (Inner ε)) (result : Inner ε) :
    (chunksOf (results ++ [result])).flatten = (chunksOf results).flatten ++ result.chunk?.getD [] := by
  cases result <;> simp [chunksOf, Inner.chunk?]

lemma returned_frame (result : Inner ε) (out : Output) : (returned result out).frame = out.frame := by
  cases out with
  | error => cases result <;> rfl
  | _ => rfl

lemma inv_init (hhonest : enc.Honest decode) : Inv enc decode ({} : Polling ε) where
  fed := rfl
  draining p h := by cases h
  resting _ := rfl
  live _ := by
    have hb : BrotliStream.Between enc {} [] :=
      ⟨rfl, trivial, trivial, by simp [Unfinished], by simp [Unfinished], by simp⟩
    exact ⟨by simp, hb.decode_eq hhonest, fun _ => hb⟩
  finished h := by cases h

lemma inv_poll (h : Inv enc decode s) (hs : s.step enc .poll = some s') : Inv enc decode s' := by
  simp only [Polling.step] at hs
  split at hs
  · cases hs
  · rename_i hrest
    split at hs
    · rename_i hfin
      obtain rfl := Option.some.inj hs
      obtain ⟨_, earlier, last, n, hpolls, hlive, hlast⟩ := h.finished hfin
      have hframes : framesOf (s.polls ++ [⟨[], .done⟩]) = framesOf s.polls := by
        simp [framesOf_snoc, Returned.frame]
      have hconsumed : consumed (s.polls ++ [⟨[], .done⟩]) = consumed s.polls := by
        simp [consumed_snoc, Poll.chunks, chunksOf]
      refine ⟨?_, fun p hp => ?_, h.resting, fun hl => ?_, fun _ => ⟨hrest, earlier, last, n + 1, ?_, hlive, ?_⟩⟩
      · simpa only [hconsumed] using h.fed
      · rw [hrest] at hp
        cases hp
      · rw [hfin] at hl
        cases hl
      · simp [hpolls, List.replicate_succ']
      · simpa only [hframes] using hlast
    · rename_i hfin
      rw [Bool.not_eq_true] at hfin
      obtain rfl := Option.some.inj hs
      obtain ⟨hlive, hdecode, hbetween⟩ := h.live hfin
      refine ⟨h.fed, fun p hp => ?_, fun hd => (by cases hd), fun _ => ⟨hlive, hdecode, fun hd => by cases hd⟩,
        fun hl => ?_⟩
      · obtain rfl := Option.some.inj hp
        exact ⟨(hbetween hrest).during hfin, by decide, [], rfl, h.resting hrest⟩
      · rw [hfin] at hl
        cases hl

lemma Inv.consumed_snoc (h : Inv enc decode s) (result : Inner ε) (ret : Returned ε) :
    consumed (s.polls ++ [⟨s.got ++ [result], ret⟩]) = Library.fed s.stream.calls ++ result.chunk?.getD [] := by
  rw [Compression.consumed_snoc, Poll.chunks, chunksOf_snoc, h.fed, List.append_assoc]

lemma Inv.consumed_quiet (h : Inv enc decode s) {result : Inner ε} (hquiet : result.chunk? = none)
    (ret : Returned ε) :
    consumed (s.polls ++ [⟨s.got ++ [result], ret⟩]) = Library.fed s.stream.calls := by
  rw [h.consumed_snoc, hquiet, Option.getD_none, List.append_nil]

lemma inv_return (hhonest : enc.Honest decode) (h : Inv enc decode s) (hlive : s.stream.finished = false)
    {b : BrotliStream} {q : Poll ε} (hq : q.Live)
    (hb : BrotliStream.Between enc b (framesOf s.polls ++ q.returned.frame))
    (hfed : fed b.calls = consumed (s.polls ++ [q])) (hfin : b.finished = false) :
    Inv enc decode ⟨b, none, [], s.polls ++ [q]⟩ where
  fed := by simpa [chunksOf] using hfed
  draining p hp := by cases hp
  resting _ := rfl
  live _ := by
    rw [← framesOf_snoc] at hb
    refine ⟨?_, by rw [hb.decode_eq hhonest, hfed], fun _ => hb⟩
    intro q' hq'
    rcases List.mem_append.mp hq' with hq' | hq'
    · exact (h.live hlive).1 q' hq'
    · exact List.mem_singleton.mp hq' ▸ hq
  finished hl := by
    rw [show b.finished = true from hl] at hfin
    cases hfin

lemma inv_finish (h : Inv enc decode s) (hlive : s.stream.finished = false) {b : BrotliStream} {q : Poll ε}
    (hq : (q.Ends ∧ BrotliStream.Between enc b (framesOf s.polls ++ q.returned.frame)) ∨
      (q.Fails ∧ BrotliStream.Failed enc b (framesOf s.polls ++ q.returned.frame)))
    (hfed : fed b.calls = consumed (s.polls ++ [q])) (hfin : b.finished = true) :
    Inv enc decode ⟨b, none, [], s.polls ++ [q]⟩ where
  fed := by simpa [chunksOf] using hfed
  draining p hp := by cases hp
  resting _ := rfl
  live hl := by
    rw [show b.finished = false from hl] at hfin
    cases hfin
  finished _ := ⟨rfl, s.polls, q, 0, rfl, (h.live hlive).1, by simpa only [framesOf_snoc] using hq⟩

lemma drain_of_inner {result : Inner ε} (hs : s.step enc (.inner result) = some s') : ∃ p, s.drain = some p := by
  simp only [Polling.step] at hs
  split at hs
  · cases hs
  · rename_i p hdrain
    exact ⟨p, hdrain⟩

lemma step_inner {p : Drain} {result : Inner ε} (hdrain : s.drain = some p)
    (hs : s.step enc (.inner result) = some s') :
    (∃ b out, s.stream.round enc p result.polled = some (b, .inl out) ∧
        s' = ⟨b, none, [], s.polls ++ [⟨s.got ++ [result], returned result out⟩]⟩) ∨
      ∃ b p', s.stream.round enc p result.polled = some (b, .inr p') ∧
        s' = ⟨b, some p', s.got ++ [result], s.polls⟩ := by
  simp only [Polling.step, hdrain] at hs
  split at hs
  · cases hs
  · rename_i b out hround
    exact Or.inl ⟨b, out, hround, (Option.some.inj hs).symm⟩
  · rename_i b p' hround
    exact Or.inr ⟨b, p', hround, (Option.some.inj hs).symm⟩

lemma Inv.after (h : Inv enc decode s) {p : Drain} (hdrain : s.drain = some p) (result : Inner ε)
    (ret : Returned ε) : Poll.After ⟨s.got ++ [result], ret⟩ result := by
  obtain ⟨_, hbudget, chunks, hlen, hgot⟩ := h.draining p hdrain
  exact ⟨chunks, hlen.trans_lt hbudget, by rw [hgot]⟩

variable {p : Drain}

lemma inv_item (hhonest : enc.Honest decode) (h : Inv enc decode s) (hdrain : s.drain = some p) {chunk : Bytes}
    (hs : s.step enc (.inner (.item chunk)) = some s') : Inv enc decode s' := by
  obtain ⟨hduring, hbudget, chunks, hlen, hgot⟩ := h.draining p hdrain
  have hmap : s.got ++ [.item chunk] = (chunks ++ [chunk]).map .item := by simp [hgot]
  rcases step_inner hdrain hs with ⟨b, out, hround, rfl⟩ | ⟨b, p', hround, rfl⟩
  · rcases BrotliStream.round_item hhonest hduring chunk hround with
      ⟨_, frame, ⟨⟩, hb, hfed, hfin, hfull⟩ | ⟨_, _, ⟨⟩, _⟩
    have hlive : Poll.Live (⟨s.got ++ [.item chunk], .data frame⟩ : Poll ε) :=
      Or.inr ⟨⟨chunks ++ [chunk], by rw [List.length_append, List.length_singleton]; omega, hmap⟩, frame, rfl⟩
    exact inv_return hhonest h hduring.live hlive hb (hfed.trans (h.consumed_snoc (.item chunk) _).symm) hfin
  · rcases BrotliStream.round_item hhonest hduring chunk hround with
      ⟨_, _, ⟨⟩, _⟩ | ⟨_, _, ⟨⟩, hd, hfed, hdrained, hroom⟩
    refine ⟨?_, fun p hp => ?_, fun hrest => (by cases hrest), fun _ => ?_, fun hl => ?_⟩
    · rw [hfed, h.fed, chunksOf_snoc, List.append_assoc]
      rfl
    · obtain rfl := Option.some.inj hp
      exact ⟨hd, hroom, chunks ++ [chunk], by simp [hlen, hdrained], hmap⟩
    · obtain ⟨hall, hdecode, _⟩ := h.live hduring.live
      exact ⟨hall, hdecode, fun hrest => by cases hrest⟩
    · exact absurd (hd.live.symm.trans hl) (by simp)

lemma inv_pending (hhonest : enc.Honest decode) (h : Inv enc decode s) (hdrain : s.drain = some p)
    (hs : s.step enc (.inner .pending) = some s') : Inv enc decode s' := by
  have hduring := (h.draining p hdrain).1
  rcases step_inner hdrain hs with ⟨b, out, hround, rfl⟩ | ⟨b, p', hround, rfl⟩
  · obtain ⟨_, _, ⟨⟩, herror, hdone, hb, hfed, hfin⟩ := BrotliStream.round_pending hhonest hduring hround
    refine inv_return hhonest h hduring.live (Or.inl ⟨h.after hdrain _ _, ?_⟩) (by rwa [returned_frame])
      (hfed.trans (h.consumed_quiet rfl _).symm) hfin
    cases out with
    | data frame => exact Or.inr ⟨frame, rfl⟩
    | error => exact absurd rfl herror
    | done => exact absurd rfl hdone
    | pending => exact Or.inl rfl
  · obtain ⟨_, _, ⟨⟩, _⟩ := BrotliStream.round_pending hhonest hduring hround

lemma inv_failed (h : Inv enc decode s) (hdrain : s.drain = some p) {err : ε}
    (hs : s.step enc (.inner (.failed err)) = some s') : Inv enc decode s' := by
  have hduring := (h.draining p hdrain).1
  obtain ⟨b, hround, hfailed, hfed⟩ := BrotliStream.round_failed hduring
  simp only [Polling.step, hdrain, Inner.polled, hround] at hs
  obtain rfl := Option.some.inj hs
  refine inv_finish h hduring.live (Or.inr ⟨⟨err, h.after hdrain _ _, rfl⟩, ?_⟩)
    (hfed.trans (h.consumed_quiet rfl _).symm) hfailed.finished
  simpa [returned, Returned.frame] using hfailed

lemma inv_ended (hhonest : enc.Honest decode) (h : Inv enc decode s) (hdrain : s.drain = some p)
    (hs : s.step enc (.inner .ended) = some s') : Inv enc decode s' := by
  have hduring := (h.draining p hdrain).1
  rcases step_inner hdrain hs with ⟨b, out, hround, rfl⟩ | ⟨b, p', hround, rfl⟩
  · obtain ⟨_, _, ⟨⟩, herror, hpending, hb, hfed, hfin⟩ := BrotliStream.round_ended hhonest hduring hround
    refine inv_finish h hduring.live (Or.inl ⟨⟨h.after hdrain _ _, ?_⟩, by rwa [returned_frame]⟩)
      (hfed.trans (h.consumed_quiet rfl _).symm) hfin
    cases out with
    | data frame => exact Or.inr ⟨frame, rfl⟩
    | error => exact absurd rfl herror
    | done => exact Or.inl rfl
    | pending => exact absurd rfl hpending
  · obtain ⟨_, _, ⟨⟩, _⟩ := BrotliStream.round_ended hhonest hduring hround

lemma inv_step (hhonest : enc.Honest decode) (s : Polling ε) (a : Act ε) (s' : Polling ε) (h : Inv enc decode s)
    (hs : s.step enc a = some s') : Inv enc decode s' := by
  cases a with
  | poll => exact inv_poll h hs
  | inner result =>
    obtain ⟨p, hdrain⟩ := drain_of_inner hs
    cases result with
    | item chunk => exact inv_item hhonest h hdrain hs
    | pending => exact inv_pending hhonest h hdrain hs
    | failed err => exact inv_failed h hdrain hs
    | ended => exact inv_ended hhonest h hdrain hs

lemma inv_run (hhonest : enc.Honest decode) {acts : List (Act ε)} (h : run (Polling.step enc) {} acts = some s) :
    Inv enc decode s :=
  run_invariant (inv_step hhonest) (inv_init hhonest) h

def Poll.Closes (q : Poll ε) : Prop := .ended ∈ q.results ∨ ∃ err, .failed err ∈ q.results

lemma Poll.Live.open {q : Poll ε} (h : q.Live) : ¬ q.Closes := by
  rintro (hended | ⟨err, hfailed⟩) <;> rcases h with ⟨⟨chunks, _, hres⟩, _⟩ | ⟨⟨chunks, _, hres⟩, _⟩ <;>
    simp_all

lemma Poll.Live.noError {q : Poll ε} (h : q.Live) (err : PollError ε) : q.returned ≠ .error err := by
  rcases h with ⟨_, hret | ⟨frame, hret⟩⟩ | ⟨_, frame, hret⟩ <;> simp [hret]

lemma Inv.closed (h : Inv enc decode s) {earlier later : List (Poll ε)} {q : Poll ε}
    (hsplit : s.polls = earlier ++ q :: later) (hq : q.Closes) :
    (s.drain = none ∧ s.stream.finished = true) ∧ (∀ p ∈ earlier, p.Live) ∧ (∀ p ∈ later, p = ⟨[], .done⟩) ∧
      ((q.Ends ∧ BrotliStream.Between enc s.stream (framesOf s.polls)) ∨
        (q.Fails ∧ BrotliStream.Failed enc s.stream (framesOf s.polls))) := by
  have hmem : q ∈ s.polls := by simp [hsplit]
  cases hfin : s.stream.finished with
  | false => exact absurd hq ((h.live hfin).1 q hmem).open
  | true =>
    obtain ⟨hdrain, live, last, n, hpolls, hlive, hlast⟩ := h.finished hfin
    have hnotLive : q ∉ live := fun hq' => (hlive q hq').open hq
    have hnotDone : q ∉ List.replicate n (⟨[], .done⟩ : Poll ε) := by
      intro hdone
      obtain ⟨_, rfl⟩ := List.mem_replicate.mp hdone
      simp [Poll.Closes] at hq
    obtain rfl : q = last := by
      rw [hpolls, List.mem_append, List.mem_cons] at hmem
      rcases hmem with hmem | hmem | hmem
      · exact absurd hmem hnotLive
      · exact hmem
      · exact absurd hmem hnotDone
    obtain ⟨rfl, _, rfl⟩ :=
      (List.append_cons_inj_of_notMem hnotLive hnotDone).mp (hpolls.symm.trans hsplit)
    exact ⟨⟨hdrain, rfl⟩, hlive, fun p hp => (List.mem_replicate.mp hp).2, hlast⟩

variable (enc) in
/-- After this call every call returns `None`, without another poll of the inner stream. -/
def Polling.Over (s : Polling ε) (later : List (Poll ε)) : Prop :=
  (∀ p ∈ later, p = ⟨[], .done⟩) ∧ s.step enc .poll = some { s with polls := s.polls ++ [⟨[], .done⟩] }

lemma step_finished (hdrain : s.drain = none) (hfin : s.stream.finished = true) :
    s.step enc .poll = some { s with polls := s.polls ++ [⟨[], .done⟩] } := by
  simp only [Polling.step, hdrain, hfin, if_true]

lemma Inv.pending (h : Inv enc decode s) {earlier : List (Poll ε)} {q : Poll ε} (hsplit : s.polls = earlier ++ [q])
    (hq : q.returned = .pending) : decode (framesOf s.polls) = consumed s.polls := by
  cases hfin : s.stream.finished with
  | false => exact (h.live hfin).2.1
  | true =>
    obtain ⟨_, live, last, n, hpolls, _, hlast⟩ := h.finished hfin
    have hret : q.returned = .done ∨ q.returnsData ∨ ∃ err, q.returned = .error err := by
      cases n with
      | zero =>
        obtain ⟨_, hlast'⟩ := List.append_inj' (hsplit.symm.trans hpolls) rfl
        obtain rfl := List.singleton_inj.mp hlast'
        rcases hlast with ⟨⟨_, hret⟩, _⟩ | ⟨⟨err, _, hret⟩, _⟩
        · exact hret.imp_right Or.inl
        · exact Or.inr (Or.inr ⟨_, hret⟩)
      | succ n =>
        rw [List.replicate_succ', ← List.cons_append, ← List.append_assoc] at hpolls
        obtain ⟨_, hlast'⟩ := List.append_inj' (hsplit.symm.trans hpolls) rfl
        obtain rfl := List.singleton_inj.mp hlast'
        exact Or.inl rfl
    rw [hq] at hret
    rcases hret with hret | ⟨frame, hret⟩ | ⟨err, hret⟩
    · cases hret
    · rw [hq] at hret
      cases hret
    · cases hret

lemma Inv.ended {undo : Bytes → Option Bytes} (hundo : enc.Completes undo) (h : Inv enc decode s)
    {earlier later : List (Poll ε)} {q : Poll ε} (hsplit : s.polls = earlier ++ q :: later)
    (hq : .ended ∈ q.results) : undo (framesOf s.polls) = some (consumed s.polls) ∧ s.Over enc later := by
  obtain ⟨⟨hdrain, hfin⟩, _, hlater, hclosed⟩ := h.closed hsplit (Or.inl hq)
  refine ⟨?_, hlater, step_finished hdrain hfin⟩
  rcases hclosed with ⟨_, hb⟩ | ⟨⟨err, ⟨chunks, _, hres⟩, _⟩, _⟩
  · obtain ⟨c, hc, hop⟩ := hb.ended hfin
    obtain ⟨calls, hcalls⟩ := List.head?_eq_some_iff.mp hc
    have htail := hb.tail
    have hfed := h.fed
    rw [h.resting hdrain, hcalls] at hfed
    rw [hcalls, List.tail_cons] at htail
    rw [← hb.output, hcalls, hundo calls c (hcalls ▸ hb.made) htail hop, hfed]
    exact congrArg some (List.append_nil _)
  · simp [hres] at hq

lemma Inv.failed (hhonest : enc.Honest decode) (h : Inv enc decode s) {earlier later : List (Poll ε)} {q : Poll ε}
    {err : ε} (hsplit : s.polls = earlier ++ q :: later) (hq : .failed err ∈ q.results) :
    q.returned = .error (.inner err) ∧ (∀ p ∈ earlier ++ later, ∀ err', p.returned ≠ .error err') ∧
      Unfinished s.stream.calls ∧ decode (framesOf earlier) <+: consumed s.polls ∧ s.Over enc later := by
  obtain ⟨⟨hdrain, hfin⟩, hearlier, hlater, hclosed⟩ := h.closed hsplit (Or.inr ⟨err, hq⟩)
  rcases hclosed with ⟨⟨⟨chunks, _, hres⟩, _⟩, _⟩ | ⟨⟨err', ⟨chunks, _, hres⟩, hret⟩, hf⟩
  · simp [hres] at hq
  · obtain rfl : err = err' := by simpa [hres] using hq
    have hframes : framesOf s.polls = framesOf earlier := by
      have hnil : framesOf later = [] :=
        List.flatMap_eq_nil_iff.mpr (fun p hp => by rw [hlater p hp]; rfl)
      rw [hsplit, framesOf, List.flatMap_append, List.flatMap_cons, hret, ← framesOf, ← framesOf, hnil]
      exact List.append_nil _
    refine ⟨hret, fun p hp err' => ?_, hf.unfinished, ?_, hlater, step_finished hdrain hfin⟩
    · rcases List.mem_append.mp hp with hp | hp
      · exact (hearlier p hp).noError err'
      · simp [hlater p hp]
    · have hprefix := hf.decode_isPrefix hhonest
      rwa [hframes, h.fed, h.resting hdrain, show (chunksOf ([] : List (Inner ε))).flatten = [] from rfl,
        List.append_nil] at hprefix

end HttpNu.Compression
