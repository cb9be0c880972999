import HttpNu.Handler.BodyClient

/-! A response whose chunks a thread makes, up to its client: the thread, the channel, and the polls of the
body. -/

namespace HttpNu.Handler.BodyFlow

open Text Library Compression

/-- What a step of a thread comes to between two sends. -/
inductive Produced where
  | nothing
  | chunk (bytes : Bytes)
  | ended

/-- What a thread makes chunks of: its own steps, those around it, and what its end does. -/
structure Feed (σ α β : Type) where
  thread : σ → α → Option (σ × Produced)
  outside : σ → β → Option σ
  drop : σ → σ

/-- The thread works, or waits with a chunk for room in the channel; it ends by itself or when a chunk is
refused. -/
inductive Thread where
  | working
  | sending (chunk : Bytes)
  | ended (refused : Bool)
  deriving DecidableEq

structure State (σ : Type) where
  source : σ
  thread : Thread
  made : List Bytes
  body : StreamBody.State
  hungUp : Bool

inductive Act (α β : Type) where
  | thread (act : α)
  | outside (act : β)
  | send
  | body (act : StreamBody.Act)
  | hangUp

variable {σ α β : Type} (enc : Encoder) (isSse : Bool) (feed : Feed σ α β)

def init (source : σ) (useBrotli : Bool) : State σ := ⟨source, .working, [], StreamBody.init useBrotli, false⟩

def State.finish (s : State σ) (refused : Bool) : State σ :=
  { s with source := feed.drop s.source, thread := .ended refused, body := { s.body with rx := s.body.rx.close } }

def State.produce (s : State σ) : σ × Produced → State σ
  | (source, .nothing) => { s with source := source }
  | (source, .chunk bytes) => { s with source := source, thread := .sending bytes, made := s.made ++ [bytes] }
  | (source, .ended) => ({ s with source := source } : State σ).finish feed false

def step (s : State σ) : Act α β → Option (State σ)
  | .thread act =>
    match s.thread with
    | .working => (feed.thread s.source act).map (s.produce feed)
    | _ => none
  | .outside act => (feed.outside s.source act).map fun source => { s with source := source }
  | .send =>
    match s.thread with
    | .sending chunk =>
      -- the receiver is gone with the connection, and with the error that a cancelled body ends in
      if s.hungUp || !s.body.live then some (s.finish feed true)
      else (StreamBody.step enc isSse s.body (.send chunk)).map fun body =>
        { s with thread := .working, body := body }
    | _ => none
  | .body act =>
    if s.hungUp || !(StreamBody.ofClient act) then none
    else (StreamBody.step enc isSse s.body act).map fun body => { s with body := body }
  | .hangUp => some { s with hungUp := true }

/-- How much of what the thread has come to is in the channel. -/
def State.Sent (s : State σ) : Prop :=
  match s.thread with
  | .working => s.body.rx.sent = s.made
  | .sending chunk => s.body.rx.sent ++ [chunk] = s.made
  | .ended false => s.body.rx.sent = s.made
  | .ended true => s.body.rx.sent <+: s.made

def State.Broken (s : State σ) : Prop :=
  s.hungUp = true ∧ ¬ s.body.EndedCleanly ∨ .error ∈ s.body.outputs

structure Inv (s : State σ) : Prop where
  body : StreamBody.Inv enc isSse s.body
  sent : s.Sent
  closed : s.body.rx.closed = true ↔ ∃ refused, s.thread = .ended refused
  refused : s.thread = .ended true → s.Broken

variable {enc isSse feed} {s s' : State σ} {unpack : Bytes → Bytes}

lemma State.Sent.isPrefix (h : s.Sent) : s.body.rx.sent <+: s.made := by
  rw [State.Sent] at h
  split at h
  · exact h ▸ List.prefix_rfl
  · exact ⟨_, h⟩
  · exact h ▸ List.prefix_rfl
  · exact h

lemma inv_init (source : σ) (useBrotli : Bool) : Inv enc isSse (init source useBrotli) where
  body := StreamBody.inv_init useBrotli
  sent := rfl
  closed := by simp [init, StreamBody.init, Mpsc.new]
  refused h := by cases h

lemma Inv.open (h : Inv enc isSse s) (hthread : ∀ refused, s.thread ≠ .ended refused) :
    s.body.rx.closed = false := by
  by_contra hclosed
  obtain ⟨refused, hended⟩ := h.closed.mp (by simpa using hclosed)
  exact hthread refused hended

lemma Inv.not_clean (h : Inv enc isSse s) (hthread : ∀ refused, s.thread ≠ .ended refused) :
    ¬ s.body.EndedCleanly := by
  intro hended
  have hclosed := (h.body.endedCleanly hended).2.2.1
  exact Bool.false_ne_true ((h.open hthread).symm.trans hclosed)

lemma inv_finish (h : Inv enc isSse s) {refused : Bool} {source : σ}
    (hsent : ({ s with source := source, thread := .ended refused } : State σ).Sent)
    (hrefused : refused = true → s.Broken) :
    Inv enc isSse (({ s with source := source } : State σ).finish feed refused) where
  body := StreamBody.inv_close h.body rfl
  sent := hsent
  closed := iff_of_true rfl ⟨refused, rfl⟩
  refused hended := by
    have hrefused := hrefused (Thread.ended.inj hended)
    exact hrefused

lemma inv_thread {act : α} (h : Inv enc isSse s) (hs : step enc isSse feed s (.thread act) = some s') :
    Inv enc isSse s' := by
  simp only [step] at hs
  split at hs
  · rename_i hthread
    obtain ⟨⟨source, produced⟩, _, rfl⟩ := Option.map_eq_some_iff.mp hs
    have hsent : s.body.rx.sent = s.made := by
      have hsent := h.sent
      rwa [State.Sent, hthread] at hsent
    have hopen : s.body.rx.closed = false := h.open (by simp [hthread])
    cases produced with
    | nothing =>
      refine ⟨h.body, ?_, h.closed, h.refused⟩
      simp only [State.produce, State.Sent, hthread]
      exact hsent
    | chunk bytes =>
      refine ⟨h.body, ?_, by simp [State.produce, hopen], by simp [State.produce]⟩
      exact congrArg (· ++ [bytes]) hsent
    | ended => exact inv_finish h hsent (by simp)
  · cases hs

lemma inv_send (h : Inv enc isSse s) (hs : step enc isSse feed s .send = some s') : Inv enc isSse s' := by
  simp only [step] at hs
  split at hs
  · rename_i chunk hthread
    have hsent : s.body.rx.sent ++ [chunk] = s.made := by
      have hsent := h.sent
      rwa [State.Sent, hthread] at hsent
    split at hs
    · rename_i hgone
      obtain rfl := Option.some.inj hs
      refine inv_finish h ⟨[chunk], hsent⟩ (fun _ => ?_)
      have hworks : ∀ refused, s.thread ≠ .ended refused := by simp [hthread]
      rcases Bool.or_eq_true_iff.mp hgone with hgone | hdead
      · exact .inl ⟨hgone, h.not_clean hworks⟩
      · obtain ⟨quiet, n, _, hout | ⟨_, hdrained⟩⟩ := h.body.ended (by simpa using hdead)
        · exact .inr (hout ▸ List.mem_append_right _ List.mem_cons_self)
        · exact absurd ((h.open hworks).symm.trans hdrained.1) Bool.false_ne_true
    · obtain ⟨body, hstep, rfl⟩ := Option.map_eq_some_iff.mp hs
      have hinv := StreamBody.inv_send h.body hstep
      have hopen := h.open (by simp [hthread])
      simp only [StreamBody.step] at hstep
      split at hstep
      · obtain rfl := Option.some.inj hstep
        exact ⟨hinv, hsent, by simp [hopen], by simp⟩
      · cases hstep
  · cases hs

lemma inv_body (hlaw : enc.Lawful unpack) {act : StreamBody.Act} (h : Inv enc isSse s)
    (hs : step enc isSse feed s (.body act) = some s') : Inv enc isSse s' := by
  simp only [step] at hs
  split at hs
  · cases hs
  · rename_i hclient
    obtain ⟨body, hstep, rfl⟩ := Option.map_eq_some_iff.mp hs
    simp only [Bool.or_eq_true, Bool.not_eq_true', not_or, Bool.not_eq_true, Bool.not_eq_false] at hclient
    obtain ⟨hsent, hclosed⟩ := StreamBody.client_channel hclient.2 hstep
    refine ⟨StreamBody.inv_step hlaw _ _ _ h.body hstep, ?_, by rw [hclosed]; exact h.closed, ?_⟩
    · have hkept := h.sent
      rw [State.Sent] at hkept ⊢
      rw [hsent]
      exact hkept
    · intro hended
      rcases h.refused hended with ⟨hgone, _⟩ | herror
      · exact absurd (hclient.1.symm.trans hgone) Bool.false_ne_true
      · exact .inr ((StreamBody.step_mono hstep).2.1.mem herror)

lemma inv_step (hlaw : enc.Lawful unpack) (s : State σ) (a : Act α β) (s' : State σ) (h : Inv enc isSse s)
    (hs : step enc isSse feed s a = some s') : Inv enc isSse s' := by
  cases a with
  | thread act => exact inv_thread h hs
  | outside act =>
    obtain ⟨source, _, rfl⟩ := Option.map_eq_some_iff.mp hs
    exact ⟨h.body, h.sent, h.closed, h.refused⟩
  | send => exact inv_send h hs
  | body act => exact inv_body hlaw h hs
  | hangUp =>
    obtain rfl := Option.some.inj hs
    refine ⟨h.body, h.sent, h.closed, fun hended => ?_⟩
    rcases h.refused hended with ⟨_, hunclean⟩ | herror
    · exact .inl ⟨rfl, hunclean⟩
    · exact .inr herror

lemma inv_run (hlaw : enc.Lawful unpack) {source : σ} {useBrotli : Bool} {acts : List (Act α β)}
    (h : run (step enc isSse feed) (init source useBrotli) acts = some s) : Inv enc isSse s :=
  run_invariant (inv_step hlaw) (inv_init source useBrotli) h

lemma Inv.delivered_prefix (hlaw : enc.Lawful unpack) (h : Inv enc isSse s) :
    s.body.delivered unpack <+: s.made.flatten :=
  ((h.body.delivered_prefix hlaw).trans (List.IsPrefix.flatten s.body.rx.received_prefix)).trans
    h.sent.isPrefix.flatten

/-- What a body that has ended cleanly delivered is all that the thread made, and the thread ended by itself. -/
lemma Inv.endedCleanly (hlaw : enc.Lawful unpack) (h : Inv enc isSse s) (hended : s.body.EndedCleanly) :
    s.thread = .ended false ∧ s.body.delivered unpack = s.made.flatten := by
  obtain ⟨hdead, herror, hclosed, hall, _⟩ := h.body.endedCleanly hended
  obtain ⟨refused, hthread⟩ := h.closed.mp hclosed
  cases refused with
  | true =>
    rcases h.refused hthread with ⟨_, hunclean⟩ | hmem
    · exact absurd hended hunclean
    · exact absurd hmem herror
  | false =>
    have hsent := h.sent
    rw [State.Sent, hthread] at hsent
    exact ⟨hthread, by rw [h.body.delivered_eq hlaw hdead herror, hall, hsent]⟩

lemma run_body {acts : List StreamBody.Act} {b : StreamBody.State} (hconnected : s.hungUp = false)
    (hacts : ∀ a ∈ acts, StreamBody.ofClient a = true)
    (hrun : run (StreamBody.step enc isSse) s.body acts = some b) :
    run (step enc isSse feed) s (acts.map .body) = some { s with body := b } := by
  refine run_embed (fun body => { s with body := body }) Act.body (fun body body' a ha hs => ?_) hacts hrun
  simp [step, hconnected, ha, hs]

structure Connected (isSse : Bool) (s : State σ) : Prop where
  connected : s.hungUp = false
  awake : StreamBody.Awake isSse s.body

lemma Inv.not_refused (h : Inv enc isSse s) (hc : Connected isSse s) : s.thread ≠ .ended true := by
  intro hended
  rcases h.refused hended with ⟨hgone, _⟩ | herror
  · exact Bool.false_ne_true (hc.connected.symm.trans hgone)
  · exact (h.body.quiet hc.awake.live).1 herror

variable (feed)

lemma clears (hlaw : enc.Lawful unpack) (h : Inv enc isSse s) (hc : Connected isSse s)
    (hgoes : ∀ refused, s.thread ≠ .ended refused) : ∃ (acts : List (Act α β)) (b : StreamBody.State),
      run (step enc isSse feed) s acts = some { s with body := b } ∧ Connected isSse { s with body := b } ∧
        b.rx.queue = [] ∧ (s.thread = .working → b.delivered unpack = s.made.flatten) := by
  obtain ⟨acts, b, hacts, hrun, hphase, hempty, hawake⟩ := StreamBody.drains hlaw h.body hc.awake (h.open hgoes)
  have hbody : run (step enc isSse feed) s (acts.map .body) = some { s with body := b } :=
    run_body hc.connected hacts hrun
  have hinv : Inv enc isSse { s with body := b } := run_invariant (inv_step hlaw) h hbody
  refine ⟨acts.map .body, b, hbody, ⟨hc.connected, hawake⟩, hempty, fun hthread => ?_⟩
  have hsent := hinv.sent
  simp only [State.Sent, hthread] at hsent
  have hreceived : b.rx.received = b.rx.sent := Mpsc.received_of_queue_nil hempty
  exact (StreamBody.delivered_idle hlaw hinv.body hphase (hinv.body.quiet hawake.live).1).trans
    (congrArg List.flatten (hreceived.trans hsent))

lemma sends_chunk (hlaw : enc.Lawful unpack) (h : Inv enc isSse s) (hc : Connected isSse s) {chunk : Bytes}
    (hthread : s.thread = .sending chunk) : ∃ (acts : List (Act α β)) (b : StreamBody.State),
      run (step enc isSse feed) s acts = some { s with thread := .working, body := b } ∧
        Connected isSse { s with thread := .working, body := b } := by
  obtain ⟨acts, b, hrun, hconnected, hempty, _⟩ := clears feed hlaw h hc (by simp [hthread])
  have hinv : Inv enc isSse { s with body := b } := run_invariant (inv_step hlaw) h hrun
  have hopen : b.rx.closed = false := hinv.open (by simp [hthread])
  have hsend : StreamBody.step enc isSse b (.send chunk) = some { b with rx := b.rx.send chunk } := by
    simp [StreamBody.step, hopen, hempty, StreamBody.channelCapacity]
  have hlive : b.live = true := hconnected.awake.live
  have hs : step enc isSse feed { s with body := b } .send =
      some { s with thread := .working, body := { b with rx := b.rx.send chunk } } := by
    simp [step, hthread, hc.connected, hlive, hsend]
  refine ⟨acts ++ [.send], { b with rx := b.rx.send chunk }, run_append.mpr ⟨_, hrun, run_of_step hs⟩, ?_⟩
  exact ⟨hc.connected, hlive, hconnected.awake.uncancelled⟩

lemma ends (hlaw : enc.Lawful unpack) (h : Inv enc isSse s) (hc : Connected isSse s) {refused : Bool}
    (hthread : s.thread = .ended refused) : ∃ (acts : List (Act α β)) (b : StreamBody.State),
      run (step enc isSse feed) s acts = some { s with body := b } ∧ b.EndedCleanly := by
  have hclosed := h.closed.mpr ⟨refused, hthread⟩
  obtain ⟨acts, b, hacts, hrun, hended⟩ := StreamBody.finishes hlaw h.body hc.awake hclosed
  exact ⟨acts.map .body, b, run_body hc.connected hacts hrun, hended⟩

end HttpNu.Handler.BodyFlow
