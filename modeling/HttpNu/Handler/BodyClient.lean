import HttpNu.Handler.StreamBody

/-! A stream body as its client polls it: how what is in the channel, and its end, can be got. -/

namespace HttpNu.Handler.StreamBody

open Text Library Compression

variable {enc : Encoder} {isSse : Bool} {unpack : Bytes → Bytes} {b b' : State}

/-- What happens to the body while its response is being sent. -/
def ofClient : Act → Bool
  | .send _ => false
  | .close => false
  | _ => true

lemma react_rx {p : Drain} {polled : Polled} (hs : b.react enc p polled = some b') : b'.rx = b.rx := by
  simp only [State.react] at hs
  split at hs
  · obtain rfl := Option.some.inj hs
    rfl
  · split at hs
    · cases hs
    · obtain rfl := Option.some.inj hs
      rfl
    · obtain rfl := Option.some.inj hs
      rfl

lemma client_channel {a : Act} (ha : ofClient a = true) (hs : step enc isSse b a = some b') :
    b'.rx.sent = b.rx.sent ∧ b'.rx.closed = b.rx.closed := by
  cases a with
  | send chunk => cases ha
  | close => cases ha
  | cancel =>
    obtain rfl := Option.some.inj hs
    exact ⟨rfl, rfl⟩
  | recv =>
    simp only [step] at hs
    split at hs
    · split at hs <;> rw [react_rx hs]
      · rename_i hrecv
        obtain ⟨hsent, hclosed, _⟩ := Mpsc.recv_item hrecv
        exact ⟨hsent, hclosed⟩
      · exact ⟨rfl, rfl⟩
      · exact ⟨rfl, rfl⟩
    · cases hs
  | _ =>
    simp only [step] at hs
    repeat' split at hs
    all_goals first
      | (obtain rfl := Option.some.inj hs; exact ⟨rfl, rfl⟩)
      | (rw [react_rx hs]; exact ⟨rfl, rfl⟩)
      | cases hs

lemma client_run {acts : List Act} (hacts : ∀ a ∈ acts, ofClient a = true)
    (hrun : run (step enc isSse) b acts = some b') : b'.rx.sent = b.rx.sent ∧ b'.rx.closed = b.rx.closed := by
  induction acts generalizing b with
  | nil =>
    obtain rfl := Option.some.inj hrun
    exact ⟨rfl, rfl⟩
  | cons a acts ih =>
    obtain ⟨ha, hacts⟩ := List.forall_mem_cons.mp hacts
    obtain ⟨c, hstep, hrun⟩ := run_cons.mp hrun
    obtain ⟨hsent, hclosed⟩ := ih hacts hrun
    obtain ⟨hsent', hclosed'⟩ := client_channel ha hstep
    exact ⟨hsent.trans hsent', hclosed.trans hclosed'⟩

lemma delivered_idle (hlaw : enc.Lawful unpack) (h : Inv enc isSse b) (hphase : b.phase = .idle)
    (herror : .error ∉ b.outputs) : b.delivered unpack = b.rx.received.flatten := by
  have hb := h.body
  rw [hphase] at hb
  simp only [if_neg herror] at hb
  rw [State.delivered]
  cases hbody : b.body with
  | plain =>
    rw [hbody] at hb
    exact hb
  | brotli stream =>
    rw [hbody] at hb
    exact (hb.1.decode_eq hlaw.toHonest).trans hb.2.1

/-- The source of the body has not ended, and nothing has cancelled it. -/
structure Awake (isSse : Bool) (b : State) : Prop where
  live : b.live = true
  uncancelled : isSse = true → b.cancelled = false

lemma look_awake (h : Awake isSse b) {p : Drain} (hphase : b.phase = .looking p) :
    step enc isSse b .look = some { b with phase := .receiving p, tokenSeen := b.cancelled } := by
  cases isSse with
  | false => simp [step, hphase, h.live]
  | true => simp [step, hphase, h.live, h.uncancelled rfl]

lemma reaches_channel (h : Inv enc isSse b) (ha : Awake isSse b) :
    ∃ (acts : List Act) (c : State) (p : Drain), (∀ a ∈ acts, ofClient a = true) ∧
      run (step enc isSse) b acts = some c ∧ c.phase = .receiving p ∧ c.rx = b.rx ∧ Awake isSse c := by
  cases hphase : b.phase with
  | idle =>
    have hf : b.body.finished = false := by
      by_contra hf
      exact absurd ((h.not_live hphase (by simpa using hf)).symm.trans ha.live) (by decide)
    have hpoll : step enc isSse b .poll = some { b with phase := .looking {} } := by simp [step, hphase, hf]
    have hawake : Awake isSse { b with phase := .looking {} } := ⟨ha.live, ha.uncancelled⟩
    have hrun := run_cons.mpr ⟨_, hpoll, run_single (look_awake hawake rfl)⟩
    exact ⟨[.poll, .look], _, {}, by simp [ofClient], hrun, rfl, rfl, ha.live, ha.uncancelled⟩
  | looking p =>
    exact ⟨[.look], _, p, by simp [ofClient], run_of_step (look_awake ha hphase), rfl, rfl, ha.live,
      ha.uncancelled⟩
  | receiving p => exact ⟨[], b, p, List.forall_mem_nil _, rfl, hphase, rfl, ha⟩

lemma Inv.receiving {p : Drain} (h : Inv enc isSse b) (hphase : b.phase = .receiving p) :
    b.body.During enc p (frames b.outputs) b.rx.received.flatten := by
  have hb := h.body
  rw [hphase] at hb
  exact hb.1

/-- What the polls lead to: the body is at its channel, which is empty. -/
structure AtEmpty (isSse : Bool) (b : State) (p : Drain) : Prop where
  phase : b.phase = .receiving p
  empty : b.rx.queue = []
  awake : Awake isSse b

-- Every round takes a chunk from the channel.
lemma empties (hlaw : enc.Lawful unpack) (h : Inv enc isSse b) (ha : Awake isSse b) :
    ∃ (acts : List Act) (c : State) (p : Drain), (∀ a ∈ acts, ofClient a = true) ∧
      run (step enc isSse) b acts = some c ∧ AtEmpty isSse c p := by
  induction hq : b.rx.queue generalizing b with
  | nil =>
    obtain ⟨acts, c, p, hacts, hrun, hphase, hrx, hc⟩ := reaches_channel h ha
    exact ⟨acts, c, p, hacts, hrun, hphase, hrx ▸ hq, hc⟩
  | cons chunk rest ih =>
    obtain ⟨acts, c, p, hacts, hrun, hphase, hrx, hc⟩ := reaches_channel h ha
    have hinv : Inv enc isSse c := run_invariant (inv_step hlaw) h hrun
    obtain ⟨rx, hrecv, hrest⟩ := Mpsc.recv_of_queue (hrx ▸ hq)
    obtain ⟨d, hs, hdrx, hd⟩ : ∃ d, step enc isSse c .recv = some d ∧ d.rx = rx ∧ Awake isSse d := by
      have hs : step enc isSse c .recv = ({ c with rx := rx } : State).react enc p (.item chunk) := by
        simp only [step, hphase, hrecv]
      rcases react_item (s := { c with rx := rx }) hlaw (hinv.receiving hphase) chunk with
        ⟨body, frame, hreact, _⟩ | ⟨body, p', hreact, _⟩
      · rw [hreact] at hs
        exact ⟨_, hs, rfl, hc.live, hc.uncancelled⟩
      · rw [hreact] at hs
        exact ⟨_, hs, rfl, hc.live, hc.uncancelled⟩
    obtain ⟨later, e, p', hlater, hrun', hempty⟩ := ih (inv_step hlaw _ _ _ hinv hs) hd (hdrx ▸ hrest)
    refine ⟨acts ++ .recv :: later, e, p', ?_, run_append.mpr ⟨c, hrun, run_cons.mpr ⟨d, hs, hrun'⟩⟩, hempty⟩
    exact List.forall_mem_append.mpr ⟨hacts, List.forall_mem_cons.mpr ⟨rfl, hlater⟩⟩

lemma drains (hlaw : enc.Lawful unpack) (h : Inv enc isSse b) (ha : Awake isSse b) (hopen : b.rx.closed = false) :
    ∃ (acts : List Act) (c : State), (∀ a ∈ acts, ofClient a = true) ∧ run (step enc isSse) b acts = some c ∧
      c.phase = .idle ∧ c.rx.queue = [] ∧ Awake isSse c := by
  obtain ⟨acts, c, p, hacts, hrun, hempty⟩ := empties hlaw h ha
  have hinv : Inv enc isSse c := run_invariant (inv_step hlaw) h hrun
  obtain ⟨body, out, hreact, _⟩ := react_pending hlaw (hinv.receiving hempty.phase)
  have hrecv : c.rx.recv = (.empty, c.rx) := by
    rw [Mpsc.recv_of_queue_nil hempty.empty, (client_run hacts hrun).2, hopen, if_neg Bool.false_ne_true]
  have hs : step enc isSse c .recv =
    some { c with body := body, phase := .idle, outputs := c.outputs ++ [out] } := by
    simp only [step, hempty.phase, hrecv, hreact]
  refine ⟨acts ++ [.recv], { c with body := body, phase := .idle, outputs := c.outputs ++ [out] }, ?_,
    run_append.mpr ⟨c, hrun, run_of_step hs⟩, rfl, hempty.empty, hempty.awake.live, hempty.awake.uncancelled⟩
  exact List.forall_mem_append.mpr ⟨hacts, List.forall_mem_singleton.mpr rfl⟩

lemma react_ended_cleanly (hlaw : enc.Lawful unpack) {p : Drain} {got : Bytes} (hquiet : Quiet b.outputs)
    (h : b.body.During enc p (frames b.outputs) got) :
    ∃ c, b.react enc p .ended = some c ∧ c.EndedCleanly := by
  simp only [State.react]
  cases hbody : b.body with
  | plain =>
    refine ⟨_, rfl, .inl ⟨List.mem_append_right _ (List.mem_singleton_self _), ?_⟩⟩
    simpa [plainOutput] using hquiet.1
  | brotli stream =>
    rw [hbody] at h
    obtain ⟨r, hround⟩ := BrotliStream.round_returns hlaw h.1 .ended
    obtain ⟨stream', out, rfl, _, _, hbetween, _, hfinished⟩ := BrotliStream.round_ended hlaw.toHonest h.1 hround
    obtain ⟨call, hcall, hop⟩ := hbetween.ended hfinished
    simp only [hround]
    exact ⟨_, rfl, .inr (List.any_eq_true.mpr ⟨call, List.mem_of_mem_head? hcall, decide_eq_true hop⟩)⟩

lemma finishes (hlaw : enc.Lawful unpack) (h : Inv enc isSse b) (ha : Awake isSse b)
    (hclosed : b.rx.closed = true) :
    ∃ (acts : List Act) (c : State), (∀ a ∈ acts, ofClient a = true) ∧ run (step enc isSse) b acts = some c ∧
      c.EndedCleanly := by
  obtain ⟨acts, c, p, hacts, hrun, hempty⟩ := empties hlaw h ha
  have hinv : Inv enc isSse c := run_invariant (inv_step hlaw) h hrun
  have hrecv : c.rx.recv = (.disconnected, c.rx) := by
    rw [Mpsc.recv_of_queue_nil hempty.empty, (client_run hacts hrun).2, hclosed, if_pos rfl]
  obtain ⟨d, hreact, hended⟩ := react_ended_cleanly (b := { c with live := false }) hlaw
    (hinv.quiet hempty.awake.live) (hinv.receiving hempty.phase)
  have hs : step enc isSse c .recv = some d := by
    simp only [step, hempty.phase, hrecv]
    exact hreact
  exact ⟨acts ++ [.recv], d, List.forall_mem_append.mpr ⟨hacts, List.forall_mem_singleton.mpr rfl⟩,
    run_append.mpr ⟨c, hrun, run_of_step hs⟩, hended⟩

end HttpNu.Handler.StreamBody
