import HttpNu.Serve.Shutdown
import HttpNu.Logging.Events

/-! `serve`: from the first engine over the accepting of connections to the shutdown that drains them. -/

namespace HttpNu.Lifecycle

open Text Library Logging

variable {σ β κ : Type}

structure Config (σ : Type) where
  baseEngine : Engine σ
  tls : Bool
  address : Str
  options : StartupOptions

/-- Where a client's connection is: in the queue of the socket, in the listener's hands, served, or over. -/
inductive Fate where
  | queued
  | handshaking
  | opened
  | refused
  | abandoned
  | closed
  deriving DecidableEq

structure Connection where
  fate : Fate
  requests : List Nat

inductive Phase where
  | awaiting
  | starting
  | accepting
  | leaving
  | draining (since : Nat)
  | returned
  | failed
  | panicked
  deriving DecidableEq

def Phase.listens : Phase → Bool
  | .accepting => true
  | .leaving => true
  | .draining _ => true
  | _ => false

def Phase.pastLoop : Phase → Bool
  | .leaving => true
  | .draining _ => true
  | .returned => true
  | _ => false

structure State (σ : Type) where
  server : Serve.State σ
  now : Nat
  signalled : Bool
  phase : Phase
  connections : List Connection
  log : List (Nat × LogEvent)

inductive Act (σ β κ : Type) where
  | tick (ms : Nat)
  | signal
  | server (act : Serve.Act σ β κ)
  | firstEngine
  | noEngine
  | stopEarly
  | bind (bound : Bool)
  | connect
  | accept
  | acceptError (lost : Bool)
  | handshake (ok : Bool)
  | request (i : Nat)
  | close (i : Nat)
  | shutdown
  | loadEngine
  | cancelStreams
  | count
  | drained
  | timeout

def gracePeriod : Nat := 10000

def ofTask : Serve.Act σ β κ → Bool
  | .first => false
  | .arrive => false
  | .shutdownLoad => false
  | .shutdownCancel => false
  | _ => true

def toLog : Serve.LogEntry → LogEvent
  | .error text => .error text
  | .reloaded => .reloaded

def init : State σ := ⟨Serve.init, 0, false, .awaiting, [], []⟩

namespace State

def tell (s : State σ) (e : LogEvent) : State σ := { s with log := s.log ++ [(s.now, e)] }

def setFate (s : State σ) (i : Nat) (c : Connection) (fate : Fate) : State σ :=
  { s with connections := s.connections.set i { c with fate := fate } }

def find (s : State σ) (fate : Fate) : Option (Nat × Connection) :=
  let i := s.connections.findIdx (fun c => c.fate = fate)
  (s.connections[i]?).map (fun c => (i, c))

def inflight (s : State σ) : Nat := s.connections.countP (fun c => c.fate = .opened)

end State

variable (cfg : Config σ)

def State.serve (s : State σ) (act : Serve.Act σ β κ) : Option (State σ) :=
  (Serve.step cfg.baseEngine s.server act).map fun server =>
    { s with
      server := server
      log := s.log ++ ((server.log.drop s.server.log.length).map toLog).map (s.now, ·) }

def step (s : State σ) : Act σ β κ → Option (State σ)
  | .tick ms => some { s with now := s.now + ms }
  | .signal => some { s with signalled := true }
  | .server act => if ofTask act then s.serve cfg act else none
  | .firstEngine =>
    if s.phase = .awaiting then (s.serve cfg (.first : Serve.Act σ β κ)).map fun s => { s with phase := .starting }
    else none
  | .noEngine =>
    if s.phase = .awaiting ∧ s.server.channel.closed ∧ s.server.channel.queue.isEmpty then
      some { s with phase := .panicked }
    else none
  | .stopEarly =>
    if s.phase = .awaiting ∧ s.signalled then some { s.tell .stopped with phase := .returned } else none
  | .bind bound =>
    if s.phase = .starting then
      if bound then some { s.tell (.started cfg.address s.now cfg.options) with phase := .accepting }
      else some { s with phase := .failed }
    else none
  | .connect => if s.phase.listens then some { s with connections := s.connections ++ [⟨.queued, []⟩] } else none
  | .accept =>
    if s.phase = .accepting ∧ (s.find .handshaking).isNone then
      (s.find .queued).map fun (i, c) => s.setFate i c (if cfg.tls then .handshaking else .opened)
    else none
  | .acceptError lost =>
    if s.phase = .accepting ∧ (s.find .handshaking).isNone then
      if lost then (s.find .queued).map fun (i, c) => s.setFate i c .refused else some s
    else none
  | .handshake ok =>
    if s.phase = .accepting then
      (s.find .handshaking).map fun (i, c) => s.setFate i c (if ok then .opened else .refused)
    else none
  | .request i =>
    match s.connections[i]? with
    | some ⟨.opened, requests⟩ =>
      (s.serve cfg (.arrive : Serve.Act σ β κ)).map fun t =>
        { t with connections := t.connections.set i ⟨.opened, requests ++ [s.server.requests.length]⟩ }
    | _ => none
  | .close i =>
    match s.connections[i]? with
    | some ⟨.opened, requests⟩ =>
      -- with a connection go the futures and the bodies of its requests
      if requests.all (fun j => (s.server.requests[j]?).any (fun r => r.leftAt.isSome)) then
        some (s.setFate i ⟨.opened, requests⟩ .closed)
      else none
    | _ => none
  | .shutdown =>
    if s.phase = .accepting ∧ s.signalled then
      some { (s.find .handshaking).elim s (fun (i, c) => s.setFate i c .abandoned) with phase := .leaving }
    else none
  | .loadEngine => if s.phase = .leaving then s.serve cfg (.shutdownLoad : Serve.Act σ β κ) else none
  | .cancelStreams => if s.phase = .leaving then s.serve cfg (.shutdownCancel : Serve.Act σ β κ) else none
  | .count =>
    match s.phase, s.server.shutdown with
    | .leaving, .cancelled =>
      if 0 < s.inflight then some { s.tell (.stopping s.inflight) with phase := .draining s.now }
      else some { s.tell .stopped with phase := .returned }
    | _, _ => none
  | .drained =>
    match s.phase with
    | .draining _ => if s.inflight = 0 then some { s.tell .stopped with phase := .returned } else none
    | _ => none
  | .timeout =>
    match s.phase with
    | .draining since =>
      if since + gracePeriod ≤ s.now then some { s.tell .stopTimedOut with phase := .returned } else none
    | _ => none

def ofServe : LogEvent → Bool
  | .started _ _ _ => true
  | .stopping _ => true
  | .stopped => true
  | .stopTimedOut => true
  | _ => false

def State.course (s : State σ) : List (Nat × LogEvent) := s.log.filter (fun e => ofServe e.2)

inductive Course : Phase → List (Nat × LogEvent) → Prop where
  | awaiting : Course .awaiting []
  | starting : Course .starting []
  | failed : Course .failed []
  | panicked : Course .panicked []
  | stoppedEarly (t : Nat) : Course .returned [(t, .stopped)]
  | accepting (t : Nat) : Course .accepting [(t, .started cfg.address t cfg.options)]
  | leaving (t : Nat) : Course .leaving [(t, .started cfg.address t cfg.options)]
  | stoppedAtOnce (t t' : Nat) (h : t ≤ t') :
    Course .returned [(t, .started cfg.address t cfg.options), (t', .stopped)]
  | draining (t t' n : Nat) (h : t ≤ t') (hn : 0 < n) :
    Course (.draining t') [(t, .started cfg.address t cfg.options), (t', .stopping n)]
  | stopped (t t' t'' n : Nat) (h : t ≤ t') (hn : 0 < n) (h' : t' ≤ t'') :
    Course .returned [(t, .started cfg.address t cfg.options), (t', .stopping n), (t'', .stopped)]
  | timedOut (t t' t'' n : Nat) (h : t ≤ t') (hn : 0 < n) (h' : t' + gracePeriod ≤ t'') :
    Course .returned [(t, .started cfg.address t cfg.options), (t', .stopping n), (t'', .stopTimedOut)]

/-- The listener takes the connections in their order, one at a time: behind one that waits, or whose handshake
lasts, all others wait. -/
def InOrder (connections : List Connection) : Prop :=
  ∀ (i j : Nat) (c d : Connection), connections[i]? = some c → connections[j]? = some d → i < j →
    c.fate = .queued ∨ c.fate = .handshaking → d.fate = .queued

structure Orderly (s : State σ) : Prop where
  course : Course cfg s.phase s.course
  inOrder : InOrder s.connections
  /-- a handshake is only there with TLS, and while connections are accepted -/
  handshakes : ∀ c ∈ s.connections, c.fate = .handshaking → cfg.tls = true ∧ s.phase = .accepting
  counted : ∀ t n, (t, .stopping n) ∈ s.log → s.inflight ≤ n
  /-- when the stop is told, every connection is over, and every request has been answered or left -/
  stopped : ∀ t, (t, .stopped) ∈ s.log →
    (∀ c ∈ s.connections, c.fate ≠ .opened) ∧ ∀ r ∈ s.server.requests, r.leftAt ≠ none

/-- What is open later was open before. -/
def OpensNone (s s' : State σ) : Prop :=
  ∀ (i : Nat) (d : Connection), s'.connections[i]? = some d → d.fate = .opened →
    ∃ c, s.connections[i]? = some c ∧ c.fate = .opened

structure Inv (s : State σ) : Prop where
  server : Serve.Inv s.server
  engine : s.phase = .starting ∨ s.phase.listens = true → s.server.installed ≠ []
  quiet : s.phase = .awaiting ∨ s.phase = .starting ∨ s.phase = .accepting → s.server.shutdown = .none
  unbound : s.phase = .awaiting ∨ s.phase = .starting → s.connections = []
  course : Course cfg s.phase s.course
  past : ∀ e ∈ s.log, e.1 ≤ s.now
  inOrder : InOrder s.connections
  handshakes : ∀ c ∈ s.connections, c.fate = .handshaking → cfg.tls = true ∧ s.phase = .accepting
  counted : ∀ t n, (t, .stopping n) ∈ s.log → s.inflight ≤ n
  ended : ∀ t, (t, .stopped) ∈ s.log → s.inflight = 0
  owned : ∀ j < s.server.requests.length, ∃ c ∈ s.connections, j ∈ c.requests
  served : ∀ c ∈ s.connections, c.requests ≠ [] → c.fate = .opened ∨ c.fate = .closed
  left : ∀ c ∈ s.connections, c.fate = .closed → ∀ j ∈ c.requests, ∃ r, s.server.requests[j]? = some r ∧
    r.leftAt ≠ none

section Server

variable {base : Engine σ} {s s' : Serve.State σ} {a : Serve.Act σ β κ}

lemma serve_log (hs : Serve.step base s a = some s') : ∃ entries, s'.log = s.log ++ entries := by
  cases a <;> simp only [Serve.step, Serve.State.setStage] at hs <;> repeat' split at hs
  all_goals first
    | (obtain rfl := Option.some.inj hs; exact ⟨_, rfl⟩)
    | (obtain rfl := Option.some.inj hs; exact ⟨[], (List.append_nil _).symm⟩)
    | simp at hs

lemma serve_requests (hs : Serve.step base s a = some s') {i : Nat} {r : Serve.Request σ}
    (hr : s.requests[i]? = some r) : ∃ r', s'.requests[i]? = some r' ∧ (r.leftAt ≠ none → r'.leftAt ≠ none) := by
  have hset : ∀ j (old new : Serve.Request σ), s.requests[j]? = some old → old.leftAt = none →
      ∃ r', (s.requests.set j new)[i]? = some r' ∧ (r.leftAt ≠ none → r'.leftAt ≠ none) := by
    intro j old new hold hnone
    by_cases hij : j = i
    · subst j
      obtain rfl := Option.some.inj (hr.symm.trans hold)
      exact ⟨new, List.getElem?_set_self (List.getElem?_eq_some_iff.mp hr).1, fun hleft => absurd hnone hleft⟩
    · exact ⟨r, by rw [List.getElem?_set_ne hij, hr], id⟩
  cases a with
  | arrive =>
    simp only [Serve.step] at hs
    split at hs
    · simp at hs
    · obtain rfl := Option.some.inj hs
      exact ⟨r, by rw [List.getElem?_append_left (List.getElem?_eq_some_iff.mp hr).1, hr], id⟩
  | load j =>
    simp only [Serve.step] at hs
    split at hs
    · rename_i hget _
      obtain rfl := Option.some.inj hs
      exact hset j _ _ hget rfl
    · simp at hs
  | stream j =>
    simp only [Serve.step] at hs
    split at hs
    · rename_i hget
      obtain rfl := Option.some.inj hs
      exact hset j _ _ hget rfl
    · simp at hs
  | finish j =>
    simp only [Serve.step] at hs
    split at hs
    · rename_i hget
      obtain rfl := Option.some.inj hs
      exact hset j _ _ hget rfl
    · simp at hs
  | _ =>
    simp only [Serve.step] at hs
    repeat' split at hs
    all_goals first
      | (obtain rfl := Option.some.inj hs; exact ⟨r, hr, id⟩)
      | simp at hs

lemma serve_length (hs : Serve.step base s a = some s') {j : Nat} (hge : s.requests.length ≤ j)
    (hlt : j < s'.requests.length) : a = .arrive ∧ j = s.requests.length := by
  cases a with
  | arrive =>
    simp only [Serve.step] at hs
    split at hs
    · simp at hs
    · obtain rfl := Option.some.inj hs
      rw [List.length_append, List.length_singleton] at hlt
      exact ⟨rfl, by omega⟩
  | _ =>
    have hlen : s'.requests.length = s.requests.length := by
      simp only [Serve.step, Serve.State.setStage] at hs
      repeat' split at hs
      all_goals first
        | (obtain rfl := Option.some.inj hs; simp)
        | simp at hs
    omega

lemma serve_shutdown (hs : Serve.step base s a = some s') (hload : a ≠ .shutdownLoad)
    (hnone : s.shutdown = .none) : s'.shutdown = .none := by
  rcases Serve.step_shutdown hs with heq | ⟨ha, _⟩ | ⟨engine, hloaded, _⟩
  · exact heq.trans hnone
  · exact absurd ha hload
  · rw [hnone] at hloaded
    cases hloaded

end Server

variable {cfg} {s s' : State σ}

lemma course_append (log : List (Nat × LogEvent)) (now : Nat) (entries : List Serve.LogEntry) :
    (log ++ (entries.map toLog).map (now, ·)).filter (fun e => ofServe e.2) =
      log.filter (fun e => ofServe e.2) := by
  rw [List.filter_append]
  have hnone : ((entries.map toLog).map (now, ·)).filter (fun e => ofServe e.2) = [] := by
    rw [List.filter_eq_nil_iff]
    intro e he
    simp only [List.map_map, List.mem_map, Function.comp_apply] at he
    obtain ⟨entry, _, rfl⟩ := he
    cases entry <;> simp [toLog, ofServe]
  rw [hnone, List.append_nil]

lemma mem_course {t : Nat} {e : LogEvent} (he : ofServe e = true) : (t, e) ∈ s.log ↔ (t, e) ∈ s.course := by
  simp [State.course, he]

lemma Course.stopped_phase {phase : Phase} {log : List (Nat × LogEvent)} (h : Course cfg phase log) {t : Nat}
    (hmem : (t, .stopped) ∈ log) : phase = .returned := by
  cases h <;> simp at hmem <;> rfl

lemma Course.stopping_phase {phase : Phase} {log : List (Nat × LogEvent)} (h : Course cfg phase log) {t n : Nat}
    (hmem : (t, .stopping n) ∈ log) : phase = .returned ∨ phase = .draining t := by
  cases h <;> simp at hmem
  · exact Or.inr (by rw [hmem.1])
  · exact Or.inl rfl
  · exact Or.inl rfl

lemma Course.eq_nil {phase : Phase} {log : List (Nat × LogEvent)} (h : Course cfg phase log)
    (hphase : phase = .awaiting ∨ phase = .starting) : log = [] := by
  cases h <;> simp at hphase <;> rfl

lemma Course.eq_started {phase : Phase} {log : List (Nat × LogEvent)} (h : Course cfg phase log)
    (hphase : phase = .accepting ∨ phase = .leaving) : ∃ t, log = [(t, .started cfg.address t cfg.options)] := by
  cases h <;> simp at hphase <;> exact ⟨_, rfl⟩

lemma inv_init : Inv cfg (init : State σ) where
  server := Serve.inv_init
  engine h := by simp [init, Phase.listens] at h
  quiet _ := rfl
  unbound _ := rfl
  course := .awaiting
  past e he := by simp [init] at he
  inOrder i j c d hc := by simp [init] at hc
  handshakes c hc := by simp [init] at hc
  counted t n ht := by simp [init] at ht
  ended t ht := by simp [init] at ht
  owned j hj := by simp [init, Serve.init] at hj
  served c hc := by simp [init] at hc
  left c hc := by simp [init] at hc

lemma Inv.serve (h : Inv cfg s) {a : Serve.Act σ β κ}
    (ha : a = .arrive → ∃ c ∈ s.connections, s.server.requests.length ∈ c.requests)
    (hload : a ≠ .shutdownLoad ∨ s.phase = .leaving) (hs : s.serve cfg a = some s') :
    Inv cfg s' ∧ s'.phase = s.phase ∧ s'.now = s.now := by
  obtain ⟨server, hstep, rfl⟩ := Option.map_eq_some_iff.mp hs
  obtain ⟨entries, hlog⟩ := serve_log hstep
  have hdrop : server.log.drop s.server.log.length = entries := by rw [hlog, List.drop_left]
  have hcourse : State.course { s with
      server := server
      log := s.log ++ ((server.log.drop s.server.log.length).map toLog).map (s.now, ·) } = s.course :=
    course_append s.log s.now _
  have hmem : ∀ t e, ofServe e = true →
    (t, e) ∈ s.log ++ ((server.log.drop s.server.log.length).map toLog).map (s.now, ·) →
      (t, e) ∈ s.log := by
    intro t e he hin
    rw [mem_course he, ← hcourse]
    exact List.mem_filter.mpr ⟨hin, he⟩
  refine ⟨{ h with
    server := Serve.inv_step _ _ _ h.server hstep
    engine := fun hphase hnil => ?_
    quiet := fun hphase => ?_
    course := hcourse ▸ h.course
    past := fun e he => ?_
    counted := fun t n hin => h.counted t n (hmem t _ rfl hin)
    ended := fun t hin => h.ended t (hmem t _ rfl hin)
    owned := fun j hj => ?_
    left := fun c hc hclosed j hj => ?_ }, rfl, rfl⟩
  · exact h.engine hphase (List.prefix_nil.mp (hnil ▸ Serve.step_installed hstep))
  · apply serve_shutdown hstep _ (h.quiet hphase)
    rcases hload with hload | hleaving
    · exact hload
    · simp [hleaving] at hphase
  · rcases List.mem_append.mp he with he | he
    · exact h.past e he
    · obtain ⟨_, _, rfl⟩ := List.mem_map.mp he
      exact le_rfl
  · rcases Nat.lt_or_ge j s.server.requests.length with hlt | hge
    · exact h.owned j hlt
    · obtain ⟨rfl, rfl⟩ := serve_length hstep hge hj
      exact ha rfl
  · obtain ⟨r, hr, hleft⟩ := h.left c hc hclosed j hj
    obtain ⟨r', hr', hleft'⟩ := serve_requests hstep hr
    exact ⟨r', hr', hleft' hleft⟩

lemma inv_server (h : Inv cfg s) {act : Serve.Act σ β κ} (hs : step cfg s (.server act) = some s') :
    Inv cfg s' := by
  simp only [step] at hs
  split at hs
  · rename_i htask
    refine (h.serve (fun ha => ?_) (Or.inl fun ha => ?_) hs).1
    · subst ha
      cases htask
    · subst ha
      cases htask
  · cases hs

lemma inv_firstEngine (h : Inv cfg s) (hs : step cfg s (.firstEngine : Act σ β κ) = some s') : Inv cfg s' := by
  simp only [step] at hs
  split at hs
  · rename_i hphase
    obtain ⟨t, ht, rfl⟩ := Option.map_eq_some_iff.mp hs
    obtain ⟨hinv, hsame, _⟩ := h.serve (by simp) (Or.inl (by simp)) ht
    obtain ⟨server, hstep, rfl⟩ := Option.map_eq_some_iff.mp ht
    have hnil := (hsame.trans hphase ▸ hinv.course).eq_nil (Or.inl rfl)
    refine { hinv with
      engine := fun _ => ?_
      quiet := fun _ => hinv.quiet (Or.inl (hsame.trans hphase))
      unbound := fun _ => hinv.unbound (Or.inl (hsame.trans hphase))
      course := ?_
      handshakes := fun c hc hfate => ?_ }
    · simp only [Serve.step] at hstep
      split at hstep
      · obtain rfl := Option.some.inj hstep
        simp
      · cases hstep
    · exact hnil ▸ .starting
    · have hboth := hinv.handshakes c hc hfate
      rw [hsame, hphase] at hboth
      cases hboth.2
  · cases hs

lemma Inv.no_handshake (h : Inv cfg s) (hphase : s.phase ≠ .accepting) :
    ∀ c ∈ s.connections, c.fate ≠ .handshaking :=
  fun c hc hfate => hphase (h.handshakes c hc hfate).2

lemma Inv.turn (h : Inv cfg s) (phase : Phase) (told : List LogEvent)
    (hphase : phase ≠ .awaiting ∧ phase ≠ .starting ∧ (phase = .accepting → s.phase = .starting))
    (hlistens : phase.listens = true → s.phase = .starting ∨ s.phase.listens = true)
    (hcourse : Course cfg phase (s.course ++ (told.filter ofServe).map (s.now, ·)))
    (hhands : ∀ c ∈ s.connections, c.fate ≠ .handshaking)
    (hcounted : ∀ n, .stopping n ∈ told → s.inflight ≤ n) (hended : .stopped ∈ told → s.inflight = 0) :
    Inv cfg { s with phase := phase, log := s.log ++ told.map (s.now, ·) } where
  server := h.server
  engine hlater := h.engine (hlistens (hlater.resolve_left hphase.2.1))
  quiet hearly := h.quiet (Or.inr (Or.inl (hphase.2.2 ((hearly.resolve_left hphase.1).resolve_left hphase.2.1))))
  unbound hearly := absurd (hearly.resolve_left hphase.1) hphase.2.1
  course := by
    have heq : (told.map (s.now, ·)).filter (fun e => ofServe e.2) = (told.filter ofServe).map (s.now, ·) := by
      rw [List.filter_map]
      rfl
    rwa [State.course, List.filter_append, heq]
  past e he := by
    rcases List.mem_append.mp he with he | he
    · exact h.past e he
    · obtain ⟨_, _, rfl⟩ := List.mem_map.mp he
      exact le_rfl
  inOrder := h.inOrder
  handshakes c hc hfate := absurd hfate (hhands c hc)
  counted t n hin := by
    rcases List.mem_append.mp hin with hin | hin
    · exact h.counted t n hin
    · obtain ⟨e, he, heq⟩ := List.mem_map.mp hin
      obtain ⟨_, rfl⟩ := Prod.mk.inj heq
      exact hcounted n he
  ended t hin := by
    rcases List.mem_append.mp hin with hin | hin
    · exact h.ended t hin
    · obtain ⟨e, he, heq⟩ := List.mem_map.mp hin
      obtain ⟨_, rfl⟩ := Prod.mk.inj heq
      exact hended he
  owned := h.owned
  served := h.served
  left := h.left

lemma Inv.past_course (h : Inv cfg s) {t : Nat} {e : LogEvent} (hmem : (t, e) ∈ s.course) : t ≤ s.now :=
  h.past (t, e) (List.mem_of_mem_filter hmem)

lemma inv_noEngine (h : Inv cfg s) (hs : step cfg s (.noEngine : Act σ β κ) = some s') : Inv cfg s' := by
  simp only [step] at hs
  split at hs
  · rename_i hready
    obtain rfl := Option.some.inj hs
    have hturn := h.turn .panicked [] (by simp) (by simp [Phase.listens])
      (h.course.eq_nil (Or.inl hready.1) ▸ .panicked) (h.no_handshake (by simp [hready.1])) (by simp) (by simp)
    simpa using hturn
  · cases hs

lemma inv_stopEarly (h : Inv cfg s) (hs : step cfg s (.stopEarly : Act σ β κ) = some s') : Inv cfg s' := by
  simp only [step] at hs
  split at hs
  · rename_i hready
    obtain rfl := Option.some.inj hs
    refine h.turn _ [.stopped] (by simp) (by simp [Phase.listens])
      ?_ (h.no_handshake (by simp [hready.1])) (by simp) ?_
    · rw [h.course.eq_nil (Or.inl hready.1)]
      exact .stoppedEarly s.now
    · intro _
      rw [State.inflight, h.unbound (Or.inl hready.1)]
      rfl
  · cases hs

lemma inv_bind (h : Inv cfg s) {bound : Bool} (hs : step cfg s (.bind bound : Act σ β κ) = some s') :
    Inv cfg s' := by
  simp only [step] at hs
  split at hs
  · rename_i hstarting
    have hnil := h.course.eq_nil (Or.inr hstarting)
    have hhands := h.no_handshake (by simp [hstarting])
    split at hs
    · obtain rfl := Option.some.inj hs
      refine h.turn _ [.started cfg.address s.now cfg.options] (by simp [hstarting])
        (fun _ => Or.inl hstarting) ?_ hhands
        (by simp) (by simp)
      rw [hnil]
      exact .accepting s.now
    · obtain rfl := Option.some.inj hs
      have hturn := h.turn .failed [] (by simp) (by simp [Phase.listens]) (hnil ▸ .failed) hhands (by simp)
        (by simp)
      simpa using hturn
  · cases hs

lemma inv_count (h : Inv cfg s) (hs : step cfg s (.count : Act σ β κ) = some s') : Inv cfg s' := by
  simp only [step] at hs
  split at hs
  · rename_i hphase _
    obtain ⟨t, hstarted⟩ := h.course.eq_started (Or.inr hphase)
    have ht : t ≤ s.now := h.past_course (hstarted ▸ List.mem_singleton_self _)
    have hhands := h.no_handshake (by simp [hphase])
    split at hs
    · rename_i hpos
      obtain rfl := Option.some.inj hs
      refine h.turn _ [.stopping s.inflight] (by simp) (by simp [hphase, Phase.listens])
        ?_ hhands (by simp) (by simp)
      rw [hstarted]
      exact .draining t s.now s.inflight ht hpos
    · rename_i hpos
      obtain rfl := Option.some.inj hs
      refine h.turn _ [.stopped] (by simp) (by simp [Phase.listens]) ?_ hhands (by simp) (fun _ => by omega)
      rw [hstarted]
      exact .stoppedAtOnce t s.now ht
  · cases hs

lemma Course.draining_eq {log : List (Nat × LogEvent)} {since : Nat} (h : Course cfg (.draining since) log) :
    ∃ t n, t ≤ since ∧ 0 < n ∧ log = [(t, .started cfg.address t cfg.options), (since, .stopping n)] := by
  cases h with
  | draining t _ n hle hn => exact ⟨t, n, hle, hn, rfl⟩

lemma inv_drained (h : Inv cfg s) (hs : step cfg s (.drained : Act σ β κ) = some s') : Inv cfg s' := by
  simp only [step] at hs
  split at hs
  · rename_i since hphase
    split at hs
    · rename_i hnone
      obtain rfl := Option.some.inj hs
      obtain ⟨t, n, hle, hn, hlog⟩ := (hphase ▸ h.course).draining_eq
      have hnow : since ≤ s.now := h.past_course (hlog ▸ List.mem_cons_of_mem _ (List.mem_singleton_self _))
      refine h.turn _ [.stopped] (by simp) (by simp [Phase.listens])
        ?_ (h.no_handshake (by simp [hphase])) (by simp)
        (fun _ => hnone)
      rw [hlog]
      exact .stopped t since s.now n hle hn hnow
    · cases hs
  · cases hs

lemma inv_timeout (h : Inv cfg s) (hs : step cfg s (.timeout : Act σ β κ) = some s') : Inv cfg s' := by
  simp only [step] at hs
  split at hs
  · rename_i since hphase
    split at hs
    · rename_i hdue
      obtain rfl := Option.some.inj hs
      obtain ⟨t, n, hle, hn, hlog⟩ := (hphase ▸ h.course).draining_eq
      refine h.turn _ [.stopTimedOut] (by simp) (by simp [Phase.listens])
        ?_ (h.no_handshake (by simp [hphase])) (by simp)
        (by simp)
      rw [hlog]
      exact .timedOut t since s.now n hle hn hdue
    · cases hs
  · cases hs

lemma find_some {fate : Fate} {i : Nat} {c : Connection} (h : s.find fate = some (i, c)) :
    s.connections[i]? = some c ∧ c.fate = fate ∧ ∀ j < i, ∀ d, s.connections[j]? = some d → d.fate ≠ fate := by
  obtain ⟨c', hc, heq⟩ := Option.map_eq_some_iff.mp h
  obtain ⟨rfl, rfl⟩ := Prod.mk.inj heq
  obtain ⟨hlt, hget⟩ := List.getElem?_eq_some_iff.mp hc
  refine ⟨hc, ?_, fun j hj d hd => ?_⟩
  · have hfound := List.findIdx_getElem (w := hlt)
    rw [hget] at hfound
    exact of_decide_eq_true hfound
  · have hnot := List.not_of_lt_findIdx hj
    obtain ⟨_, rfl⟩ := List.getElem?_eq_some_iff.mp hd
    exact of_decide_eq_false hnot

lemma find_none {fate : Fate} (h : s.find fate = none) : ∀ c ∈ s.connections, c.fate ≠ fate := by
  intro c hc hfate
  have hlt := List.findIdx_lt_length_of_exists (p := fun c : Connection => c.fate = fate)
    ⟨c, hc, by simpa using hfate⟩
  simp [State.find, hlt] at h

lemma Inv.setFate (h : Inv cfg s) {i : Nat} {c : Connection} (hi : s.connections[i]? = some c) {fate : Fate}
    (horder : ∀ j < i, ∀ d, s.connections[j]? = some d → d.fate ≠ .queued ∧ d.fate ≠ .handshaking)
    (hwait : fate = .queued ∨ fate = .handshaking → c.fate = .queued)
    (hbound : s.phase ≠ .awaiting ∧ s.phase ≠ .starting)
    (hhand : fate = .handshaking → cfg.tls = true ∧ s.phase = .accepting)
    (hopen : fate = .opened → s.phase = .accepting)
    (hserved : c.requests ≠ [] → fate = .opened ∨ fate = .closed)
    (hleft : fate = .closed → ∀ j ∈ c.requests, ∃ r, s.server.requests[j]? = some r ∧ r.leftAt ≠ none) :
    Inv cfg (s.setFate i c fate) := by
  obtain ⟨hlt, hget⟩ := List.getElem?_eq_some_iff.mp hi
  have hmem : ∀ d ∈ (s.setFate i c fate).connections, d ∈ s.connections ∨ d = { c with fate := fate } :=
    fun d hd => List.mem_or_eq_of_mem_set hd
  have hcount : s.phase ≠ .accepting → (s.setFate i c fate).inflight ≤ s.inflight := by
    intro hphase
    have hfate : fate ≠ .opened := fun heq => hphase (hopen heq)
    have hle : (if c.fate = .opened then 1 else 0) ≤ s.inflight := by
      split
      · rename_i hc
        exact List.countP_pos_iff.mpr ⟨c, List.mem_of_getElem? hi, by simpa using hc⟩
      · exact Nat.zero_le _
    simp only [State.inflight, State.setFate, List.countP_set hlt, hget, decide_eq_true_eq, hfate,
      if_false] at hle ⊢
    omega
  exact {
    server := h.server
    engine := h.engine
    quiet := h.quiet
    unbound := fun hearly => absurd hearly (not_or.mpr hbound)
    course := h.course
    past := h.past
    inOrder := by
      intro j k d e hd he hjk hwaits
      by_cases hij : i = j
      · subst j
        rw [State.setFate, List.getElem?_set_self hlt, Option.some.injEq] at hd
        subst hd
        rw [State.setFate, List.getElem?_set_ne (by omega)] at he
        exact h.inOrder i k c e hi he hjk (Or.inl (hwait hwaits))
      · rw [State.setFate, List.getElem?_set_ne hij] at hd
        by_cases hik : i = k
        · subst k
          obtain ⟨hq, hh⟩ := horder j hjk d hd
          exact absurd hwaits (by simp [hq, hh])
        · rw [State.setFate, List.getElem?_set_ne hik] at he
          exact h.inOrder j k d e hd he hjk hwaits
    handshakes := by
      intro d hd hfate
      rcases hmem d hd with hd | rfl
      · exact h.handshakes d hd hfate
      · exact hhand hfate
    counted := by
      intro t n hin
      refine (hcount ?_).trans (h.counted t n hin)
      rcases h.course.stopping_phase ((mem_course rfl).mp hin) with hphase | hphase <;> simp [hphase]
    ended := by
      intro t hin
      have hphase := h.course.stopped_phase ((mem_course rfl).mp hin)
      have hle := hcount (by simp [hphase])
      rw [h.ended t hin] at hle
      exact Nat.le_zero.mp hle
    owned := by
      intro j hj
      obtain ⟨d, hd, hjd⟩ := h.owned j hj
      obtain ⟨k, hk⟩ := List.mem_iff_getElem?.mp hd
      by_cases hik : i = k
      · subst k
        obtain rfl := Option.some.inj (hi.symm.trans hk)
        exact ⟨_, List.mem_of_getElem? (List.getElem?_set_self hlt), hjd⟩
      · exact ⟨d, List.mem_of_getElem? ((List.getElem?_set_ne hik).trans hk), hjd⟩
    served := by
      intro d hd hne
      rcases hmem d hd with hd | rfl
      · exact h.served d hd hne
      · exact hserved hne
    left := by
      intro d hd hfate
      rcases hmem d hd with hd | rfl
      · exact h.left d hd hfate
      · exact hleft hfate }

lemma Inv.before (h : Inv cfg s) {i : Nat} {c : Connection} (hi : s.connections[i]? = some c)
    (hc : c.fate ≠ .queued) :
    ∀ j < i, ∀ d, s.connections[j]? = some d → d.fate ≠ .queued ∧ d.fate ≠ .handshaking := by
  intro j hj d hd
  have hwaits := h.inOrder j i d c hd hi hj
  exact ⟨fun hq => hc (hwaits (Or.inl hq)), fun hh => hc (hwaits (Or.inr hh))⟩

lemma Inv.first (hidle : (s.find .handshaking).isNone) {i : Nat} {c : Connection}
    (hfind : s.find .queued = some (i, c)) :
    ∀ j < i, ∀ d, s.connections[j]? = some d → d.fate ≠ .queued ∧ d.fate ≠ .handshaking := by
  intro j hj d hd
  refine ⟨(find_some hfind).2.2 j hj d hd, ?_⟩
  exact find_none (Option.isNone_iff_eq_none.mp hidle) d (List.mem_of_getElem? hd)

lemma Inv.no_requests (h : Inv cfg s) {i : Nat} {c : Connection} (hi : s.connections[i]? = some c)
    (hopen : c.fate ≠ .opened) (hclosed : c.fate ≠ .closed) : c.requests = [] := by
  by_contra hne
  exact (h.served c (List.mem_of_getElem? hi) hne).elim hopen hclosed

lemma inv_accept (h : Inv cfg s) (hs : step cfg s (.accept : Act σ β κ) = some s') : Inv cfg s' := by
  simp only [step] at hs
  split at hs
  · rename_i hready
    obtain ⟨⟨i, c⟩, hfind, rfl⟩ := Option.map_eq_some_iff.mp hs
    obtain ⟨hi, hc, _⟩ := find_some hfind
    have hnone := h.no_requests hi (by simp [hc]) (by simp [hc])
    refine h.setFate hi (Inv.first hready.2 hfind) (fun _ => hc) (by simp [hready.1]) (fun hfate => ?_)
      (fun _ => hready.1) (fun hne => absurd hnone hne) (fun _ j hj => by simp [hnone] at hj)
    refine ⟨?_, hready.1⟩
    by_contra htls
    simp [htls] at hfate
  · cases hs

lemma inv_acceptError (h : Inv cfg s) {lost : Bool} (hs : step cfg s (.acceptError lost : Act σ β κ) = some s') :
    Inv cfg s' := by
  simp only [step] at hs
  split at hs
  · rename_i hready
    split at hs
    · obtain ⟨⟨i, c⟩, hfind, rfl⟩ := Option.map_eq_some_iff.mp hs
      obtain ⟨hi, hc, _⟩ := find_some hfind
      have hnone := h.no_requests hi (by simp [hc]) (by simp [hc])
      exact h.setFate hi (Inv.first hready.2 hfind) (by simp) (by simp [hready.1]) (by simp) (by simp)
        (fun hne => absurd hnone hne) (by simp)
    · exact Option.some.inj hs ▸ h
  · cases hs

lemma inv_handshake (h : Inv cfg s) {ok : Bool} (hs : step cfg s (.handshake ok : Act σ β κ) = some s') :
    Inv cfg s' := by
  simp only [step] at hs
  split at hs
  · rename_i hphase
    obtain ⟨⟨i, c⟩, hfind, rfl⟩ := Option.map_eq_some_iff.mp hs
    obtain ⟨hi, hc, _⟩ := find_some hfind
    have hnone := h.no_requests hi (by simp [hc]) (by simp [hc])
    refine h.setFate hi (h.before hi (by simp [hc])) ?_ (by simp [hphase]) ?_ (fun _ => hphase)
      (fun hne => absurd hnone hne) (fun _ j hj => by simp [hnone] at hj)
    · cases ok <;> simp
    · cases ok <;> simp
  · cases hs

lemma Inv.bound (h : Inv cfg s) {i : Nat} {c : Connection} (hi : s.connections[i]? = some c) :
    s.phase ≠ .awaiting ∧ s.phase ≠ .starting := by
  rw [← not_or]
  intro hearly
  simp [h.unbound hearly] at hi

lemma inv_close (h : Inv cfg s) {i : Nat} (hs : step cfg s (.close i : Act σ β κ) = some s') : Inv cfg s' := by
  simp only [step] at hs
  split at hs
  · rename_i requests hi
    split at hs
    · rename_i hall
      obtain rfl := Option.some.inj hs
      refine h.setFate hi (h.before hi (by simp)) (by simp) (h.bound hi) (by simp) (by simp)
        (fun _ => Or.inr rfl) ?_
      intro _ j hj
      have hleft := List.all_eq_true.mp hall j hj
      cases hr : s.server.requests[j]? with
      | none => simp [hr] at hleft
      | some r =>
        rw [hr, Option.any_some, Option.isSome_iff_ne_none] at hleft
        exact ⟨r, rfl, hleft⟩
    · cases hs
  · cases hs

lemma inv_shutdown (h : Inv cfg s) (hs : step cfg s (.shutdown : Act σ β κ) = some s') : Inv cfg s' := by
  simp only [step] at hs
  split at hs
  · rename_i hready
    obtain rfl := Option.some.inj hs
    have hleave : ∀ t : State σ, Inv cfg t → t.phase = .accepting → (∀ c ∈ t.connections, c.fate ≠ .handshaking) →
        Inv cfg { t with phase := .leaving } := by
      intro t ht hphase hhands
      obtain ⟨start, hstarted⟩ := ht.course.eq_started (Or.inl hphase)
      have hturn := ht.turn .leaving [] (by simp) (by simp [hphase, Phase.listens])
        (by rw [hstarted]; exact .leaving start)
        hhands (by simp) (by simp)
      simpa using hturn
    cases hfind : s.find .handshaking with
    | none => exact hleave s h hready.1 (find_none hfind)
    | some found =>
      obtain ⟨i, c⟩ := found
      obtain ⟨hi, hc, _⟩ := find_some hfind
      have hnone := h.no_requests hi (by simp [hc]) (by simp [hc])
      have hlt := (List.getElem?_eq_some_iff.mp hi).1
      refine hleave _ (h.setFate hi (h.before hi (by simp [hc])) (by simp) (h.bound hi) (by simp) (by simp)
        (fun hne => absurd hnone hne) (by simp)) hready.1 (fun d hd hfate => ?_)
      obtain ⟨k, hk⟩ := List.mem_iff_getElem?.mp hd
      have hk : (s.connections.set i { c with fate := .abandoned })[k]? = some d := hk
      by_cases hik : i = k
      · subst k
        rw [List.getElem?_set_self hlt, Option.some.injEq] at hk
        subst hk
        cases hfate
      · rw [List.getElem?_set_ne hik] at hk
        rcases Nat.lt_or_gt_of_ne hik with hlt | hgt
        · have hqueued := h.inOrder i k c d hi hk hlt (Or.inr hc)
          simp [hfate] at hqueued
        · have hqueued := h.inOrder k i d c hk hi hgt (Or.inr hfate)
          simp [hc] at hqueued
  · cases hs

lemma inv_connect (h : Inv cfg s) (hs : step cfg s (.connect : Act σ β κ) = some s') : Inv cfg s' := by
  simp only [step] at hs
  split at hs
  · rename_i hlistens
    obtain rfl := Option.some.inj hs
    have hinflight : State.inflight { s with connections := s.connections ++ [⟨.queued, []⟩] } = s.inflight := by
      simp [State.inflight]
    have hbound : ¬(s.phase = .awaiting ∨ s.phase = .starting) := by
      rintro (hphase | hphase) <;> simp [hphase, Phase.listens] at hlistens
    exact { h with
      unbound := fun hearly => absurd hearly hbound
      inOrder := by
        intro i j c d hc hd hij hwaits
        have hj := (List.getElem?_eq_some_iff.mp hd).1
        simp only [List.length_append, List.length_singleton] at hj
        rw [List.getElem?_append_left (by omega)] at hc
        rcases Nat.lt_or_ge j s.connections.length with hlt | hge
        · rw [List.getElem?_append_left hlt] at hd
          exact h.inOrder i j c d hc hd hij hwaits
        · rw [List.getElem?_append_right hge, show j - s.connections.length = 0 by omega] at hd
          exact (Option.some.inj hd) ▸ rfl
      handshakes := by
        intro c hc hfate
        rcases List.mem_append.mp hc with hc | hc
        · exact h.handshakes c hc hfate
        · obtain rfl := List.mem_singleton.mp hc
          cases hfate
      counted := fun t n hin => hinflight ▸ h.counted t n hin
      ended := fun t hin => hinflight ▸ h.ended t hin
      owned := by
        intro j hj
        obtain ⟨c, hc, hjc⟩ := h.owned j hj
        exact ⟨c, List.mem_append_left _ hc, hjc⟩
      served := by
        intro c hc hne
        rcases List.mem_append.mp hc with hc | hc
        · exact h.served c hc hne
        · obtain rfl := List.mem_singleton.mp hc
          exact absurd rfl hne
      left := by
        intro c hc hfate
        rcases List.mem_append.mp hc with hc | hc
        · exact h.left c hc hfate
        · obtain rfl := List.mem_singleton.mp hc
          cases hfate }
  · cases hs

lemma Inv.adopt (h : Inv cfg s) {i : Nat} {requests : List Nat} (hi : s.connections[i]? = some ⟨.opened, requests⟩)
    (j : Nat) : Inv cfg { s with connections := s.connections.set i ⟨.opened, requests ++ [j]⟩ } := by
  obtain ⟨hlt, hget⟩ := List.getElem?_eq_some_iff.mp hi
  have hfates : ∀ (k : Nat) (d : Connection), (s.connections.set i ⟨.opened, requests ++ [j]⟩)[k]? = some d →
      ∃ e, s.connections[k]? = some e ∧ e.fate = d.fate := by
    intro k d hd
    by_cases hik : i = k
    · subst k
      rw [List.getElem?_set_self hlt, Option.some.injEq] at hd
      exact ⟨_, hi, hd ▸ rfl⟩
    · rw [List.getElem?_set_ne hik] at hd
      exact ⟨d, hd, rfl⟩
  have hinflight : State.inflight { s with connections := s.connections.set i ⟨.opened, requests ++ [j]⟩ } =
      s.inflight := by
    have hpos : 0 < s.inflight := List.countP_pos_iff.mpr ⟨_, List.mem_of_getElem? hi, by simp⟩
    simp only [State.inflight, List.countP_set hlt, hget, decide_true, if_true] at hpos ⊢
    omega
  have hmem : ∀ d ∈ s.connections.set i ⟨.opened, requests ++ [j]⟩, d ∈ s.connections ∨ d.fate = .opened := by
    intro d hd
    rcases List.mem_or_eq_of_mem_set hd with hd | rfl
    · exact Or.inl hd
    · exact Or.inr rfl
  exact { h with
    unbound := fun hearly => by simp [h.unbound hearly]
    inOrder := by
      intro k l d e hd he hkl hwaits
      obtain ⟨d', hd', hfate⟩ := hfates k d hd
      obtain ⟨e', he', hfate'⟩ := hfates l e he
      exact hfate' ▸ h.inOrder k l d' e' hd' he' hkl (hfate ▸ hwaits)
    handshakes := by
      intro d hd hfate
      rcases hmem d hd with hd | hopen
      · exact h.handshakes d hd hfate
      · simp [hopen] at hfate
    counted := fun t n hin => hinflight ▸ h.counted t n hin
    ended := fun t hin => hinflight ▸ h.ended t hin
    owned := by
      intro k hk
      obtain ⟨d, hd, hkd⟩ := h.owned k hk
      obtain ⟨l, hl⟩ := List.mem_iff_getElem?.mp hd
      by_cases hil : i = l
      · subst l
        obtain rfl := Option.some.inj (hi.symm.trans hl)
        exact ⟨_, List.mem_of_getElem? (List.getElem?_set_self hlt), List.mem_append_left _ hkd⟩
      · exact ⟨d, List.mem_of_getElem? ((List.getElem?_set_ne hil).trans hl), hkd⟩
    served := by
      intro d hd hne
      rcases hmem d hd with hd | hopen
      · exact h.served d hd hne
      · exact Or.inl hopen
    left := by
      intro d hd hfate
      rcases hmem d hd with hd | hopen
      · exact h.left d hd hfate
      · simp [hopen] at hfate }

lemma inv_request (h : Inv cfg s) {i : Nat} (hs : step cfg s (.request i : Act σ β κ) = some s') : Inv cfg s' := by
  simp only [step] at hs
  split at hs
  · rename_i requests hi
    obtain ⟨t, ht, rfl⟩ := Option.map_eq_some_iff.mp hs
    obtain ⟨server, hstep, rfl⟩ := Option.map_eq_some_iff.mp ht
    have hadopt := h.adopt hi s.server.requests.length
    refine (hadopt.serve (a := (.arrive : Serve.Act σ β κ))
      (fun _ => ⟨_, List.mem_of_getElem? (List.getElem?_set_self
      (List.getElem?_eq_some_iff.mp hi).1), by simp⟩) (Or.inl (by simp)) ?_).1
    simp only [State.serve, hstep, Option.map_some]
  · cases hs

lemma inv_step (s : State σ) (a : Act σ β κ) (s' : State σ) (h : Inv cfg s) (hs : step cfg s a = some s') :
    Inv cfg s' := by
  cases a with
  | tick ms =>
    obtain rfl := Option.some.inj hs
    exact { h with past := fun e he => (h.past e he).trans (Nat.le_add_right _ _) }
  | signal =>
    obtain rfl := Option.some.inj hs
    exact { h with }
  | server act => exact inv_server h hs
  | firstEngine => exact inv_firstEngine h hs
  | noEngine => exact inv_noEngine h hs
  | stopEarly => exact inv_stopEarly h hs
  | bind bound => exact inv_bind h hs
  | connect => exact inv_connect h hs
  | accept => exact inv_accept h hs
  | acceptError lost => exact inv_acceptError h hs
  | handshake ok => exact inv_handshake h hs
  | request i => exact inv_request h hs
  | close i => exact inv_close h hs
  | shutdown => exact inv_shutdown h hs
  | loadEngine =>
    simp only [step] at hs
    split at hs
    · rename_i hphase
      exact (h.serve (by simp) (Or.inr hphase) hs).1
    · cases hs
  | cancelStreams =>
    simp only [step] at hs
    split at hs
    · exact (h.serve (by simp) (Or.inl (by simp)) hs).1
    · cases hs
  | count => exact inv_count h hs
  | drained => exact inv_drained h hs
  | timeout => exact inv_timeout h hs

lemma inv_run {acts : List (Act σ β κ)} (h : run (step cfg) init acts = some s) : Inv cfg s :=
  run_invariant inv_step inv_init h

lemma Inv.orderly (h : Inv cfg s) : Orderly cfg s where
  course := h.course
  inOrder := h.inOrder
  handshakes := h.handshakes
  counted := h.counted
  stopped t hin := by
    have hnone : ∀ c ∈ s.connections, c.fate ≠ .opened := by
      intro c hc
      simpa using List.countP_eq_zero.mp (h.ended t hin) c hc
    refine ⟨hnone, fun r hr => ?_⟩
    obtain ⟨j, hj⟩ := List.mem_iff_getElem?.mp hr
    obtain ⟨c, hc, hjc⟩ := h.owned j (List.getElem?_eq_some_iff.mp hj).1
    have hclosed := (h.served c hc (List.ne_nil_of_mem hjc)).resolve_left (hnone c hc)
    obtain ⟨r', hr', hleft⟩ := h.left c hc hclosed j hjc
    exact Option.some.inj (hj.symm.trans hr') ▸ hleft

lemma opensNone_refl (s : State σ) : OpensNone s s := fun _ d hd hopen => ⟨d, hd, hopen⟩

lemma OpensNone.trans {t : State σ} (h : OpensNone s t) (h' : OpensNone t s') : OpensNone s s' := by
  intro i d hd hopen
  obtain ⟨c, hc, hcopen⟩ := h' i d hd hopen
  exact h i c hc hcopen

lemma opensNone_serve {act : Serve.Act σ β κ} (hs : s.serve cfg act = some s') :
    s'.phase = s.phase ∧ OpensNone s s' := by
  obtain ⟨_, _, rfl⟩ := Option.map_eq_some_iff.mp hs
  exact ⟨rfl, opensNone_refl s⟩

lemma opensNone_set {i : Nat} {c : Connection} (hi : s.connections[i]? = some c) (hc : c.fate = .opened)
    (new : Connection) {server : Serve.State σ} {log : List (Nat × LogEvent)} :
    OpensNone s { s with server := server, connections := s.connections.set i new, log := log } := by
  intro j d hd hopen
  by_cases hij : i = j
  · exact ⟨c, hij ▸ hi, hc⟩
  · exact ⟨d, (List.getElem?_set_ne hij).symm.trans hd, hopen⟩

lemma opensNone_step {a : Act σ β κ} (h : s.phase.pastLoop = true) (hs : step cfg s a = some s') :
    s'.phase.pastLoop = true ∧ OpensNone s s' := by
  have hphase : s.phase ≠ .awaiting ∧ s.phase ≠ .starting ∧ s.phase ≠ .accepting := by
    refine ⟨?_, ?_, ?_⟩ <;> (intro he; simp [he, Phase.pastLoop] at h)
  cases a with
  | tick ms =>
    obtain rfl := Option.some.inj hs
    exact ⟨h, opensNone_refl s⟩
  | signal =>
    obtain rfl := Option.some.inj hs
    exact ⟨h, opensNone_refl s⟩
  | server act =>
    simp only [step] at hs
    split at hs
    · obtain ⟨hsame, hopens⟩ := opensNone_serve hs
      exact ⟨hsame ▸ h, hopens⟩
    · cases hs
  | loadEngine =>
    simp only [step] at hs
    split at hs
    · obtain ⟨hsame, hopens⟩ := opensNone_serve hs
      exact ⟨hsame ▸ h, hopens⟩
    · cases hs
  | cancelStreams =>
    simp only [step] at hs
    split at hs
    · obtain ⟨hsame, hopens⟩ := opensNone_serve hs
      exact ⟨hsame ▸ h, hopens⟩
    · cases hs
  | connect =>
    simp only [step] at hs
    split at hs
    · obtain rfl := Option.some.inj hs
      refine ⟨h, fun i d hd hopen => ?_⟩
      rcases Nat.lt_or_ge i s.connections.length with hlt | hge
      · exact ⟨d, (List.getElem?_append_left hlt).symm.trans hd, hopen⟩
      · rw [List.getElem?_append_right hge] at hd
        obtain rfl := List.mem_singleton.mp (List.mem_of_getElem? hd)
        cases hopen
    · cases hs
  | request i =>
    simp only [step] at hs
    split at hs
    · rename_i requests hi
      obtain ⟨t, ht, rfl⟩ := Option.map_eq_some_iff.mp hs
      obtain ⟨server, _, rfl⟩ := Option.map_eq_some_iff.mp ht
      exact ⟨h, opensNone_set hi rfl _⟩
    · cases hs
  | close i =>
    simp only [step] at hs
    split at hs
    · rename_i requests hi
      split at hs
      · obtain rfl := Option.some.inj hs
        exact ⟨h, opensNone_set hi rfl _⟩
      · cases hs
    · cases hs
  | count =>
    simp only [step] at hs
    split at hs
    · split at hs <;> (obtain rfl := Option.some.inj hs; exact ⟨rfl, opensNone_refl s⟩)
    · cases hs
  | drained =>
    simp only [step] at hs
    split at hs
    · split at hs
      · obtain rfl := Option.some.inj hs
        exact ⟨rfl, opensNone_refl s⟩
      · cases hs
    · cases hs
  | timeout =>
    simp only [step] at hs
    split at hs
    · split at hs
      · obtain rfl := Option.some.inj hs
        exact ⟨rfl, opensNone_refl s⟩
      · cases hs
    · cases hs
  | _ => simp [step, hphase] at hs

lemma opensNone_run {later : List (Act σ β κ)} (h : s.phase.pastLoop = true)
    (hs : run (step cfg) s later = some s') : OpensNone s s' := by
  have hboth : s'.phase.pastLoop = true ∧ OpensNone s s' := by
    refine run_invariant (P := fun t => t.phase.pastLoop = true ∧ OpensNone s t) ?_ ⟨h, opensNone_refl s⟩ hs
    intro t a t' ht hstep
    obtain ⟨hpast, hopens⟩ := opensNone_step ht.1 hstep
    exact ⟨hpast, ht.2.trans hopens⟩
  exact hboth.2

theorem lifecycle_orderly {acts : List (Act σ β κ)} (h : run (step cfg) init acts = some s) :
    Orderly cfg s ∧ ∀ (later : List (Act σ β κ)) (s' : State σ), run (step cfg) s later = some s' →
      ∀ t n, (t, .stopping n) ∈ s.log → OpensNone s s' := by
  have hinv := inv_run h
  refine ⟨hinv.orderly, fun later s' hlater t n hin => opensNone_run ?_ hlater⟩
  rcases hinv.course.stopping_phase ((mem_course rfl).mp hin) with hphase | hphase <;> rw [hphase] <;> rfl

def Act.own : Act σ β κ → Bool
  | .tick _ => true
  | .stopEarly => true
  | .bind _ => true
  | .shutdown => true
  | .loadEngine => true
  | .cancelStreams => true
  | .count => true
  | .timeout => true
  | _ => false

variable (β κ) in
/-- From here `serve` can return by itself within the grace period. -/
def Stops (cfg : Config σ) (s : State σ) : Prop :=
  ∃ (later : List (Act σ β κ)) (t : State σ), (∀ a ∈ later, a.own = true) ∧ run (step cfg) s later = some t ∧
    t.phase = .returned ∧ t.now ≤ s.now + gracePeriod

lemma stops_step {a : Act σ β κ} (ha : a.own = true) (hs : step cfg s a = some s') (hnow : s'.now = s.now)
    (h : Stops β κ cfg s') : Stops β κ cfg s := by
  obtain ⟨later, t, hlater, hrun, hphase, hle⟩ := h
  exact ⟨a :: later, t, List.forall_mem_cons.mpr ⟨ha, hlater⟩, run_cons.mpr ⟨s', hs, hrun⟩, hphase, hnow ▸ hle⟩

lemma stops_returned (h : s.phase = .returned) : Stops β κ cfg s := ⟨[], s, by simp, rfl, h, Nat.le_add_right _ _⟩

lemma stops_draining (h : Inv cfg s) {since : Nat} (hphase : s.phase = .draining since) : Stops β κ cfg s := by
  obtain ⟨start, n, _, _, hlog⟩ := (hphase ▸ h.course).draining_eq
  have hsince : since ≤ s.now := h.past_course (hlog ▸ List.mem_cons_of_mem _ (List.mem_singleton_self _))
  have hdue : since + gracePeriod ≤ s.now + (since + gracePeriod - s.now) := by omega
  have hwait : step cfg s (.tick (since + gracePeriod - s.now) : Act σ β κ) =
      some { s with now := s.now + (since + gracePeriod - s.now) } := rfl
  have htimeout : step cfg { s with now := s.now + (since + gracePeriod - s.now) } (.timeout : Act σ β κ) =
      some { State.tell { s with now := s.now + (since + gracePeriod - s.now) }
        .stopTimedOut with phase := .returned } := by
    simp only [step, hphase, if_pos hdue]
  refine ⟨[.tick (since + gracePeriod - s.now), .timeout], _, by simp [Act.own],
    run_cons.mpr ⟨_, hwait, run_cons.mpr ⟨_, htimeout, rfl⟩⟩, rfl, ?_⟩
  change s.now + (since + gracePeriod - s.now) ≤ s.now + gracePeriod
  omega

lemma stops_cancelled (h : Inv cfg s) (hphase : s.phase = .leaving) (hcancelled : s.server.shutdown = .cancelled) :
    Stops β κ cfg s := by
  by_cases hpos : 0 < s.inflight
  · have hs : step cfg s (.count : Act σ β κ) =
        some { s.tell (.stopping s.inflight) with phase := .draining s.now } := by
      simp only [step, hphase, hcancelled, if_pos hpos]
    exact stops_step rfl hs rfl (stops_draining (inv_step _ _ _ h hs) rfl)
  · have hs : step cfg s (.count : Act σ β κ) = some { s.tell .stopped with phase := .returned } := by
      simp only [step, hphase, hcancelled, if_neg hpos]
    exact stops_step rfl hs rfl (stops_returned rfl)

lemma stops_serve {a : Act σ β κ} {act : Serve.Act σ β κ} (ha : a.own = true)
    (hs : step cfg s a = s.serve cfg act) {server : Serve.State σ}
    (hstep : Serve.step cfg.baseEngine s.server act = some server)
    (h : ∀ t : State σ, s.serve cfg act = some t → t.phase = s.phase → t.server = server → Stops β κ cfg t) :
    Stops β κ cfg s := by
  have hserve : s.serve cfg act = some { s with
      server := server
      log := s.log ++ ((server.log.drop s.server.log.length).map toLog).map (s.now, ·) } := by
    rw [State.serve, hstep]
    rfl
  exact stops_step ha (hs.trans hserve) rfl (h _ hserve rfl rfl)

lemma stops_leaving (h : Inv cfg s) (hphase : s.phase = .leaving) : Stops β κ cfg s := by
  have hloaded : ∀ (t : State σ) engine, Inv cfg t → t.phase = .leaving → t.server.shutdown = .loaded engine →
      Stops β κ cfg t := by
    intro t engine ht htphase hshutdown
    have hs : step cfg t (.cancelStreams : Act σ β κ) = t.serve cfg (.shutdownCancel : Serve.Act σ β κ) :=
      if_pos htphase
    refine stops_serve rfl hs (by simp only [Serve.step, hshutdown]; rfl) (fun u hu huphase hserver => ?_)
    exact stops_cancelled (inv_step _ _ _ ht (hs.trans hu)) (huphase.trans htphase) (by rw [hserver])
  cases hshutdown : s.server.shutdown with
  | none =>
    have hne : s.server.installed ≠ [] := h.engine (Or.inr (by simp [hphase, Phase.listens]))
    have hcurrent : s.server.current = some (s.server.installed.getLast hne) := List.getLast?_eq_some_getLast hne
    have hs : step cfg s (.loadEngine : Act σ β κ) = s.serve cfg (.shutdownLoad : Serve.Act σ β κ) := if_pos hphase
    refine stops_serve rfl hs (by simp only [Serve.step, hshutdown, hcurrent]; rfl)
      (fun t ht htphase hserver => ?_)
    exact hloaded t _ (inv_step _ _ _ h (hs.trans ht)) (htphase.trans hphase) (by rw [hserver])
  | loaded engine => exact hloaded s engine h hphase hshutdown
  | cancelled => exact stops_cancelled h hphase hshutdown

lemma stops_accepting (h : Inv cfg s) (hphase : s.phase = .accepting) (hsignal : s.signalled = true) :
    Stops β κ cfg s := by
  have hs : step cfg s (.shutdown : Act σ β κ) = some { (s.find .handshaking).elim s
      (fun (i, c) => s.setFate i c .abandoned) with phase := .leaving } := if_pos ⟨hphase, hsignal⟩
  refine stops_step rfl hs ?_ (stops_leaving (inv_step _ _ _ h hs) rfl)
  cases s.find .handshaking <;> rfl

/-- Whatever the clients do, a server that was told to stop can do so within ten seconds. -/
theorem lifecycle_stops {acts : List (Act σ β κ)} (h : run (step cfg) init acts = some s)
    (hsignal : s.signalled = true) (halive : s.phase ≠ .failed ∧ s.phase ≠ .panicked) : Stops β κ cfg s := by
  have hinv := inv_run h
  cases hphase : s.phase with
  | awaiting =>
    have hs : step cfg s (.stopEarly : Act σ β κ) = some { s.tell .stopped with phase := .returned } :=
      if_pos ⟨hphase, hsignal⟩
    exact stops_step rfl hs rfl (stops_returned rfl)
  | starting =>
    have hs : step cfg s (.bind true : Act σ β κ) =
        some { s.tell (.started cfg.address s.now cfg.options) with phase := .accepting } := by
      simp [step, hphase]
    exact stops_step rfl hs rfl (stops_accepting (inv_step _ _ _ hinv hs) rfl hsignal)
  | accepting => exact stops_accepting hinv hphase hsignal
  | leaving => exact stops_leaving hinv hphase
  | draining since => exact stops_draining hinv hphase
  | returned => exact stops_returned hphase
  | failed => exact absurd hphase halive.1
  | panicked => exact absurd hphase halive.2

def tlsConfig : Config Unit :=
  ⟨⟨(), none, 0⟩, true, "https://127.0.0.1:3001".toList, ⟨false, none, none, none, none, false, false⟩⟩

/-- The first client has a request in progress, the second does not go on with its handshake, and the third
waits. -/
def busyRun : List (Act Unit Str Unit) :=
  [.server (.script Serve.sampleInterpreter "a".toList none), .server .send, .firstEngine, .bind true,
    .connect, .connect,
    .connect, .accept, .handshake true, .request 0, .server (.load 0), .accept, .tick 50, .signal]

def forcedStop : List (Act Unit Str Unit) := [.shutdown, .loadEngine, .cancelStreams, .count]

def graceOver : List (Act Unit Str Unit) := [.connect, .tick 10000, .timeout]

theorem lifecycle_orderly_forced : ∃ s s', run (step tlsConfig) init (busyRun ++ forcedStop) = some s ∧
    run (step tlsConfig) s graceOver = some s' ∧
    s.connections.map Connection.fate = [.opened, .abandoned, .queued] ∧
    s.course = [(0, .started tlsConfig.address 0 tlsConfig.options), (50, .stopping 1)] ∧
    Orderly tlsConfig s ∧ OpensNone s s' := by
  obtain ⟨s', hs'⟩ := Option.isSome_iff_exists.mp
    (rfl : (run (step tlsConfig) init ((busyRun ++ forcedStop) ++ graceOver)).isSome = true)
  obtain ⟨s, hs, hlater⟩ := run_append.mp hs'
  have hall : (run (step tlsConfig) init (busyRun ++ forcedStop)).map
      (fun s => (s.connections.map Connection.fate, s.course)) = some ([.opened, .abandoned, .queued],
        [(0, .started tlsConfig.address 0 tlsConfig.options), (50, .stopping 1)]) := rfl
  rw [hs] at hall
  obtain ⟨hfates, hcourse⟩ := Prod.mk.inj (Option.some.inj hall)
  obtain ⟨horderly, hopens⟩ := lifecycle_orderly hs
  exact ⟨s, s', hs, hlater, hfates, hcourse, horderly,
    hopens _ s' hlater 50 1 ((mem_course rfl).mpr (hcourse ▸ by simp))⟩

theorem lifecycle_stops_busy : ∃ s, run (step tlsConfig) init busyRun = some s ∧ s.phase = .accepting ∧
    Stops Str Unit tlsConfig s := by
  obtain ⟨s, hs⟩ := Option.isSome_iff_exists.mp (rfl : (run (step tlsConfig) init busyRun).isSome = true)
  have hall : (run (step tlsConfig) init busyRun).map (fun s => (s.phase, s.signalled)) =
    some (.accepting, true) := rfl
  rw [hs] at hall
  obtain ⟨hphase, hsignal⟩ := Prod.mk.inj (Option.some.inj hall)
  exact ⟨s, hs, hphase, lifecycle_stops hs hsignal (by simp [hphase])⟩

end HttpNu.Lifecycle
