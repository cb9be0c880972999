import HttpNu.Engine
import HttpNu.Library.Channel
import HttpNu.Library.Runs

/-! The engine in service: the source of scripts, the updater, the requests and the shutdown. -/

namespace HttpNu.Serve

open Text Library Engine

variable {σ β κ : Type}

inductive LogEntry where
  | error (text : Str)
  | reloaded

/-- The updater task: it receives an engine, cancels the one in service and stores the new one. -/
inductive Updater (σ : Type) where
  | waiting
  | received (newEngine : Engine σ)
  | cancelled (newEngine : Engine σ)
  | ended

/-- A request loads the engine once; an event stream keeps that engine's token. -/
inductive Stage (σ : Type) where
  | arrived
  | running (engine : Engine σ)
  | streaming (engine : Engine σ) (token : Nat)

/-- A request, with the number of engines installed when it arrived and when it left. -/
structure Request (σ : Type) where
  arrivedAt : Nat
  stage : Stage σ
  leftAt : Option Nat

inductive Shutdown (σ : Type) where
  | none
  | loaded (engine : Engine σ)
  | cancelled

structure State (σ : Type) where
  fresh : Nat
  cancelled : List Nat
  results : List (Except Str (Engine σ))
  /-- an engine whose send waits for room in the channel -/
  sending : Option (Engine σ)
  channel : Mpsc (Engine σ)
  installed : List (Engine σ)
  updater : Updater σ
  requests : List (Request σ)
  shutdown : Shutdown σ
  log : List LogEntry

inductive Act (σ β κ : Type) where
  | script (nu : Interpreter σ β κ) (text : Str) (file : Option Str)
  | send
  | closeSource
  | first
  | recv
  | cancel
  | store
  | arrive
  | load (i : Nat)
  | stream (i : Nat)
  | finish (i : Nat)
  | shutdownLoad
  | shutdownCancel

def init : State σ := ⟨0, [], [], none, .new, [], .waiting, [], .none, []⟩

def channelCapacity : Nat := 1

def Stage.engine : Stage σ → Option (Engine σ)
  | .arrived => none
  | .running engine => some engine
  | .streaming engine _ => some engine

def State.current (s : State σ) : Option (Engine σ) := s.installed.getLast?

def State.setStage (s : State σ) (i : Nat) (r : Request σ) (stage : Stage σ) : State σ :=
  { s with requests := s.requests.set i { r with stage := stage } }

variable (base : Engine σ)

def step (s : State σ) : Act σ β κ → Option (State σ)
  | .script nu text file =>
    if s.sending.isSome || s.channel.closed then none
    else
      match scriptToEngine nu base s.fresh text file with
      | .ok engine =>
        some { s with
          fresh := s.fresh + 1
          results := s.results ++ [.ok engine]
          sending := some engine }
      | .error err =>
        some { s with
          fresh := s.fresh + 1
          results := s.results ++ [.error err]
          log := s.log ++ [.error (nu.stripAnsi err)] }
  | .send =>
    match s.sending with
    | some engine =>
      if s.channel.queue.length < channelCapacity then
        some { s with sending := none, channel := s.channel.send engine }
      else none
    | none => none
  | .closeSource => if s.sending.isSome then none else some { s with channel := s.channel.close }
  | .first =>
    match s.installed, s.channel.recv with
    | [], (.item engine, channel) => some { s with installed := [engine], channel := channel }
    | _, _ => none
  | .recv =>
    match s.installed, s.updater, s.channel.recv with
    | _ :: _, .waiting, (.item engine, channel) =>
      some { s with updater := .received engine, channel := channel }
    | _ :: _, .waiting, (.disconnected, _) => some { s with updater := .ended }
    | _, _, _ => none
  | .cancel =>
    match s.updater, s.current with
    | .received newEngine, some engine =>
      some { s with cancelled := engine.sseCancelToken :: s.cancelled, updater := .cancelled newEngine }
    | _, _ => none
  | .store =>
    match s.updater with
    | .cancelled newEngine =>
      some { s with
        installed := s.installed ++ [newEngine]
        updater := .waiting
        log := s.log ++ [.reloaded] }
    | _ => none
  | .arrive =>
    if s.installed.isEmpty then none
    else some { s with requests := s.requests ++ [⟨s.installed.length, .arrived, none⟩] }
  | .load i =>
    match s.requests[i]?, s.current with
    | some ⟨arrivedAt, .arrived, none⟩, some engine =>
      some (s.setStage i ⟨arrivedAt, .arrived, none⟩ (.running engine))
    | _, _ => none
  | .stream i =>
    match s.requests[i]? with
    | some ⟨arrivedAt, .running engine, none⟩ =>
      some (s.setStage i ⟨arrivedAt, .running engine, none⟩ (.streaming engine engine.sseCancelToken))
    | _ => none
  | .finish i =>
    match s.requests[i]? with
    | some ⟨arrivedAt, stage, none⟩ =>
      some { s with requests := s.requests.set i ⟨arrivedAt, stage, some s.installed.length⟩ }
    | _ => none
  | .shutdownLoad =>
    match s.shutdown, s.current with
    | .none, some engine => some { s with shutdown := .loaded engine }
    | _, _ => none
  | .shutdownCancel =>
    match s.shutdown with
    | .loaded engine =>
      some { s with cancelled := engine.sseCancelToken :: s.cancelled, shutdown := .cancelled }
    | _ => none

def Updater.held : Updater σ → List (Engine σ)
  | .received newEngine => [newEngine]
  | .cancelled newEngine => [newEngine]
  | _ => []

def State.accepted (s : State σ) : List (Engine σ) := s.results.filterMap Except.toOption

/-- A request has run on an engine that was in service between its arrival and its end. -/
structure Served (installed : List (Engine σ)) (r : Request σ) : Prop where
  arrived : r.arrivedAt ≤ installed.length
  left : ∀ n, r.leftAt = some n → n ≤ installed.length
  engine : ∀ engine, r.stage.engine = some engine →
    ∃ k, r.arrivedAt ≤ k + 1 ∧ k < r.leftAt.getD installed.length ∧ installed[k]? = some engine
  token : ∀ engine token, r.stage = .streaming engine token → token = engine.sseCancelToken

structure Inv (s : State σ) : Prop where
  accepted : s.results.filterMap Except.toOption = s.channel.sent ++ s.sending.toList
  received : s.channel.received = s.installed ++ s.updater.held
  unstarted : s.installed = [] → s.updater = .waiting
  replaced : ∀ i engine, i + 1 < s.installed.length → s.installed[i]? = some engine →
    engine.sseCancelToken ∈ s.cancelled
  cancelling : ∀ newEngine, s.updater = .cancelled newEngine → ∀ engine, s.current = some engine →
    engine.sseCancelToken ∈ s.cancelled
  served : ∀ r ∈ s.requests, Served s.installed r

variable {base} {s s' : State σ}

lemma inv_init : Inv (init : State σ) where
  accepted := rfl
  received := rfl
  unstarted _ := rfl
  replaced i engine h := by simp [init] at h
  cancelling newEngine h := by simp [init] at h
  served r h := by simp [init] at h

lemma Served.mono {installed installed' : List (Engine σ)} {r : Request σ} (h : Served installed r)
    (hp : installed <+: installed') : Served installed' r where
  arrived := h.arrived.trans hp.length_le
  left n hn := (h.left n hn).trans hp.length_le
  engine engine he := by
    obtain ⟨k, ha, hk, hget⟩ := h.engine engine he
    have hlen := hp.length_le
    have hget' : installed'[k]? = some engine := by
      obtain ⟨later, rfl⟩ := hp
      rw [List.getElem?_append_left (List.getElem?_eq_some_iff.mp hget).1, hget]
    refine ⟨k, ha, ?_, hget'⟩
    cases hl : r.leftAt with
    | none =>
      rw [hl] at hk
      exact hk.trans_le hlen
    | some n => simpa [hl] using hk
  token := h.token

lemma inv_script {nu : Interpreter σ β κ} {text : Str} {file : Option Str} (h : Inv s)
    (hs : step base s (.script nu text file) = some s') : Inv s' := by
  simp only [step] at hs
  split at hs
  · simp at hs
  · rename_i hfree
    simp only [Bool.or_eq_true, not_or, Bool.not_eq_true, Option.isSome_eq_false_iff,
      Option.isNone_iff_eq_none] at hfree
    have hacc := h.accepted
    rw [hfree.1, Option.toList_none, List.append_nil] at hacc
    split at hs <;> obtain rfl := Option.some.inj hs <;>
      refine ⟨?_, h.received, h.unstarted, h.replaced, h.cancelling, h.served⟩
    · simp [hacc, List.filterMap, Except.toOption]
    · simp [hacc, hfree.1, Except.toOption]

lemma inv_send (h : Inv s) (hs : step base s (.send : Act σ β κ) = some s') : Inv s' := by
  simp only [step] at hs
  split at hs
  · rename_i engine hsend
    split at hs
    · obtain rfl := Option.some.inj hs
      refine ⟨?_, by simpa using h.received, h.unstarted, h.replaced, h.cancelling, h.served⟩
      have hacc := h.accepted
      rw [hsend] at hacc
      simpa using hacc
    · simp at hs
  · simp at hs

lemma inv_closeSource (h : Inv s) (hs : step base s (.closeSource : Act σ β κ) = some s') : Inv s' := by
  simp only [step] at hs
  split at hs
  · simp at hs
  · obtain rfl := Option.some.inj hs
    exact ⟨h.accepted, h.received, h.unstarted, h.replaced, h.cancelling, h.served⟩

lemma inv_first (h : Inv s) (hs : step base s (.first : Act σ β κ) = some s') : Inv s' := by
  simp only [step] at hs
  split at hs
  · rename_i engine channel hinst hrecv
    obtain rfl := Option.some.inj hs
    obtain ⟨hsent, _, hgot⟩ := Mpsc.recv_item hrecv
    have hw := h.unstarted hinst
    have hrec := h.received
    rw [hinst, hw] at hrec
    refine ⟨by simpa [hsent] using h.accepted, ?_, by simp, by simp, by simp [hw], fun r hr => ?_⟩
    · simp [hgot, hrec, hw, Updater.held]
    · exact (h.served r hr).mono (hinst ▸ List.nil_prefix)
  · simp at hs

lemma inv_recv (h : Inv s) (hs : step base s (.recv : Act σ β κ) = some s') : Inv s' := by
  simp only [step] at hs
  split at hs
  · rename_i engine channel hinst hw hrecv
    obtain rfl := Option.some.inj hs
    obtain ⟨hsent, _, hgot⟩ := Mpsc.recv_item hrecv
    have hrec : s.channel.received = s.installed := by simpa [hw, Updater.held] using h.received
    refine ⟨by simpa [hsent] using h.accepted, ?_, by simp [hinst], h.replaced, by simp, h.served⟩
    simp [hgot, hrec, Updater.held]
  · rename_i channel hinst hw hrecv
    obtain rfl := Option.some.inj hs
    have hrec := h.received
    rw [hw] at hrec
    exact ⟨h.accepted, hrec, by simp [hinst], h.replaced, by simp, h.served⟩
  · simp at hs

lemma inv_cancel (h : Inv s) (hs : step base s (.cancel : Act σ β κ) = some s') : Inv s' := by
  simp only [step] at hs
  split at hs
  · rename_i newEngine engine hu hcur
    obtain rfl := Option.some.inj hs
    have hrec := h.received
    rw [hu] at hrec
    refine ⟨h.accepted, hrec, fun hinst => ?_, fun i e hi he => ?_, fun _ _ e he => ?_, h.served⟩
    · simp [State.current, show s.installed = [] from hinst] at hcur
    · exact List.mem_cons_of_mem _ (h.replaced i e hi he)
    · obtain rfl := Option.some.inj (hcur.symm.trans he)
      exact List.mem_cons_self
  · simp at hs

lemma inv_store (h : Inv s) (hs : step base s (.store : Act σ β κ) = some s') : Inv s' := by
  simp only [step] at hs
  split at hs
  · rename_i newEngine hu
    obtain rfl := Option.some.inj hs
    have hrec := h.received
    rw [hu] at hrec
    refine ⟨h.accepted, by simpa [Updater.held] using hrec, by simp, fun i e hi he => ?_, by simp,
      fun r hr => (h.served r hr).mono (List.prefix_append _ _)⟩
    -- the engine that was in service is the only one replaced by this step
    simp only [List.length_append, List.length_singleton] at hi
    rw [List.getElem?_append_left (by omega)] at he
    rcases Nat.lt_or_ge (i + 1) s.installed.length with hlt | hge
    · exact h.replaced i e hlt he
    · have hi : i = s.installed.length - 1 := by omega
      apply h.cancelling newEngine hu e
      rw [State.current, List.getLast?_eq_getElem?, ← hi, he]
  · simp at hs

lemma inv_request {i : Nat} {r : Request σ} (h : Inv s) (hr : Served s.installed r) :
    Inv { s with requests := s.requests.set i r } where
  accepted := h.accepted
  received := h.received
  unstarted := h.unstarted
  replaced := h.replaced
  cancelling := h.cancelling
  served r' hr' := by
    rcases List.mem_or_eq_of_mem_set hr' with hmem | rfl
    · exact h.served r' hmem
    · exact hr

lemma inv_arrive (h : Inv s) (hs : step base s (.arrive : Act σ β κ) = some s') : Inv s' := by
  simp only [step] at hs
  split at hs
  · simp at hs
  · obtain rfl := Option.some.inj hs
    refine ⟨h.accepted, h.received, h.unstarted, h.replaced, h.cancelling, fun r hr => ?_⟩
    rcases List.mem_append.mp hr with hr | hr
    · exact h.served r hr
    · obtain rfl := List.mem_singleton.mp hr
      exact ⟨le_rfl, by simp, by simp [Stage.engine], by simp⟩

lemma inv_load {i : Nat} (h : Inv s) (hs : step base s (.load i : Act σ β κ) = some s') : Inv s' := by
  simp only [step] at hs
  split at hs
  · rename_i arrivedAt engine hget hcur
    obtain rfl := Option.some.inj hs
    obtain ⟨ha, _, _, _⟩ := h.served _ (List.mem_of_getElem? hget)
    refine inv_request h ⟨ha, by simp, fun e he => ?_, by simp⟩
    obtain rfl := Option.some.inj he
    have hlen : s.installed ≠ [] := by
      intro hnil
      simp [State.current, hnil] at hcur
    have hpos := List.length_pos_of_ne_nil hlen
    refine ⟨s.installed.length - 1, by simp only at ha ⊢; omega, by simp; omega, ?_⟩
    rw [← List.getLast?_eq_getElem?]
    exact hcur
  · simp at hs

lemma inv_stream {i : Nat} (h : Inv s) (hs : step base s (.stream i : Act σ β κ) = some s') : Inv s' := by
  simp only [step] at hs
  split at hs
  · rename_i arrivedAt engine hget
    obtain rfl := Option.some.inj hs
    obtain ⟨ha, hl, he, _⟩ := h.served _ (List.mem_of_getElem? hget)
    refine inv_request h ⟨ha, hl, he, ?_⟩
    rintro e token htok
    obtain ⟨rfl, rfl⟩ := Stage.streaming.inj htok
    rfl
  · simp at hs

lemma inv_finish {i : Nat} (h : Inv s) (hs : step base s (.finish i : Act σ β κ) = some s') : Inv s' := by
  simp only [step] at hs
  split at hs
  · rename_i arrivedAt stage hget
    obtain rfl := Option.some.inj hs
    obtain ⟨ha, _, he, ht⟩ := h.served _ (List.mem_of_getElem? hget)
    refine inv_request h ⟨ha, by simp, he, ht⟩
  · simp at hs

lemma inv_shutdown {s' : State σ} (h : Inv s)
    (hs : step base s (.shutdownLoad : Act σ β κ) = some s' ∨
      step base s (.shutdownCancel : Act σ β κ) = some s') :
    Inv s' := by
  rcases hs with hs | hs <;> simp only [step] at hs <;> split at hs
  · obtain rfl := Option.some.inj hs
    exact ⟨h.accepted, h.received, h.unstarted, h.replaced, h.cancelling, h.served⟩
  · simp at hs
  · obtain rfl := Option.some.inj hs
    exact ⟨h.accepted, h.received, h.unstarted, fun i e hi he => List.mem_cons_of_mem _ (h.replaced i e hi he),
      fun n hn e he => List.mem_cons_of_mem _ (h.cancelling n hn e he), h.served⟩
  · simp at hs

lemma inv_step (s : State σ) (a : Act σ β κ) (s' : State σ) (h : Inv s) (hs : step base s a = some s') :
    Inv s' := by
  cases a with
  | script nu text file => exact inv_script h hs
  | send => exact inv_send h hs
  | closeSource => exact inv_closeSource h hs
  | first => exact inv_first h hs
  | recv => exact inv_recv h hs
  | cancel => exact inv_cancel h hs
  | store => exact inv_store h hs
  | arrive => exact inv_arrive h hs
  | load i => exact inv_load h hs
  | stream i => exact inv_stream h hs
  | finish i => exact inv_finish h hs
  | shutdownLoad => exact inv_shutdown h (Or.inl hs)
  | shutdownCancel => exact inv_shutdown h (Or.inr hs)

lemma inv_run {acts : List (Act σ β κ)} (h : run (step base) init acts = some s) : Inv s :=
  run_invariant inv_step inv_init h

lemma step_script {nu : Interpreter σ β κ} {text : Str} {file : Option Str}
    (hs : step base s (.script nu text file) = some s') :
    s'.results = s.results ++ [scriptToEngine nu base s.fresh text file] := by
  simp only [step] at hs
  split at hs
  · simp at hs
  · split at hs <;> rename_i hres <;> obtain rfl := Option.some.inj hs <;> simp [hres]

lemma step_results {a : Act σ β κ} (hs : step base s a = some s') :
    s'.results = s.results ∨ ∃ nu text file, a = .script nu text file ∧
      s'.results = s.results ++ [scriptToEngine nu base s.fresh text file] := by
  cases a with
  | script nu text file => exact Or.inr ⟨nu, text, file, rfl, step_script hs⟩
  | _ =>
    left
    simp only [step, State.setStage] at hs
    repeat' split at hs
    all_goals first
      | (obtain rfl := Option.some.inj hs; rfl)
      | simp at hs

lemma step_requests {a : Act σ β κ} (hs : step base s a = some s') :
    s'.requests = s.requests ∨ (∃ r, s'.requests = s.requests ++ [r] ∧ r.stage = .arrived) ∨
      ∃ i r r', s.requests[i]? = some r ∧ s'.requests = s.requests.set i r' ∧ r'.arrivedAt = r.arrivedAt ∧
        (∀ engine, r.stage.engine = some engine → r'.stage.engine = some engine) ∧
        ∀ engine token, r'.stage = .streaming engine token →
          r.stage = .streaming engine token ∨ (a = .stream i ∧ r.stage = .running engine) := by
  cases a with
  | arrive =>
    simp only [step] at hs
    split at hs
    · simp at hs
    · obtain rfl := Option.some.inj hs
      exact Or.inr (Or.inl ⟨_, rfl, rfl⟩)
  | load i =>
    simp only [step] at hs
    split at hs
    · rename_i hget hcur
      obtain rfl := Option.some.inj hs
      exact Or.inr (Or.inr ⟨i, _, _, hget, rfl, rfl, by simp [Stage.engine], by simp⟩)
    · simp at hs
  | stream i =>
    simp only [step] at hs
    split at hs
    · rename_i hget
      obtain rfl := Option.some.inj hs
      refine Or.inr (Or.inr ⟨i, _, _, hget, rfl, rfl, by simp [Stage.engine], fun engine token hstage => ?_⟩)
      obtain ⟨rfl, _⟩ := Stage.streaming.inj hstage
      exact Or.inr ⟨rfl, rfl⟩
    · simp at hs
  | finish i =>
    simp only [step] at hs
    split at hs
    · rename_i hget
      obtain rfl := Option.some.inj hs
      exact Or.inr (Or.inr ⟨i, _, _, hget, rfl, rfl, fun _ he => he, fun _ _ hstage => Or.inl hstage⟩)
    · simp at hs
  | _ =>
    left
    simp only [step] at hs
    repeat' split at hs
    all_goals first
      | (obtain rfl := Option.some.inj hs; rfl)
      | simp at hs

lemma engine_kept_step {i : Nat} {engine : Engine σ} (s : State σ) (a : Act σ β κ) (s' : State σ)
    (h : ∃ r, s.requests[i]? = some r ∧ r.stage.engine = some engine) (hs : step base s a = some s') :
    ∃ r, s'.requests[i]? = some r ∧ r.stage.engine = some engine := by
  obtain ⟨r, hr, he⟩ := h
  rcases step_requests hs with hreq | ⟨r', hreq, _⟩ | ⟨j, r₀, r', hj, hreq, _, hkeep, _⟩
  · exact ⟨r, hreq ▸ hr, he⟩
  · refine ⟨r, ?_, he⟩
    rw [hreq, List.getElem?_append_left (List.getElem?_eq_some_iff.mp hr).1, hr]
  · rw [hreq, List.getElem?_set]
    by_cases hij : j = i
    · subst j
      obtain rfl := Option.some.inj (hr.symm.trans hj)
      exact ⟨r', by simp [(List.getElem?_eq_some_iff.mp hr).1], hkeep engine he⟩
    · exact ⟨r, by simp [hij, hr], he⟩

lemma results_step (s : State σ) (a : Act σ β κ) (s' : State σ)
    (h : ∀ result ∈ s.results, ∃ (nu : Interpreter σ β κ) (fresh : Nat) (text : Str) (file : Option Str),
      result = scriptToEngine nu base fresh text file)
    (hs : step base s a = some s') :
    ∀ result ∈ s'.results, ∃ (nu : Interpreter σ β κ) (fresh : Nat) (text : Str) (file : Option Str),
      result = scriptToEngine nu base fresh text file := by
  rcases step_results hs with hres | ⟨nu, text, file, _, hres⟩
  · exact hres ▸ h
  · rw [hres]
    intro result hmem
    rcases List.mem_append.mp hmem with hmem | hmem
    · exact h result hmem
    · exact ⟨nu, s.fresh, text, file, List.mem_singleton.mp hmem⟩

lemma step_rejected {nu : Interpreter σ β κ} {text : Str} {file : Option Str} {err : Str}
    (herr : scriptToEngine nu base s.fresh text file = .error err)
    (hs : step base s (.script nu text file) = some s') :
    s' = { s with
      fresh := s.fresh + 1
      results := s.results ++ [.error err]
      log := s.log ++ [.error (nu.stripAnsi err)] } := by
  simp only [step, herr] at hs
  split at hs
  · simp at hs
  · exact (Option.some.inj hs).symm

def Act.ofServer : Act σ β κ → Bool
  | .script _ _ _ => false
  | .closeSource => false
  | _ => true

structure Live (s : State σ) : Prop where
  opened : s.channel.closed = false
  listening : s.updater ≠ .ended

lemma live_init : Live (init : State σ) := ⟨rfl, by simp [init]⟩

lemma live_step {a : Act σ β κ} (ha : a ≠ .closeSource) (h : Live s) (hs : step base s a = some s') :
    Live s' := by
  obtain ⟨hopen, hlisten⟩ := h
  cases a with
  | closeSource => exact absurd rfl ha
  | first =>
    simp only [step] at hs
    split at hs
    · rename_i hrecv
      obtain rfl := Option.some.inj hs
      obtain ⟨_, hclosed, _⟩ := Mpsc.recv_item hrecv
      exact ⟨hclosed.trans hopen, hlisten⟩
    · simp at hs
  | recv =>
    simp only [step] at hs
    split at hs
    · rename_i hrecv
      obtain rfl := Option.some.inj hs
      obtain ⟨_, hclosed, _⟩ := Mpsc.recv_item hrecv
      exact ⟨hclosed.trans hopen, by simp⟩
    · rename_i hrecv
      obtain ⟨_, hclosed, _⟩ := Mpsc.recv_disconnected hrecv
      simp [hopen] at hclosed
    · simp at hs
  | _ =>
    simp only [step, State.setStage] at hs
    repeat' split at hs
    all_goals first
      | (obtain rfl := Option.some.inj hs; exact ⟨hopen, hlisten⟩)
      | (obtain rfl := Option.some.inj hs; exact ⟨hopen, by simp⟩)
      | simp at hs

lemma script_taken (nu : Interpreter σ β κ) (text : Str) (file : Option Str) (hs : s.sending = none)
    (hl : Live s) : ∃ s', step base s (.script nu text file) = some s' := by
  simp only [step, hs, hl.opened, Option.isSome_none, Bool.or_self, Bool.false_eq_true, if_false]
  cases scriptToEngine nu base s.fresh text file <;> exact ⟨_, rfl⟩

lemma accepted_ofServer {a : Act σ β κ} (ha : a.ofServer) (hs : step base s a = some s') :
    s'.accepted = s.accepted := by
  rcases step_results hs with hres | ⟨nu, text, file, rfl, _⟩
  · rw [State.accepted, State.accepted, hres]
  · cases ha

lemma accepted_script {nu : Interpreter σ β κ} {text : Str} {file : Option Str}
    (hs : step base s (.script nu text file) = some s') :
    s'.accepted = s.accepted ++ (scriptToEngine nu base s.fresh text file).toOption.toList := by
  rw [State.accepted, step_script hs, List.filterMap_append, State.accepted]
  cases scriptToEngine nu base s.fresh text file <;> rfl

lemma installed_prefix (h : Inv s) : s.installed <+: s.accepted := by
  have hreceived : s.installed <+: s.channel.received := h.received ▸ List.prefix_append _ _
  have hsent : s.channel.sent <+: s.accepted := by
    rw [State.accepted, h.accepted]
    exact List.prefix_append _ _
  exact hreceived.trans (s.channel.received_prefix.trans hsent)

lemma installed_accepted (h : Inv s) (hsend : s.sending = none) (hqueue : s.channel.queue = [])
    (hwait : s.updater = .waiting) : s.installed = s.accepted := by
  have hreceived : s.channel.received = s.installed := by simpa [hwait, Updater.held] using h.received
  have haccepted := h.accepted
  rw [hsend, Option.toList_none, List.append_nil, ← Mpsc.received_of_queue_nil hqueue, hreceived] at haccepted
  exact haccepted.symm

variable (base β κ) in
def Leads (s : State σ) (P : State σ → Prop) : Prop :=
  ∃ (acts : List (Act σ β κ)) (s' : State σ),
    (∀ a ∈ acts, a.ofServer) ∧ run (step base) s acts = some s' ∧ P s'

lemma leads_self {P : State σ → Prop} (h : P s) : Leads β κ base s P := ⟨[], s, by simp, rfl, h⟩

lemma leads_cons {P : State σ → Prop} {a : Act σ β κ} (ha : a.ofServer) (hs : step base s a = some s')
    (h : Leads β κ base s' P) : Leads β κ base s P := by
  obtain ⟨acts, t, hacts, hrun, hP⟩ := h
  exact ⟨a :: acts, t, List.forall_mem_cons.mpr ⟨ha, hacts⟩, run_cons.mpr ⟨s', hs, hrun⟩, hP⟩

lemma leads_waiting {P : State σ → Prop} (hl : Live s) (hinst : s.installed ≠ [])
    (hP : ∀ t : State σ, t.channel = s.channel → t.sending = s.sending → t.installed ≠ [] →
      t.updater = .waiting → Leads β κ base t P) : Leads β κ base s P := by
  obtain ⟨engine, hcurrent⟩ : ∃ engine, s.current = some engine :=
    Option.ne_none_iff_exists'.mp (by simpa [State.current] using hinst)
  have hstore : ∀ t : State σ, t.channel = s.channel → t.sending = s.sending →
      ∀ newEngine, t.updater = .cancelled newEngine → Leads β κ base t P := by
    intro t hch hsend newEngine hu
    have hs : step base t (.store : Act σ β κ) = some { t with
        installed := t.installed ++ [newEngine], updater := .waiting, log := t.log ++ [.reloaded] } := by
      simp only [step, hu]
    exact leads_cons rfl hs (hP _ hch hsend (by simp) rfl)
  cases hu : s.updater with
  | waiting => exact hP s rfl rfl hinst hu
  | received newEngine =>
    have hs : step base s (.cancel : Act σ β κ) = some { s with
        cancelled := engine.sseCancelToken :: s.cancelled, updater := .cancelled newEngine } := by
      simp only [step, hu, hcurrent]
    exact leads_cons rfl hs (hstore _ rfl rfl newEngine rfl)
  | cancelled newEngine => exact hstore s rfl rfl newEngine hu
  | ended => exact absurd hu hl.listening

lemma leads_drained {P : State σ → Prop} (hl : Live s)
    (hP : ∀ t : State σ, t.channel.queue = [] → t.sending = s.sending → Live t → Leads β κ base t P) :
    Leads β κ base s P := by
  induction hq : s.channel.queue generalizing s with
  | nil => exact hP s hq rfl hl
  | cons engine queue ih =>
    obtain ⟨channel, hrecv, hrest⟩ := Mpsc.recv_of_queue hq
    obtain ⟨_, hclosed, _⟩ := Mpsc.recv_item hrecv
    have hopen : channel.closed = false := hclosed.trans hl.opened
    by_cases hinst : s.installed = []
    · have hs : step base s (.first : Act σ β κ) =
          some { s with installed := [engine], channel := channel } := by
        simp only [step, hinst, hrecv]
      exact leads_cons rfl hs (ih ⟨hopen, hl.listening⟩ hP hrest)
    · apply leads_waiting hl hinst
      intro t hch hsend hinst' hu
      obtain ⟨_, _, hcons⟩ := List.exists_cons_of_ne_nil hinst'
      have hs : step base t (.recv : Act σ β κ) =
          some { t with updater := .received engine, channel := channel } := by
        simp only [step, hcons, hu, hch, hrecv]
      exact leads_cons rfl hs
        (ih ⟨hopen, by simp⟩ (fun u hempty hkept hlive => hP u hempty (hkept.trans hsend) hlive) hrest)

variable (β κ base) in
lemma leads_sent (hl : Live s) : Leads β κ base s (fun t => t.sending = none) := by
  apply leads_drained hl
  intro t hq hsend hlive
  cases hs : t.sending with
  | none => exact leads_self hs
  | some engine =>
    have hstep : step base t (.send : Act σ β κ) =
        some { t with sending := none, channel := t.channel.send engine } := by
      simp only [step, hs, hq]
      rfl
    exact leads_cons rfl hstep (leads_self rfl)

theorem reload_safe {acts : List (Act σ β κ)} (h : run (step base) init acts = some s) :
    s.installed <+: s.accepted ∧
      (∀ result ∈ s.results, ∃ (nu : Interpreter σ β κ) (fresh : Nat) (text : Str) (file : Option Str),
        result = scriptToEngine nu base fresh text file) ∧
      (∀ (nu : Interpreter σ β κ) text file err s', scriptToEngine nu base s.fresh text file = .error err →
        step base s (.script nu text file) = some s' →
        s'.accepted = s.accepted ∧ s'.installed = s.installed ∧ s'.cancelled = s.cancelled ∧
          s'.requests = s.requests) ∧
      (∀ r ∈ s.requests, ∀ engine, r.stage.engine = some engine →
        ∃ k, r.arrivedAt ≤ k + 1 ∧ k < r.leftAt.getD s.installed.length ∧ s.installed[k]? = some engine) ∧
      (∀ (later : List (Act σ β κ)) s' (i : Nat) (r : Request σ) engine, run (step base) s later = some s' →
        s.requests[i]? = some r → r.stage.engine = some engine →
        ∃ r', s'.requests[i]? = some r' ∧ r'.stage.engine = some engine) ∧
      ∀ i engine, i + 1 < s.installed.length → s.installed[i]? = some engine →
        engine.sseCancelToken ∈ s.cancelled ∧
          ∀ r ∈ s.requests, ∀ token, r.stage = .streaming engine token → token ∈ s.cancelled := by
  have hinv := inv_run h
  refine ⟨?_, run_invariant results_step (by simp [init]) h, ?_,
    fun r hr engine he => (hinv.served r hr).engine engine he, ?_, ?_⟩
  · have hinst : s.installed <+: s.channel.received := hinv.received ▸ List.prefix_append _ _
    have hacc : s.channel.sent <+: s.accepted := by
      rw [State.accepted, hinv.accepted]
      exact List.prefix_append _ _
    exact hinst.trans (s.channel.received_prefix.trans hacc)
  · intro nu text file err s' herr hs
    rw [step_rejected herr hs]
    simp [State.accepted, Except.toOption]
  · intro later s' i r engine hlater hr he
    exact run_invariant engine_kept_step ⟨r, hr, he⟩ hlater
  · intro i engine hi hget
    have hc := hinv.replaced i engine hi hget
    refine ⟨hc, fun r hr token htok => ?_⟩
    rw [(hinv.served r hr).token engine token htok]
    exact hc

def sampleInterpreter : Interpreter Unit Str Unit where
  setFile state _ := state
  parse _ _ text := ⟨if text = "bad".toList then ["Parse error".toList] else [], [], text⟩
  mergeDelta state _ := .ok state
  evalBlock _ _ := .ok ⟨.ok (.closure 0), ()⟩
  notClosure _ := []
  requiredPositional _ _ := 1
  mergeEnv state _ := .ok state
  stripAnsi text := text

def windowRun : List (Act Unit Str Unit) :=
  [.script sampleInterpreter "a".toList none, .send, .first, .arrive, .load 0, .stream 0,
    .script sampleInterpreter "bad".toList none, .script sampleInterpreter "b".toList none, .send, .recv,
    .cancel, .arrive, .load 1, .stream 1, .store]

theorem reload_safe_window :
    ∃ s, run (step ⟨(), none, 0⟩) init windowRun = some s ∧
      s.installed.map Engine.sseCancelToken = [0, 2] ∧ 0 ∈ s.cancelled ∧ s.installed <+: s.accepted := by
  obtain ⟨s, hs⟩ := Option.isSome_iff_exists.mp
    (by decide : (run (step ⟨(), none, 0⟩) init windowRun).isSome = true)
  have htokens : (run (step ⟨(), none, 0⟩) init windowRun).map
      (fun s => s.installed.map Engine.sseCancelToken) = some [0, 2] := by decide
  rw [hs] at htokens
  have hinst : s.installed.map Engine.sseCancelToken = [0, 2] := Option.some.inj htokens
  obtain ⟨hpre, _, _, _, _, hreplaced⟩ := reload_safe hs
  refine ⟨s, hs, hinst, ?_, hpre⟩
  have hlen : s.installed.length = 2 := by simpa using congrArg List.length hinst
  have h0 : s.installed[0]? = some s.installed[0] := List.getElem?_eq_getElem (by omega)
  have htok : s.installed[0].sseCancelToken = 0 := by
    have := congrArg (fun l => l[0]?) hinst
    simpa [h0] using this
  exact htok ▸ (hreplaced 0 _ (by omega) h0).1

end HttpNu.Serve
