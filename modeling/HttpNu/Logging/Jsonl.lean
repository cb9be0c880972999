import HttpNu.Library.Broadcast
import HttpNu.Library.Runs
import HttpNu.Logging.Events

/-! The JSONL log: the thread that writes a line for each event, with emitters at work. -/

namespace HttpNu.Logging.Jsonl

open Text Library

def textOr (s : Option Str) : Json := (s.map Json.string).getD .null

def textMap (map : List (Str × Str)) : Json := .object (map.map (fun (k, v) => (k, .string v)))

def requestJson (request : RequestData) : Json :=
  .object
    [("proto".toList, .string request.proto), ("method".toList, .string request.method),
      ("remote_ip".toList, textOr request.remoteIp),
      ("remote_port".toList, (request.remotePort.map (fun port => Json.int port.toNat)).getD .null),
      ("trusted_ip".toList, textOr request.trustedIp), ("headers".toList, textMap request.headers),
      ("uri".toList, .string request.uri), ("path".toList, .string request.path),
        ("query".toList, textMap request.query)]

def message (stamp : Scru128Id) (text : Str) (fields : List (Str × Json)) : Json :=
  .object (("stamp".toList, .string stamp) :: ("message".toList, .string text) :: fields)

def laggedLine (stamp : Scru128Id) (n : Nat) : Json := message stamp "lagged".toList [("dropped".toList, .int n)]

def xsVersion (b : Build) (options : StartupOptions) : Option Str :=
  if options.store.isSome then (if b.crossStream then some b.xsVersion else none) else none

/-- The line of an event; that of `Shutdown` is `unreachable!()`. -/
def eventLine (b : Build) (stamp : Scru128Id) : LogEvent → Option Json
  | .request id request =>
    some (message stamp "request".toList
      [("request_id".toList, .string id), ("method".toList, .string request.method),
        ("path".toList, .string request.path), ("trusted_ip".toList, textOr request.trustedIp),
        ("request".toList, requestJson request)])
  | .response id status headers latencyMs =>
    some (message stamp "response".toList
      [("request_id".toList, .string id), ("status".toList, .int status.toNat),
        ("headers".toList, textMap headers),
        ("latency_ms".toList, .int latencyMs)])
  | .complete id bytes durationMs =>
    some (message stamp "complete".toList
      [("request_id".toList, .string id), ("bytes".toList, .int bytes), ("duration_ms".toList, .int durationMs)])
  | .started address startupMs options =>
    some (message stamp "started".toList
      [("address".toList, .string address), ("startup_ms".toList, .int startupMs),
        ("watch".toList, .bool options.watch),
        ("tls".toList, textOr options.tls), ("store".toList, textOr options.store),
        ("topic".toList, textOr options.topic), ("expose".toList, textOr options.expose),
        ("services".toList, .bool options.services), ("nu_version".toList, .string b.nuVersion),
        ("xs_version".toList, textOr (xsVersion b options)), ("datastar_version".toList, .string datastarVersion)])
  | .reloaded => some (message stamp "reloaded".toList [])
  | .error error => some (message stamp "error".toList [("error".toList, .string error)])
  | .print text => some (message stamp "print".toList [("content".toList, .string text)])
  | .stopping inflight => some (message stamp "stopping".toList [("inflight".toList, .int inflight)])
  | .stopped => some (message stamp "stopped".toList [])
  | .stopTimedOut => some (message stamp "stop_timed_out".toList [])
  | .shutdown => none

def needsFlush : LogEvent → Bool
  | .started _ _ _ => true
  | .stopped => true
  | .stopTimedOut => true
  | .reloaded => true
  | .error _ => true
  | .print _ => true
  | _ => false

/-- Where the thread is in its loop; the emitters can run in between. -/
inductive Phase where
  | receiving
  | lagging (missed : Nat)
  | writing (event : LogEvent)
  | checking (needsFlush : Bool)
  | flushing
  | stopping
  | ended
  | panicked

structure State where
  channel : Broadcast LogEvent
  next : Nat
  phase : Phase
  written : List Json
  flushed : Nat

inductive Act where
  | emit (event : LogEvent)
  | work (stamp : Scru128Id)
  /-- the buffer is full, and passes on some of its lines -/
  | spill (flushed : Nat)

def init : State := ⟨.new 65536, 0, .receiving, [], 0⟩

def writeLine (s : State) (line : Json) (phase : Phase) : State :=
  { s with written := s.written ++ [line], phase := phase }

def flush (s : State) (phase : Phase) : State := { s with flushed := s.written.length, phase := phase }

/-- What the thread does next; `none` when it blocks or has ended. -/
def work (b : Build) (s : State) (stamp : Scru128Id) : Option State :=
  match s.phase with
  | .receiving =>
    match s.channel.recv s.next with
    | (.item .shutdown, next) => some { s with next := next, phase := .stopping }
    | (.item event, next) => some { s with next := next, phase := .writing event }
    | (.lagged missed, next) => some { s with next := next, phase := .lagging missed }
    | (.closed, _) => some { s with phase := .stopping }
    | (.empty, _) => none
  | .lagging missed => some (writeLine s (laggedLine stamp missed) .flushing)
  | .writing event =>
    match eventLine b stamp event with
    | some line => some (writeLine s line (.checking (needsFlush event)))
    | none => some { s with phase := .panicked }
  | .checking needsFlush =>
    some { s with phase := if needsFlush || s.channel.isEmpty s.next then .flushing else .receiving }
  | .flushing => some (flush s .receiving)
  | .stopping => some (flush s .ended)
  | .ended => none
  | .panicked => none

def step (b : Build) (s : State) : Act → Option State
  | .emit event => some { s with channel := s.channel.send event }
  | .work stamp => work b s stamp
  | .spill flushed =>
      if s.flushed ≤ flushed ∧ flushed ≤ s.written.length then some { s with flushed := flushed } else none

/-- The lines stand for the events in their order: one for each, or for a run of those overwritten. -/
inductive Accounts (b : Build) (overwritten : Nat) : List LogEvent → List Json → Prop where
  | nil : Accounts b overwritten [] []
  | event {events : List LogEvent} {lines : List Json} {stamp : Scru128Id} {e : LogEvent} {line : Json}
      (before : Accounts b overwritten events lines) (written : eventLine b stamp e = some line) :
      Accounts b overwritten (events ++ [e]) (lines ++ [line])
  | lagged {events : List LogEvent} {lines : List Json} (stamp : Scru128Id) (missed : List LogEvent)
      (before : Accounts b overwritten events lines) (lost : (events ++ missed).length ≤ overwritten)
      (some_lost : missed ≠ []) :
      Accounts b overwritten (events ++ missed) (lines ++ [laggedLine stamp missed.length])

def Phase.pending : Phase → Nat
  | .lagging missed => missed
  | .writing _ => 1
  | .stopping => 1
  | .ended => 1
  | _ => 0

def State.accounted (s : State) : List LogEvent := s.channel.history.take (s.next - s.phase.pending)

def State.Blocked (s : State) : Prop := s.phase = .receiving ∧ (s.channel.recv s.next).1 = .empty

def Act.emitted : Act → Option LogEvent
  | .emit event => some event
  | _ => none

structure Tells (b : Build) (emitted : List LogEvent) (s : State) : Prop where
  inOrder : s.accounted <+: emitted
  accounts : Accounts b (emitted.length - 65536) s.accounted s.written
  idle : s.Blocked → s.accounted = emitted ∧ s.flushed = s.written.length
  ended : s.phase = .ended → emitted[s.accounted.length]? = some .shutdown ∧ s.flushed = s.written.length
  waits : ∀ stamp, work b s stamp = none → s.Blocked ∨ s.phase = .ended

variable {b : Build} {s s' : State}

lemma Accounts.mono {overwritten overwritten' : Nat} (hle : overwritten ≤ overwritten') {events : List LogEvent}
    {lines : List Json} (h : Accounts b overwritten events lines) : Accounts b overwritten' events lines := by
  induction h with
  | nil => exact .nil
  | event _ written ih => exact .event ih written
  | lagged stamp missed _ lost some_lost ih => exact .lagged stamp missed ih (lost.trans hle) some_lost

lemma eventLine_isSome {e : LogEvent} (h : e ≠ .shutdown) (stamp : Scru128Id) :
    ∃ line, eventLine b stamp e = some line := by
  cases e with
  | shutdown => exact absurd rfl h
  | _ => exact ⟨_, rfl⟩

def PhaseInv (s : State) : Prop :=
  match s.phase with
  | .receiving => s.flushed = s.written.length ∨ s.next < s.channel.history.length
  | .lagging missed => 0 < missed ∧ s.next ≤ s.channel.overwritten
  | .writing event => s.channel.history[s.next - 1]? = some event ∧ event ≠ .shutdown
  | .stopping => s.channel.history[s.next - 1]? = some .shutdown
  | .ended => s.channel.history[s.next - 1]? = some .shutdown ∧ s.flushed = s.written.length
  | .panicked => False
  | _ => True

structure Inv (b : Build) (s : State) : Prop where
  opened : s.channel.closed = false
  next_le : s.next ≤ s.channel.history.length
  pending_le : s.phase.pending ≤ s.next
  accounts : Accounts b s.channel.overwritten s.accounted s.written
  flushed_le : s.flushed ≤ s.written.length
  phase : PhaseInv s

lemma inv_init : Inv b init where
  opened := rfl
  next_le := le_rfl
  pending_le := le_rfl
  accounts := .nil
  flushed_le := le_rfl
  phase := .inl rfl

lemma work_event {stamp : Scru128Id} {event : LogEvent} {next : Nat} (hphase : s.phase = .receiving)
    (hrecv : s.channel.recv s.next = (.item event, next)) (h : event ≠ .shutdown) :
    work b s stamp = some { s with next := next, phase := .writing event } := by
  cases event with
  | shutdown => exact absurd rfl h
  | _ => simp only [work, hphase, hrecv]

namespace Inv

lemma emit (h : Inv b s) (event : LogEvent) : Inv b { s with channel := s.channel.send event } where
  opened := h.opened
  next_le := by
    have hle := h.next_le
    simp only [Broadcast.history_send, List.length_append, List.length_singleton]
    omega
  pending_le := h.pending_le
  accounts := by
    have haccounted : State.accounted { s with channel := s.channel.send event } = s.accounted := by
      have hle := h.next_le
      rw [State.accounted, Broadcast.history_send, List.take_append_of_le_length (by dsimp only; omega)]
      rfl
    rw [haccounted]
    apply h.accounts.mono
    simp only [Broadcast.overwritten, Broadcast.history_send, Broadcast.capacity_send, List.length_append,
      List.length_singleton]
    omega
  flushed_le := h.flushed_le
  phase := by
    have hphase := h.phase
    obtain ⟨channel, next, phase, written, flushed⟩ := s
    have hget {e : LogEvent} (hget : channel.history[next - 1]? = some e) :
        (channel.send event).history[next - 1]? = some e := by
      obtain ⟨hlt, _⟩ := List.getElem?_eq_some_iff.mp hget
      rw [Broadcast.history_send, List.getElem?_append_left hlt, hget]
    cases phase with
    | receiving => exact hphase.imp_right (fun hlt => hlt.trans_le (by simp))
    | lagging missed =>
      refine ⟨hphase.1, hphase.2.trans ?_⟩
      simp only [Broadcast.overwritten, Broadcast.history_send, Broadcast.capacity_send, List.length_append,
        List.length_singleton]
      omega
    | writing e => exact ⟨hget hphase.1, hphase.2⟩
    | stopping => exact hget hphase
    | ended => exact ⟨hget hphase.1, hphase.2⟩
    | panicked => exact hphase
    | _ => trivial

lemma spill (h : Inv b s) {flushed : Nat} (hlow : s.flushed ≤ flushed) (hhigh : flushed ≤ s.written.length) :
    Inv b { s with flushed := flushed } where
  opened := h.opened
  next_le := h.next_le
  pending_le := h.pending_le
  accounts := h.accounts
  flushed_le := hhigh
  phase := by
    have hphase := h.phase
    obtain ⟨channel, next, phase, written, flushed'⟩ := s
    cases phase with
    | receiving => exact hphase.imp_left (fun (heq : flushed' = written.length) => le_antisymm hhigh (heq ▸ hlow))
    | ended => exact ⟨hphase.1, le_antisymm hhigh (hphase.2 ▸ hlow)⟩
    | _ => exact hphase

lemma receive (h : Inv b s) (hphase : s.phase = .receiving) {stamp : Scru128Id}
    (hwork : work b s stamp = some s') :
    Inv b s' := by
  have haccounts := h.accounts
  rw [State.accounted, hphase] at haccounts
  rcases hrecv : s.channel.recv s.next with ⟨reception, next⟩
  cases reception with
  | item event =>
    obtain ⟨rfl, hget⟩ := Broadcast.recv_item hrecv
    obtain ⟨hlt, _⟩ := List.getElem?_eq_some_iff.mp hget
    by_cases hshutdown : event = .shutdown
    · subst hshutdown
      simp only [Jsonl.work, hphase, hrecv] at hwork
      obtain rfl := Option.some.inj hwork
      exact ⟨h.opened, hlt, Nat.le_add_left 1 s.next, haccounts, h.flushed_le, hget⟩
    · rw [work_event hphase hrecv hshutdown] at hwork
      obtain rfl := Option.some.inj hwork
      exact ⟨h.opened, hlt, Nat.le_add_left 1 s.next, haccounts, h.flushed_le, hget, hshutdown⟩
  | lagged missed =>
    have hlt := Broadcast.recv_lagged hrecv
    obtain ⟨rfl, hpos, hover⟩ := Broadcast.recv_lagged_eq hrecv
    simp only [Jsonl.work, hphase, hrecv] at hwork
    obtain rfl := Option.some.inj hwork
    refine ⟨h.opened, hover.trans_le (Nat.sub_le _ _), Nat.le_add_left missed s.next, ?_, h.flushed_le,
      hpos, hover.le⟩
    rw [State.accounted]
    simpa [Phase.pending] using haccounts
  | closed =>
    have hclosed := (Broadcast.recv_closed hrecv).1
    rw [h.opened] at hclosed
    cases hclosed
  | empty =>
    simp only [Jsonl.work, hphase, hrecv] at hwork
    cases hwork

lemma write (h : Inv b s) {event : LogEvent} (hphase : s.phase = .writing event) {stamp : Scru128Id}
    (hwork : work b s stamp = some s') : Inv b s' := by
  obtain ⟨channel, next, phase, written, flushed⟩ := s
  obtain rfl := hphase
  obtain ⟨hget, hevent⟩ := h.phase
  have hpending : 1 ≤ next := h.pending_le
  obtain ⟨line, hline⟩ := eventLine_isSome (b := b) hevent stamp
  simp only [Jsonl.work, hline] at hwork
  obtain rfl := Option.some.inj hwork
  refine ⟨h.opened, h.next_le, Nat.zero_le _, ?_, h.flushed_le.trans (by simp [writeLine]), trivial⟩
  have hone : channel.history.take next = channel.history.take (next - 1) ++ [event] := by
    rw [← Nat.sub_add_cancel hpending, List.take_add_one, Nat.sub_add_cancel hpending, hget]
    rfl
  have hevent := h.accounts.event hline
  rw [State.accounted, Phase.pending, ← hone] at hevent
  exact hevent

lemma report (h : Inv b s) {missed : Nat} (hphase : s.phase = .lagging missed) {stamp : Scru128Id}
    (hwork : work b s stamp = some s') : Inv b s' := by
  obtain ⟨channel, next, phase, written, flushed⟩ := s
  obtain rfl := hphase
  obtain ⟨hpos, hover⟩ : 0 < missed ∧ next ≤ channel.overwritten := h.phase
  have hpending : missed ≤ next := h.pending_le
  have hle : next ≤ channel.history.length := h.next_le
  obtain rfl := Option.some.inj hwork
  refine ⟨h.opened, h.next_le, Nat.zero_le _, ?_, h.flushed_le.trans (by simp [writeLine]), trivial⟩
  set lost := (channel.history.drop (next - missed)).take missed with hlost
  have hlength : lost.length = missed := by
    rw [hlost, List.length_take, List.length_drop]
    omega
  have htake : channel.history.take next = channel.history.take (next - missed) ++ lost := by
    rw [hlost, ← List.take_add, Nat.sub_add_cancel hpending]
  have hlagged := h.accounts.lagged stamp lost
    (by rw [State.accounted, Phase.pending, ← htake, List.length_take, min_eq_left hle]; exact hover)
    (List.ne_nil_of_length_pos (hlength ▸ hpos))
  rw [State.accounted, Phase.pending, ← htake, hlength] at hlagged
  exact hlagged

lemma work (h : Inv b s) {stamp : Scru128Id} (hwork : work b s stamp = some s') : Inv b s' := by
  cases hphase : s.phase with
  | receiving => exact h.receive hphase hwork
  | lagging missed => exact h.report hphase hwork
  | writing event => exact h.write hphase hwork
  | checking needsFlush =>
    obtain ⟨channel, next, phase, written, flushed⟩ := s
    obtain rfl := hphase
    obtain rfl := Option.some.inj hwork
    dsimp only
    split
    next => exact ⟨h.opened, h.next_le, Nat.zero_le _, h.accounts, h.flushed_le, trivial⟩
    next hskip =>
      -- the channel is not empty, and the thread is not going to wait
      have hlt : next < channel.history.length := by
        simp [Broadcast.isEmpty] at hskip
        omega
      exact ⟨h.opened, h.next_le, Nat.zero_le _, h.accounts, h.flushed_le, .inr hlt⟩
  | flushing =>
    obtain ⟨channel, next, phase, written, flushed⟩ := s
    obtain rfl := hphase
    obtain rfl := Option.some.inj hwork
    exact ⟨h.opened, h.next_le, Nat.zero_le _, h.accounts, le_rfl, .inl rfl⟩
  | stopping =>
    obtain ⟨channel, next, phase, written, flushed⟩ := s
    obtain rfl := hphase
    obtain rfl := Option.some.inj hwork
    exact ⟨h.opened, h.next_le, h.pending_le, h.accounts, le_rfl, h.phase, rfl⟩
  | ended =>
    simp only [Jsonl.work, hphase] at hwork
    cases hwork
  | panicked =>
    simp only [Jsonl.work, hphase] at hwork
    cases hwork

lemma step (h : Inv b s) {a : Act} (hstep : step b s a = some s') : Inv b s' := by
  cases a with
  | emit event => exact Option.some.inj hstep ▸ h.emit event
  | work stamp => exact h.work hstep
  | spill flushed =>
    rw [Jsonl.step] at hstep
    split at hstep
    next hbounds => exact Option.some.inj hstep ▸ h.spill hbounds.1 hbounds.2
    next => cases hstep

lemma waits (h : Inv b s) {stamp : Scru128Id} (hwork : Jsonl.work b s stamp = none) :
    s.Blocked ∨ s.phase = .ended := by
  cases hphase : s.phase with
  | receiving =>
    rcases hrecv : s.channel.recv s.next with ⟨reception, next⟩
    cases reception with
    | item event =>
      by_cases hshutdown : event = .shutdown
      · subst hshutdown
        simp [Jsonl.work, hphase, hrecv] at hwork
      · rw [work_event hphase hrecv hshutdown] at hwork
        cases hwork
    | lagged missed => simp [Jsonl.work, hphase, hrecv] at hwork
    | closed => simp [Jsonl.work, hphase, hrecv] at hwork
    | empty => exact .inl ⟨hphase, by rw [hrecv]⟩
  | writing event =>
    simp only [Jsonl.work, hphase] at hwork
    split at hwork <;> cases hwork
  | ended => exact .inr rfl
  | panicked =>
    have hinv := h.phase
    rw [PhaseInv, hphase] at hinv
    exact hinv.elim
  | _ => simp [Jsonl.work, hphase] at hwork

lemma idle (h : Inv b s) (hblocked : s.Blocked) :
    s.accounted = s.channel.history ∧ s.flushed = s.written.length := by
  obtain ⟨hphase, hempty⟩ := hblocked
  have hle : s.channel.history.length ≤ s.next := Broadcast.recv_empty (Prod.ext hempty rfl)
  have hinv := h.phase
  rw [PhaseInv, hphase] at hinv
  constructor
  · rw [State.accounted, hphase]
    exact List.take_of_length_le hle
  · exact hinv.resolve_right (by omega)

lemma ended (h : Inv b s) (hphase : s.phase = .ended) :
    s.channel.history[s.accounted.length]? = some .shutdown ∧ s.flushed = s.written.length := by
  have hle := h.next_le
  have hinv := h.phase
  rw [PhaseInv, hphase] at hinv
  have hlength : s.accounted.length = s.next - 1 := by
    rw [State.accounted, hphase, List.length_take, Phase.pending]
    omega
  exact hlength ▸ hinv

end Inv

/-- The second event is there when the first line's flush is considered, the third is not. -/
def session : List Act :=
  [.emit (.complete "a".toList 5 2), .work [], .emit (.print "hi".toList), .work "1".toList, .work [], .work [],
    .work "2".toList, .work [], .work [], .emit .shutdown, .work [], .work []]

end HttpNu.Logging.Jsonl
