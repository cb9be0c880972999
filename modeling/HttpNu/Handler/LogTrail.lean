import HttpNu.Handler.AccessLog
import HttpNu.Library.Broadcast
import HttpNu.Logging.Lines

/-! The trail of the requests: from their handlers, through the channel of the log, to the lines that people
read. -/

namespace HttpNu.Handler.LogTrail

open Text Library Http Response Worker Logging
open Logging.Human (Received RequestState Mark Moment formatActiveLine formatCompleteLine)

def toHashMap (entries : List (Str × Str)) : List (Str × Str) :=
  entries.foldl (fun map e => map.filter (fun old => old.1 ≠ e.1) ++ [e]) []

def headersMap (headers : HeaderMap) : List (Str × Str) :=
  toHashMap (headers.entries.map (fun e => (e.1, e.2.toStr.getD [])))

def requestData (req : RequestParts) : RequestData where
  proto := req.proto
  method := req.method
  remoteIp := req.remoteIp.map Request.IpAddr.text
  remotePort := req.remotePort
  trustedIp := req.trustedIp.map Request.IpAddr.text
  headers := headersMap req.headers
  uri := req.uri.text
  path := req.path
  query := req.query

structure Config (Net : Type) where
  world : World Net
  app : AppConfig Net
  build : Build
  idText : Nat → Scru128Id

structure Arrival where
  addr : Option (Request.IpAddr × UInt16)
  parts : Parts
  evaluation : Evaluation

structure Exchange where
  arrival : Arrival
  due : List Event
  held : Bool
  polls : List FramePoll

structure State where
  /-- the id of a request is its place here -/
  exchanges : List Exchange
  channel : Broadcast LogEvent
  next : Nat
  received : List Received
  human : Human.State

inductive Act where
  | arrive (arrival : Arrival)
  | emit (i ms : Nat)
  | poll (i : Nat) (polled : FramePoll)
  | dropBody (i : Nat)
  | tell (e : LogEvent)
  | receive (now : Moment)

def subject : LogEvent → Option Scru128Id
  | .request id _ => some id
  | .response id _ _ _ => some id
  | .complete id _ _ => some id
  | _ => none

def Handled.dropped (polls : List FramePoll) : Handled → List Event
  | .responded reply => reply.body.dropped polls
  | _ => []

variable {Net : Type} (cfg : Config Net)

def init : State := ⟨[], .new 65536, 0, [], Human.init⟩

def Arrival.request (a : Arrival) : RequestParts := requestOf cfg.world cfg.app a.addr a.parts

def Arrival.handled (a : Arrival) (i : Nat) : List Event × Handled :=
  handle cfg.world cfg.app a.addr a.parts a.evaluation i

def logEvent (ms : Nat) : Event → LogEvent
  | .request requestId request => .request (cfg.idText requestId) (requestData request)
  | .response requestId status headers => .response (cfg.idText requestId) status (headersMap headers) ms
  | .complete requestId bytes => .complete (cfg.idText requestId) bytes ms

def State.take (s : State) (next : Nat) (r : Received) : State :=
  { s with next := next, received := s.received ++ [r], human := Human.step cfg.build s.human r }

def step (s : State) : Act → Option State
  | .arrive arrival =>
    some { s with exchanges := s.exchanges ++ [⟨arrival, (arrival.handled cfg s.exchanges.length).1, true, []⟩] }
  | .emit i ms =>
    (s.exchanges[i]?).bind fun x =>
      match x.due with
      | [] => none
      | e :: due => some { s with
          exchanges := s.exchanges.set i { x with due := due }
          channel := s.channel.send (logEvent cfg ms e) }
  | .poll i polled =>
    (s.exchanges[i]?).bind fun x =>
      if x.due = [] ∧ x.held then
        some { s with exchanges := s.exchanges.set i { x with polls := x.polls ++ [polled] } }
      else none
  | .dropBody i =>
    (s.exchanges[i]?).bind fun x =>
      if x.due = [] ∧ x.held then
        let due := Handled.dropped x.polls (x.arrival.handled cfg i).2
        some { s with exchanges := s.exchanges.set i { x with due := due, held := false } }
      else none
  | .tell e => if subject e = none then some { s with channel := s.channel.send e } else none
  | .receive now =>
    if s.human.phase = .running then
      match s.channel.recv s.next with
      | (.item e, next) => some (s.take cfg next (.event e now))
      | (.lagged n, next) => some (s.take cfg next (.lagged n))
      | (.closed, next) => some (s.take cfg next .closed)
      | (.empty, _) => none
    else none

def Exchange.events (x : Exchange) (i : Nat) : List Event :=
  (x.arrival.handled cfg i).1 ++ if x.held then [] else Handled.dropped x.polls (x.arrival.handled cfg i).2

def Arrival.Served (a : Arrival) : Prop := Handler.Served cfg.world cfg.app a.addr a.parts a.evaluation

def trail (id : Scru128Id) (history : List LogEvent) : List LogEvent :=
  history.filter (fun e => subject e = some id)

def untimed : LogEvent → LogEvent
  | .response id status headers _ => .response id status headers 0
  | .complete id bytes _ => .complete id bytes 0
  | e => e

def answer : LogEvent → Option UInt16
  | .response _ status _ _ => some status
  | _ => none

/-- The entry of the log for a request: what it asked, and no status but that of its response. -/
structure Describes (a : Arrival) (i : Nat) (state : RequestState) : Prop where
  method : state.method = a.parts.method
  path : state.path = a.parts.uri.path
  trustedIp : state.trustedIp = (a.request cfg).trustedIp.map Request.IpAddr.text
  status : ∀ status ∈ state.status, a.Served cfg → ∃ reply, (a.handled cfg i).2 = .responded reply ∧
    status = reply.status

/-- A completed request: its response was sent, and the bytes are those of the data that the server read of it. -/
structure Exchange.Completed (x : Exchange) (i : Nat) (state : RequestState) (bytes : Nat) : Prop where
  describes : Describes cfg x.arrival i state
  served : x.arrival.Served cfg → x.held = false ∧ state.status.isSome ∧ bytes = dataLength x.polls
  failed : ¬x.arrival.Served cfg → bytes = 0

def Tells (s : State) : Mark → Str → Prop
  | .active id, text => ∃ i x state now, cfg.idText i = id ∧ s.exchanges[i]? = some x ∧
      Describes cfg x.arrival i state ∧ formatActiveLine now state = some text
  | .completes id, text => ∃ i x state now bytes durationMs, cfg.idText i = id ∧ s.exchanges[i]? = some x ∧
      x.Completed cfg i state bytes ∧ formatCompleteLine now state durationMs bytes = some text
  | _, _ => True

structure Truthful (s : State) : Prop where
  lines : Human.Prints (Tells cfg s) s.human.zone
  /-- the log has lost nothing: a request that is over has its line, unless it is among those skipped -/
  complete : s.human.phase = .running → (∀ n, .lagged n ∉ s.received) → s.next = s.channel.history.length →
    ∀ i x, s.exchanges[i]? = some x → x.due = [] → x.held = false →
      (Human.told s.human.zone.out).count (.completes (cfg.idText i)) =
        if cfg.idText i ∈ s.received.filterMap Received.refused then 0 else 1

def accessEvents (requestId : Nat) (request : RequestParts) (logged : Option (UInt16 × HeaderMap))
    (bytes : Option Nat) : List Event :=
  .request requestId request :: ((logged.map (fun a => .response requestId a.1 a.2)).toList ++
    (bytes.map (.complete requestId)).toList)

def eventOf : Received → Option LogEvent
  | .event e _ => some e
  | _ => none

structure Recorded (s : State) (seen : List LogEvent) (id : Scru128Id) (state : RequestState) : Prop where
  known : ∃ i x, cfg.idText i = id ∧ s.exchanges[i]? = some x ∧ state.method = x.arrival.parts.method ∧
    state.path = x.arrival.parts.uri.path ∧
    state.trustedIp = (x.arrival.request cfg).trustedIp.map Request.IpAddr.text
  status : state.status = ((trail id seen).filterMap answer).getLast?

structure Inv (s : State) : Prop where
  trails : ∀ i x, s.exchanges[i]? = some x →
    (trail (cfg.idText i) s.channel.history).map untimed ++ x.due.map (logEvent cfg 0) =
      (x.events cfg i).map (logEvent cfg 0)
  known : ∀ e ∈ s.channel.history, ∀ id ∈ subject e, ∃ i < s.exchanges.length, id = cfg.idText i
  next_le : s.next ≤ s.channel.history.length
  human : s.human = Human.run cfg.build s.received
  recorded : ∀ id state, s.human.requests.lookup id = some state →
    Recorded cfg s (s.channel.history.take s.next) id state
  lines : Human.Prints (Tells cfg s) s.human.zone
  opened : s.channel.closed = false
  heard : ∀ e now, .event e now ∈ s.received → e ∈ s.channel.history.take s.next
  requested : (s.received.filterMap Received.requested).Nodup
  unlagged : (∀ n, .lagged n ∉ s.received) →
    s.received.map eventOf = (s.channel.history.take s.next).map some

section Shape

variable {W : World Net} {guard : RequestGuard}

/-- At most one response is logged, whatever becomes of it. -/
def LogsOnce (guard : RequestGuard) (events : List Event) : Prop :=
  ∃ logged : Option (UInt16 × HeaderMap), events = (logged.map (fun a => .response guard.requestId a.1 a.2)).toList

lemma logsOnce_nil : LogsOnce guard [] := ⟨none, rfl⟩

lemma logsOnce_response (status : UInt16) (headers : HeaderMap) :
    LogsOnce guard [.response guard.requestId status headers] := ⟨some (status, headers), rfl⟩

lemma normalResponse_logsOnce (bodyResult : Except Str PipelineResult) (useBrotli : Bool) :
    LogsOnce guard (normalResponse W guard bodyResult useBrotli).1 := by
  rw [normalResponse.eq_def]
  split
  · exact logsOnce_nil
  · rename_i result
    have hbuilt : LogsOnce guard (buildNormalResponse W.compressFull result useBrotli guard.requestId).1 := by
      simp only [buildNormalResponse]
      split
      · exact logsOnce_nil
      · split
        · split <;> exact logsOnce_response _ _
        · exact logsOnce_response _ _
    split <;> simp_all

lemma staticResponse_logsOnce (parts : Parts) (root path : Str) (fallback : Option Str) :
    LogsOnce guard (staticResponse W guard parts root path fallback).1 := by
  rw [staticResponse]
  split
  · exact logsOnce_nil
  · split
    · exact logsOnce_nil
    · exact logsOnce_nil
    · dsimp only
      split <;> exact logsOnce_response _ _

lemma proxyResponse_logsOnce (request : Except Str ProxyRequest) :
    LogsOnce guard (proxyResponse W guard request).1 := by
  rw [proxyResponse.eq_def]
  split
  · exact logsOnce_nil
  · split
    · exact logsOnce_nil
    · exact logsOnce_response _ _
    · exact logsOnce_response _ _

lemma dispatch_logsOnce {config : AppConfig Net} {addr : Option (Request.IpAddr × UInt16)} {parts : Parts}
    {evaluation : Evaluation} : LogsOnce guard (dispatch W config addr parts evaluation guard).1 := by
  rw [dispatch]
  split
  · exact logsOnce_response _ _
  · split
    · exact logsOnce_nil
    · simp only [respondWith]
      split
      · exact normalResponse_logsOnce _ _
      · exact normalResponse_logsOnce _ _
      · exact staticResponse_logsOnce _ _ _ _
      · exact proxyResponse_logsOnce _

end Shape

variable {cfg} {s s' : State} {x x' : Exchange} {i : Nat}

lemma events_eq (cfg : Config Net) (x : Exchange) (i : Nat) :
    ∃ logged bytes, x.events cfg i = accessEvents i (x.arrival.request cfg) logged bytes ∧
      (x.arrival.Served cfg → ∃ reply, (x.arrival.handled cfg i).2 = .responded reply ∧
        logged = some (reply.status, reply.headers) ∧ bytes = if x.held then none else some (dataLength x.polls)) ∧
      (¬x.arrival.Served cfg → bytes = some 0) := by
  obtain ⟨⟨addr, parts, evaluation⟩, due, held, polls⟩ := x
  have hserved : (∃ reply, (dispatch cfg.world cfg.app addr parts evaluation (.new i)).2 = .ok reply) ↔
      Handler.Served cfg.world cfg.app addr parts evaluation := dispatch_ok_iff (.new i)
  have hlogged : WellLogged (.new i) (dispatch cfg.world cfg.app addr parts evaluation (.new i)) :=
    dispatch_wellLogged
  obtain ⟨logged, hevents⟩ : LogsOnce (.new i) (dispatch cfg.world cfg.app addr parts evaluation (.new i)).1 :=
    dispatch_logsOnce
  simp only [Exchange.events, Arrival.Served, Arrival.handled, Arrival.request, handle, handleInner_eq, ← hserved]
  cases hd : dispatch cfg.world cfg.app addr parts evaluation (.new i) with
  | mk events ended =>
    rw [hd] at hlogged hevents
    dsimp only at hevents
    cases ended with
    | ok reply =>
      obtain ⟨rfl, inner, hbody⟩ := hlogged
      refine ⟨some (reply.status, reply.headers), if held then none else some (dataLength polls), ?_,
        fun _ => ⟨reply, rfl, rfl, rfl⟩, fun hnot => absurd ⟨reply, rfl⟩ hnot⟩
      cases held <;>
        simp [dropGuard, accessEvents, Handled.dropped, hbody, ReplyBody.dropped, foldl_poll, RequestGuard.drop,
          RequestGuard.new]
    | err err =>
      refine ⟨logged, some 0, ?_, by simp, fun _ => rfl⟩
      rw [hevents]
      cases held <;>
        simp [dropGuard, accessEvents, Handled.dropped, errorReply, ReplyBody.dropped, RequestGuard.drop,
          RequestGuard.new]
    | panic =>
      refine ⟨logged, some 0, ?_, by simp, fun _ => rfl⟩
      rw [hevents]
      cases held <;> simp [dropGuard, accessEvents, Handled.dropped, RequestGuard.drop, RequestGuard.new]
    | aborted =>
      refine ⟨logged, some 0, ?_, by simp, fun _ => rfl⟩
      rw [hevents]
      cases held <;> simp [dropGuard, accessEvents, Handled.dropped, RequestGuard.drop, RequestGuard.new]

@[simp] lemma untimed_logEvent (ms : Nat) (e : Event) : untimed (logEvent cfg ms e) = logEvent cfg 0 e := by
  cases e <;> rfl

@[simp] lemma subject_untimed (e : LogEvent) : subject (untimed e) = subject e := by cases e <;> rfl

@[simp] lemma answer_untimed (e : LogEvent) : answer (untimed e) = answer e := by cases e <;> rfl

lemma subject_logEvent {e : Event} (he : e ∈ x.events cfg i) (ms : Nat) :
    subject (logEvent cfg ms e) = some (cfg.idText i) := by
  obtain ⟨logged, bytes, heq, _⟩ := events_eq cfg x i
  rw [heq] at he
  cases logged <;> cases bytes <;> simp [accessEvents] at he
  · exact he ▸ rfl
  · rcases he with rfl | rfl <;> rfl
  · rcases he with rfl | rfl <;> rfl
  · rcases he with rfl | rfl | rfl <;> rfl

lemma trail_append (id : Scru128Id) (before after : List LogEvent) :
    trail id (before ++ after) = trail id before ++ trail id after := List.filter_append ..

lemma trail_self {id : Scru128Id} {e : LogEvent} (h : subject e = some id) : trail id [e] = [e] := by
  simp [trail, h]

lemma trail_other {id : Scru128Id} {e : LogEvent} (h : subject e ≠ some id) : trail id [e] = [] := by
  simp [trail, h]

def Kept (exchanges exchanges' : List Exchange) : Prop :=
  ∀ (i : Nat) (x : Exchange), exchanges[i]? = some x → ∃ x', exchanges'[i]? = some x' ∧ x'.arrival = x.arrival ∧
    (x.held = false → x'.held = false ∧ x'.polls = x.polls)

lemma kept_self (exchanges : List Exchange) : Kept exchanges exchanges :=
  fun _ x hx => ⟨x, hx, rfl, fun hheld => ⟨hheld, rfl⟩⟩

lemma kept_concat (exchanges : List Exchange) (x : Exchange) : Kept exchanges (exchanges ++ [x]) := by
  intro i y hy
  have hlt := (List.getElem?_eq_some_iff.mp hy).1
  exact ⟨y, by rw [List.getElem?_append_left hlt, hy], rfl, fun hheld => ⟨hheld, rfl⟩⟩

lemma kept_set {exchanges : List Exchange} (hx : exchanges[i]? = some x) (harrival : x'.arrival = x.arrival)
    (hheld : x.held = false → x'.held = false ∧ x'.polls = x.polls) : Kept exchanges (exchanges.set i x') := by
  intro j y hy
  by_cases hij : i = j
  · subst j
    obtain rfl := Option.some.inj (hx.symm.trans hy)
    exact ⟨x', List.getElem?_set_self (List.getElem?_eq_some_iff.mp hx).1, harrival, hheld⟩
  · exact ⟨y, by rw [List.getElem?_set_ne hij, hy], rfl, fun hheld => ⟨hheld, rfl⟩⟩

lemma tells_mono (hkept : Kept s.exchanges s'.exchanges) {mark : Mark} {text : Str} (h : Tells cfg s mark text) :
    Tells cfg s' mark text := by
  cases mark with
  | plain => trivial
  | skips count => trivial
  | active id =>
    obtain ⟨i, x, state, now, hid, hx, hdescribes, hline⟩ := h
    obtain ⟨x', hx', harrival, _⟩ := hkept i x hx
    exact ⟨i, x', state, now, hid, hx', harrival ▸ hdescribes, hline⟩
  | completes id =>
    obtain ⟨i, x, state, now, bytes, durationMs, hid, hx, hcompleted, hline⟩ := h
    obtain ⟨x', hx', harrival, hover⟩ := hkept i x hx
    refine ⟨i, x', state, now, bytes, durationMs, hid, hx', ⟨?_, fun hserved => ?_, fun hnot => ?_⟩, hline⟩
    · exact harrival ▸ hcompleted.describes
    · obtain ⟨hheld, hstatus, hbytes⟩ := hcompleted.served (harrival ▸ hserved)
      obtain ⟨hheld', hpolls⟩ := hover hheld
      exact ⟨hheld', hstatus, hpolls ▸ hbytes⟩
    · exact hcompleted.failed (harrival ▸ hnot)

lemma recorded_mono (hkept : Kept s.exchanges s'.exchanges) {seen : List LogEvent} {id : Scru128Id}
    {state : RequestState} (h : Recorded cfg s seen id state) : Recorded cfg s' seen id state := by
  obtain ⟨i, x, hid, hx, hmethod, hpath, hip⟩ := h.known
  obtain ⟨x', hx', harrival, _⟩ := hkept i x hx
  exact ⟨⟨i, x', hid, hx', harrival ▸ hmethod, harrival ▸ hpath, harrival ▸ hip⟩, h.status⟩

lemma inv_init (cfg : Config Net) : Inv cfg init where
  trails i x hx := by simp [init] at hx
  known e he := by simp [init, Broadcast.new] at he
  next_le := le_rfl
  human := rfl
  recorded id state hstate := by cases hstate
  lines mark text hmem := by simp [init, Human.init] at hmem
  opened := rfl
  heard e now hmem := by simp [init] at hmem
  requested := List.nodup_nil
  unlagged _ := rfl

lemma Inv.update (h : Inv cfg s) {exchanges : List Exchange} (told : List LogEvent)
    (hkept : Kept s.exchanges exchanges)
    (htrails : ∀ i x, exchanges[i]? = some x →
      (trail (cfg.idText i) (s.channel.history ++ told)).map untimed ++ x.due.map (logEvent cfg 0) =
        (x.events cfg i).map (logEvent cfg 0))
    (hknown : ∀ e ∈ told, ∀ id ∈ subject e, ∃ i < exchanges.length, id = cfg.idText i) :
    Inv cfg { s with
      exchanges := exchanges, channel := { s.channel with history := s.channel.history ++ told } } where
  trails := htrails
  known e he id hid := by
    rcases List.mem_append.mp he with he | he
    · obtain ⟨i, hi, hid⟩ := h.known e he id hid
      obtain ⟨x', hx', _⟩ := hkept i _ (List.getElem?_eq_getElem hi)
      exact ⟨i, (List.getElem?_eq_some_iff.mp hx').1, hid⟩
    · exact hknown e he id hid
  next_le := by
    have hle := h.next_le
    simp only [List.length_append]
    omega
  human := h.human
  recorded id state hstate := by
    dsimp only
    rw [List.take_append_of_le_length h.next_le]
    exact recorded_mono hkept (h.recorded id state hstate)
  lines mark text hmem := tells_mono hkept (h.lines mark text hmem)
  opened := h.opened
  heard e now hmem := by
    dsimp only
    rw [List.take_append_of_le_length h.next_le]
    exact h.heard e now hmem
  requested := h.requested
  unlagged hlag := by
    dsimp only
    rw [List.take_append_of_le_length h.next_le]
    exact h.unlagged hlag

variable (hinj : Function.Injective cfg.idText)
include hinj

lemma Inv.unknown (h : Inv cfg s) (hi : s.exchanges.length ≤ i) : trail (cfg.idText i) s.channel.history = [] := by
  rw [trail, List.filter_eq_nil_iff]
  intro e he hsubject
  obtain ⟨j, hj, hid⟩ := h.known e he (cfg.idText i) (of_decide_eq_true hsubject)
  obtain rfl := hinj hid
  omega

lemma inv_arrive (h : Inv cfg s) (arrival : Arrival) (hs : step cfg s (.arrive arrival) = some s') :
    Inv cfg s' := by
  obtain rfl := Option.some.inj hs
  have hupdate := h.update []
    (kept_concat s.exchanges ⟨arrival, (arrival.handled cfg s.exchanges.length).1, true, []⟩)
    (fun i x hx => ?_) (by simp)
  · simpa using hupdate
  · rw [List.append_nil]
    rcases Nat.lt_or_ge i s.exchanges.length with hlt | hge
    · rw [List.getElem?_append_left hlt] at hx
      exact h.trails i x hx
    · rw [h.unknown hinj hge]
      rw [List.getElem?_append_right hge] at hx
      have hi : i = s.exchanges.length := by
        have hlen := (List.getElem?_eq_some_iff.mp hx).1
        simp only [List.length_singleton] at hlen
        omega
      subst i
      simp only [Nat.sub_self, List.getElem?_cons_zero, Option.some.injEq] at hx
      subst x
      simp [Exchange.events]

lemma inv_emit (h : Inv cfg s) {ms : Nat} (hs : step cfg s (.emit i ms) = some s') : Inv cfg s' := by
  simp only [step] at hs
  obtain ⟨x, hx, hs⟩ := Option.bind_eq_some_iff.mp hs
  split at hs
  · cases hs
  · rename_i e due hdue
    obtain rfl := Option.some.inj hs
    have htrail := h.trails i x hx
    rw [hdue, List.map_cons] at htrail
    have hsubject : subject (logEvent cfg ms e) = some (cfg.idText i) := by
      have hmem : logEvent cfg 0 e ∈ (x.events cfg i).map (logEvent cfg 0) :=
        htrail ▸ List.mem_append_right _ List.mem_cons_self
      obtain ⟨e', he', heq⟩ := List.mem_map.mp hmem
      rw [← subject_untimed, untimed_logEvent, ← heq]
      exact subject_logEvent he' 0
    refine h.update [logEvent cfg ms e] (kept_set hx rfl (fun hheld => ⟨hheld, rfl⟩)) (fun j y hy => ?_)
      (fun e' he' id hid => ?_)
    · rw [trail_append]
      by_cases hij : i = j
      · subst j
        rw [List.getElem?_set_self (List.getElem?_eq_some_iff.mp hx).1, Option.some.injEq] at hy
        subst y
        rw [trail_self hsubject, List.map_append, List.append_assoc]
        simp only [List.map_cons, List.map_nil, untimed_logEvent, List.singleton_append]
        exact htrail
      · rw [List.getElem?_set_ne hij] at hy
        rw [trail_other (by rw [hsubject]; exact fun heq => hij (hinj (Option.some.inj heq))), List.append_nil]
        exact h.trails j y hy
    · obtain rfl := List.mem_singleton.mp he'
      rw [hsubject, Option.mem_some_iff] at hid
      exact ⟨i, by simpa using (List.getElem?_eq_some_iff.mp hx).1, hid.symm⟩

omit hinj in
lemma Inv.set (h : Inv cfg s) (hx : s.exchanges[i]? = some x) (harrival : x'.arrival = x.arrival)
    (hheld : x.held = true) (more : List Event) (hdue : x'.due = x.due ++ more)
    (hevents : x'.events cfg i = x.events cfg i ++ more) :
    Inv cfg { s with exchanges := s.exchanges.set i x' } := by
  have hkept : Kept s.exchanges (s.exchanges.set i x') :=
    kept_set hx harrival (fun hover => by simp [hheld] at hover)
  have hupdate := h.update [] hkept (fun j y hy => ?_) (by simp)
  · simpa using hupdate
  · rw [List.append_nil]
    by_cases hij : i = j
    · subst j
      rw [List.getElem?_set_self (List.getElem?_eq_some_iff.mp hx).1, Option.some.injEq] at hy
      subst y
      rw [hdue, hevents, List.map_append, List.map_append, ← List.append_assoc, h.trails i x hx]
    · rw [List.getElem?_set_ne hij] at hy
      exact h.trails j y hy

omit hinj in
lemma inv_poll (h : Inv cfg s) {polled : FramePoll} (hs : step cfg s (.poll i polled) = some s') : Inv cfg s' := by
  simp only [step] at hs
  obtain ⟨x, hx, hs⟩ := Option.bind_eq_some_iff.mp hs
  split at hs
  · rename_i hready
    obtain rfl := Option.some.inj hs
    exact h.set hx rfl hready.2 [] (List.append_nil _).symm (by simp [Exchange.events, hready.2])
  · cases hs

omit hinj in
lemma inv_dropBody (h : Inv cfg s) (hs : step cfg s (.dropBody i) = some s') : Inv cfg s' := by
  simp only [step] at hs
  obtain ⟨x, hx, hs⟩ := Option.bind_eq_some_iff.mp hs
  split at hs
  · rename_i hready
    obtain rfl := Option.some.inj hs
    refine h.set hx ?_ hready.2 (Handled.dropped x.polls (x.arrival.handled cfg i).2) ?_ ?_
    · rfl
    · rw [hready.1, List.nil_append]
    · simp [Exchange.events, hready.2]
  · cases hs

omit hinj in
lemma inv_tell (h : Inv cfg s) {e : LogEvent} (hs : step cfg s (.tell e) = some s') : Inv cfg s' := by
  simp only [step] at hs
  split at hs
  · rename_i hfree
    obtain rfl := Option.some.inj hs
    refine h.update [e] (kept_self s.exchanges) (fun i x hx => ?_) (fun e' he' id hid => ?_)
    · rw [trail_append, trail_other (by simp [hfree]), List.append_nil]
      exact h.trails i x hx
    · obtain rfl := List.mem_singleton.mp he'
      simp [hfree] at hid
  · cases hs

omit hinj

lemma Inv.trail_split (h : Inv cfg s) (hx : s.exchanges[i]? = some x) {n : Nat} {e : LogEvent}
    (hget : s.channel.history[n]? = some e) (hsubject : subject e = some (cfg.idText i)) :
    (trail (cfg.idText i) (s.channel.history.take n)).map untimed ++ untimed e ::
      ((trail (cfg.idText i) (s.channel.history.drop (n + 1))).map untimed ++ x.due.map (logEvent cfg 0)) =
      (x.events cfg i).map (logEvent cfg 0) := by
  obtain ⟨hn, rfl⟩ := List.getElem?_eq_some_iff.mp hget
  have htrail := h.trails i x hx
  rw [← List.take_append_drop n s.channel.history, List.drop_eq_getElem_cons hn, trail_append,
    ← List.singleton_append, trail_append, trail_self hsubject] at htrail
  rw [← htrail]
  simp

lemma Inv.exchange (h : Inv cfg s) {n : Nat} {e : LogEvent} {id : Scru128Id}
    (hget : s.channel.history[n]? = some e)
    (hsubject : subject e = some id) : ∃ i x, cfg.idText i = id ∧ s.exchanges[i]? = some x := by
  obtain ⟨i, hi, rfl⟩ := h.known e (List.mem_of_getElem? hget) id hsubject
  exact ⟨i, s.exchanges[i], rfl, List.getElem?_eq_getElem hi⟩

lemma Inv.request (h : Inv cfg s) {n : Nat} {id : Scru128Id} {request : RequestData}
    (hget : s.channel.history[n]? = some (.request id request)) :
    ∃ i x, cfg.idText i = id ∧ s.exchanges[i]? = some x ∧ request = requestData (x.arrival.request cfg) ∧
      trail id (s.channel.history.take n) = [] := by
  obtain ⟨i, x, rfl, hx⟩ := h.exchange hget rfl
  have hsplit := h.trail_split hx hget rfl
  obtain ⟨logged, bytes, heq, _⟩ := events_eq cfg x i
  rw [heq] at hsplit
  cases hseen : trail (cfg.idText i) (s.channel.history.take n) with
  | nil =>
    rw [hseen] at hsplit
    refine ⟨i, x, rfl, hx, ?_, rfl⟩
    simp only [accessEvents, List.map_nil, List.nil_append, List.map_cons, List.cons.injEq] at hsplit
    exact (LogEvent.request.inj hsplit.1).2
  | cons e seen =>
    rw [hseen] at hsplit
    simp only [accessEvents, List.map_cons, List.cons_append, List.cons.injEq] at hsplit
    have hmem := List.mem_append_right (seen.map untimed) (List.mem_cons_self :
      untimed (.request (cfg.idText i) request) ∈ _ :: ((trail (cfg.idText i) (s.channel.history.drop (n + 1))).map
        untimed ++ x.due.map (logEvent cfg 0)))
    rw [hsplit.2] at hmem
    cases logged <;> cases bytes <;> simp [untimed, logEvent] at hmem

lemma complete_last {e first : LogEvent} {answers ends before after : List LogEvent}
    (h : before ++ e :: after = first :: (answers ++ ends)) (hfirst : e ≠ first) (hanswers : e ∉ answers)
    (hends : ends.length ≤ 1) : before = first :: answers ∧ ends = [e] := by
  rw [← List.cons_append] at h
  rcases List.append_eq_append_iff.mp h with ⟨rest, hbefore, hrest⟩ | ⟨rest, hbefore, hrest⟩
  · cases rest with
    | nil =>
      have hlen := congrArg List.length hrest
      simp only [List.nil_append, List.length_cons] at hlen
      obtain rfl : after = [] := List.length_eq_zero_iff.mp (by omega)
      exact ⟨by simpa using hbefore.symm, by simpa using hrest.symm⟩
    | cons a rest =>
      obtain ⟨rfl, _⟩ := List.cons.inj hrest
      have hmem : e ∈ first :: answers := hbefore ▸ List.mem_append_right _ List.mem_cons_self
      exact absurd ((List.mem_cons.mp hmem).resolve_left hfirst) hanswers
  · have hlen := congrArg List.length hrest
    simp only [List.length_append, List.length_cons] at hlen
    obtain rfl : rest = [] := List.length_eq_zero_iff.mp (by omega)
    obtain rfl : after = [] := List.length_eq_zero_iff.mp (by omega)
    exact ⟨by simpa using hbefore, by simpa using hrest⟩

lemma Inv.complete (h : Inv cfg s) {n : Nat} {id : Scru128Id} {bytes ms : Nat}
    (hget : s.channel.history[n]? = some (.complete id bytes ms)) :
    ∃ (i : Nat) (x : Exchange) (logged : Option (UInt16 × HeaderMap)), cfg.idText i = id ∧
      s.exchanges[i]? = some x ∧
      (x.arrival.Served cfg → logged.isSome ∧ x.held = false ∧ bytes = dataLength x.polls) ∧
      (¬x.arrival.Served cfg → bytes = 0) ∧
      (trail id (s.channel.history.take n)).filterMap answer = (logged.map Prod.fst).toList := by
  obtain ⟨i, x, rfl, hx⟩ := h.exchange hget rfl
  have hsplit := h.trail_split hx hget rfl
  obtain ⟨logged, bytes', heq, hserved, hfailed⟩ := events_eq cfg x i
  rw [heq, accessEvents, List.map_cons, List.map_append] at hsplit
  obtain ⟨hbefore, hends⟩ := complete_last hsplit (by simp [untimed, logEvent])
    (by cases logged <;> simp [untimed, logEvent]) (by cases bytes' <;> simp)
  obtain rfl : bytes' = some bytes := by
    cases bytes' with
    | none => simp at hends
    | some bytes' => simpa [untimed, logEvent] using hends
  refine ⟨i, x, logged, rfl, hx, fun h => ?_, fun hnot => Option.some.inj (hfailed hnot), ?_⟩
  · obtain ⟨reply, _, rfl, hbytes⟩ := hserved h
    cases hheld : x.held with
    | true => simp [hheld] at hbytes
    | false => exact ⟨rfl, rfl, by simpa [hheld] using hbytes⟩
  have hanswers : ∀ es : List LogEvent, (es.map untimed).filterMap answer = es.filterMap answer := by
    intro es
    rw [List.filterMap_map]
    exact List.filterMap_congr (fun e _ => answer_untimed e)
  rw [← hanswers, hbefore]
  cases logged <;> rfl

lemma Recorded.describes {n : Nat} {id : Scru128Id} {state : RequestState} (h : Inv cfg s)
    (hrecorded : Recorded cfg s (s.channel.history.take n) id state) :
    ∃ i x, cfg.idText i = id ∧ s.exchanges[i]? = some x ∧ Describes cfg x.arrival i state := by
  obtain ⟨⟨i, x, rfl, hx, hmethod, hpath, hip⟩, hstatus⟩ := hrecorded
  refine ⟨i, x, rfl, hx, hmethod, hpath, hip, fun status hmem hserved => ?_⟩
  rw [hstatus] at hmem
  obtain ⟨e, he, hanswer⟩ := List.mem_filterMap.mp (List.mem_of_getLast? hmem)
  have hevent : untimed e ∈ (x.events cfg i).map (logEvent cfg 0) := by
    rw [← h.trails i x hx]
    apply List.mem_append_left
    apply List.mem_map_of_mem
    rw [← List.take_append_drop n s.channel.history, trail_append]
    exact List.mem_append_left _ he
  obtain ⟨logged, bytes, heq, hshape, _⟩ := events_eq cfg x i
  obtain ⟨reply, hreply, rfl, _⟩ := hshape hserved
  refine ⟨reply, hreply, ?_⟩
  rw [heq] at hevent
  rw [← answer_untimed] at hanswer
  cases bytes <;> simp [accessEvents] at hevent
  · rcases hevent with hevent | hevent <;> rw [hevent] at hanswer <;> simp [logEvent, answer] at hanswer
    exact hanswer.symm
  · rcases hevent with hevent | hevent | hevent <;> rw [hevent] at hanswer <;> simp [logEvent, answer] at hanswer
    exact hanswer.symm

lemma Recorded.quiet {seen : List LogEvent} {id : Scru128Id} {state : RequestState} {e : LogEvent}
    (h : Recorded cfg s seen id state) (he : answer e = none ∨ subject e ≠ some id) :
    Recorded cfg s (seen ++ [e]) id state := by
  refine ⟨h.known, ?_⟩
  rw [trail_append, List.filterMap_append, h.status]
  have hnone : (trail id [e]).filterMap answer = [] := by
    rcases he with he | he
    · by_cases hsubject : subject e = some id
      · simp [trail_self hsubject, he]
      · simp [trail_other hsubject]
    · simp [trail_other he]
  rw [hnone, List.append_nil]

lemma Inv.recorded_item (h : Inv cfg s) {e : LogEvent} (hget : s.channel.history[s.next]? = some e) (now : Moment)
    {id : Scru128Id} {state : RequestState}
    (hstate : (Human.remembered s.human.requests (.event e now)).lookup id = some state) :
    Recorded cfg s (s.channel.history.take (s.next + 1)) id state := by
  rw [List.take_add_one, hget, Option.toList_some]
  cases e with
  | request other request =>
    have hother : id = other ∧ now.tryConsume = true ∨ s.human.requests.lookup id = some state := by
      simp only [Human.remembered] at hstate
      split at hstate
      · rename_i hadmits
        by_cases hid : id = other
        · exact Or.inl ⟨hid, hadmits⟩
        · rw [AList.lookup_insert_ne hid] at hstate
          exact Or.inr hstate
      · exact Or.inr hstate
    rcases hother with ⟨rfl, hadmits⟩ | hold
    · simp only [Human.remembered, hadmits, if_true, AList.lookup_insert, Option.some.injEq] at hstate
      subst hstate
      obtain ⟨i, x, rfl, hx, rfl, hseen⟩ := h.request hget
      refine ⟨⟨i, x, rfl, hx, rfl, rfl, rfl⟩, ?_⟩
      rw [trail_append, hseen, trail_self rfl]
      rfl
    · exact (h.recorded id state hold).quiet (Or.inl rfl)
  | response other status headers latencyMs =>
    simp only [Human.remembered] at hstate
    cases hlookup : s.human.requests.lookup other with
    | none =>
      rw [hlookup] at hstate
      have hid : other ≠ id := by
        rintro rfl
        simp [hlookup] at hstate
      exact (h.recorded id state hstate).quiet (Or.inr (by simpa [subject] using hid))
    | some old =>
      rw [hlookup] at hstate
      by_cases hid : id = other
      · subst id
        rw [AList.lookup_insert, Option.some.injEq] at hstate
        subst hstate
        obtain ⟨i, x, rfl, hx, hmethod, hpath, hip⟩ := (h.recorded other old hlookup).known
        refine ⟨⟨i, x, rfl, hx, hmethod, hpath, hip⟩, ?_⟩
        rw [trail_append, trail_self rfl, List.filterMap_append]
        simp [answer]
      · rw [AList.lookup_insert_ne hid] at hstate
        refine (h.recorded id state hstate).quiet (Or.inr ?_)
        simpa [subject] using Ne.symm hid
  | complete other bytes durationMs =>
    have hid : id ≠ other := by
      rintro rfl
      simp [Human.remembered] at hstate
    rw [Human.remembered, AList.lookup_erase_ne hid] at hstate
    exact (h.recorded id state hstate).quiet (Or.inl rfl)
  | _ => exact (h.recorded id state hstate).quiet (Or.inl rfl)

lemma Inv.completed (hinj : Function.Injective cfg.idText) (h : Inv cfg s) {id : Scru128Id} {state : RequestState}
    {bytes ms : Nat}
    (hget : s.channel.history[s.next]? = some (.complete id bytes ms))
    (hstate : s.human.requests.lookup id = some state) :
    ∃ i x, cfg.idText i = id ∧ s.exchanges[i]? = some x ∧ x.Completed cfg i state bytes := by
  have hrecorded := h.recorded id state hstate
  obtain ⟨i, x, logged, hid, hx, hserved, hfailed, hanswers⟩ := h.complete hget
  obtain ⟨j, y, hid', hy, hdescribes⟩ := hrecorded.describes h
  obtain rfl := hinj (hid.trans hid'.symm)
  obtain rfl := Option.some.inj (hx.symm.trans hy)
  refine ⟨i, x, hid, hx, hdescribes, fun h => ?_, hfailed⟩
  obtain ⟨hlogged, hheld, hbytes⟩ := hserved h
  obtain ⟨logged, rfl⟩ := Option.isSome_iff_exists.mp hlogged
  refine ⟨hheld, ?_, hbytes⟩
  rw [hrecorded.status, hanswers]
  rfl

lemma Inv.requested_item (h : Inv cfg s) {e : LogEvent} (hget : s.channel.history[s.next]? = some e)
    (now : Moment) :
    ((s.received ++ [Received.event e now]).filterMap Received.requested).Nodup := by
  rw [List.filterMap_append, List.nodup_append]
  refine ⟨h.requested, by cases e <;> simp [Received.requested, List.filterMap_cons],
    fun id hold id' hnew heq => ?_⟩
  subst id'
  cases e with
  | request other request =>
    obtain rfl : id = other := by simpa [Received.requested] using hnew
    obtain ⟨i, x, rfl, hx, _, hseen⟩ := h.request hget
    obtain ⟨r, hr, hid⟩ := List.mem_filterMap.mp hold
    cases r with
    | event e now' =>
      cases e with
      | request other request' =>
        obtain rfl := Option.some.inj hid
        have hmem : .request (cfg.idText i) request' ∈ trail (cfg.idText i) (s.channel.history.take s.next) :=
          List.mem_filter.mpr ⟨h.heard _ now' hr, by simp [subject]⟩
        rw [hseen] at hmem
        cases hmem
      | _ => cases hid
    | _ => cases hid
  | _ => simp [Received.requested] at hnew

lemma Inv.take_item (hinj : Function.Injective cfg.idText) (h : Inv cfg s) (hrunning : s.human.phase = .running)
    {e : LogEvent}
    (hget : s.channel.history[s.next]? = some e) (now : Moment) :
    Inv cfg (s.take cfg (s.next + 1) (.event e now)) := by
  have hrecorded : ∀ id state, (Human.step cfg.build s.human (.event e now)).requests.lookup id = some state →
      Recorded cfg s (s.channel.history.take (s.next + 1)) id state := by
    intro id state hstate
    rw [Human.requests_step s.human cfg.build _ hrunning] at hstate
    exact h.recorded_item hget now hstate
  have hkept : Kept s.exchanges (s.take cfg (s.next + 1) (.event e now)).exchanges := kept_self s.exchanges
  exact {
    trails := h.trails
    known := h.known
    next_le := (List.getElem?_eq_some_iff.mp hget).1
    human := by rw [State.take, Human.run_append, ← h.human]
    recorded := fun id state hstate => recorded_mono hkept (hrecorded id state hstate)
    lines := by
      refine Human.prints_step cfg.build ?_ ?_ ?_ ?_ ?_
      · exact fun _ => trivial
      · exact fun _ _ => trivial
      · intro id state now' text hstate hline
        obtain ⟨i, x, hid, hx, hdescribes⟩ := (hrecorded id state hstate).describes h
        exact ⟨i, x, state, now', hid, hx, hdescribes, hline⟩
      · intro id state bytes durationMs now' text hr hstate hline
        obtain ⟨rfl, rfl⟩ := Received.event.inj hr
        obtain ⟨i, x, hid, hx, hcompleted⟩ := h.completed hinj hget hstate
        exact ⟨i, x, state, now, bytes, durationMs, hid, hx, hcompleted, hline⟩
      · exact fun mark text hmem => tells_mono hkept (h.lines mark text hmem)
    opened := h.opened
    heard := fun e' now' hmem => by
      simp only [State.take, List.take_add_one, hget]
      rcases List.mem_append.mp hmem with hmem | hmem
      · exact List.mem_append_left _ (h.heard e' now' hmem)
      · obtain ⟨rfl, _⟩ := Received.event.inj (List.mem_singleton.mp hmem)
        exact List.mem_append_right _ (by simp)
    requested := h.requested_item hget now
    unlagged := fun hlag => by
      have hlag' : ∀ n, .lagged n ∉ s.received := fun n hmem => hlag n (List.mem_append_left _ hmem)
      simp only [State.take, List.map_append, h.unlagged hlag', List.take_add_one, hget]
      rfl }

lemma Inv.take_lagged (h : Inv cfg s) (hrunning : s.human.phase = .running) {n next : Nat}
    (hrecv : s.channel.recv s.next = (.lagged n, next)) : Inv cfg (s.take cfg next (.lagged n)) := by
  obtain ⟨_, _, hnext⟩ := Broadcast.recv_lagged_eq hrecv
  have hnone : ∀ id, (Human.step cfg.build s.human (.lagged n)).requests.lookup id = none := by
    intro id
    rw [Human.requests_step s.human cfg.build _ hrunning]
    rfl
  exact {
    trails := h.trails
    known := h.known
    next_le := by
      rw [State.take, hnext, Broadcast.overwritten]
      exact Nat.sub_le _ _
    human := by rw [State.take, Human.run_append, ← h.human]
    recorded := fun id state hstate => by cases (hnone id).symm.trans hstate
    lines := by
      refine Human.prints_step cfg.build ?_ ?_ ?_ ?_ ?_
      · exact fun _ => trivial
      · exact fun _ _ => trivial
      · intro id state now' text hstate
        cases (hnone id).symm.trans hstate
      · intro id state bytes durationMs now' text hr
        cases hr
      · exact fun mark text hmem => tells_mono (kept_self s.exchanges) (h.lines mark text hmem)
    opened := h.opened
    heard := fun e now hmem => by
      have hold : .event e now ∈ s.received := by simpa [State.take] using hmem
      have hle : s.next ≤ next := by omega
      exact (List.take_prefix_take_left hle).mem (h.heard e now hold)
    requested := by
      rw [State.take, Human.filterMap_concat rfl]
      exact h.requested
    unlagged := fun hlag => absurd (List.mem_append_right _ List.mem_cons_self) (hlag n) }

lemma inv_receive (hinj : Function.Injective cfg.idText) (h : Inv cfg s) {now : Moment}
    (hs : step cfg s (.receive now) = some s') : Inv cfg s' := by
  simp only [step] at hs
  split at hs
  · rename_i hrunning
    split at hs
    · rename_i e next hrecv
      obtain ⟨rfl, hget⟩ := Broadcast.recv_item hrecv
      obtain rfl := Option.some.inj hs
      exact h.take_item hinj hrunning hget now
    · rename_i n next hrecv
      obtain rfl := Option.some.inj hs
      exact h.take_lagged hrunning hrecv
    · rename_i next hrecv
      have hclosed := (Broadcast.recv_closed hrecv).1
      simp [h.opened] at hclosed
    · cases hs
  · cases hs

lemma inv_step (hinj : Function.Injective cfg.idText) (s : State) (a : Act) (s' : State) (h : Inv cfg s)
    (hs : step cfg s a = some s') : Inv cfg s' := by
  cases a with
  | arrive arrival => exact inv_arrive hinj h arrival hs
  | emit i ms => exact inv_emit hinj h hs
  | poll i polled => exact inv_poll h hs
  | dropBody i => exact inv_dropBody h hs
  | tell e => exact inv_tell h hs
  | receive now => exact inv_receive hinj h hs

lemma inv_run (hinj : Function.Injective cfg.idText) {acts : List Act} (h : run (step cfg) init acts = some s) :
    Inv cfg s := run_invariant (inv_step hinj) (inv_init cfg) h

def about (id : Scru128Id) (r : Received) : Bool := (eventOf r).bind subject = some id

lemma standing_about (id : Scru128Id) {received : List Received} (hlag : ∀ n, .lagged n ∉ received) :
    Human.standing id received = Human.standing id (received.filter (about id)) := by
  induction received using List.reverseRecOn with
  | nil => rfl
  | append_singleton received r ih =>
    have hlag' : ∀ n, .lagged n ∉ received := fun n hmem => hlag n (List.mem_append_left _ hmem)
    rw [Human.standing_append, List.filter_append, ih hlag']
    cases habout : about id r with
    | true => rw [List.filter_singleton, habout, cond_true, Human.standing_append]
    | false =>
      rw [List.filter_singleton, habout, cond_false, List.append_nil]
      simp only [about, decide_eq_false_iff_not] at habout
      cases r with
      | lagged n => exact absurd (List.mem_append_right _ List.mem_cons_self) (hlag n)
      | closed => rfl
      | event e now =>
        cases e with
        | request other request => exact if_neg (fun heq => habout (by simp [eventOf, subject, heq]))
        | complete other bytes durationMs => exact if_neg (fun heq => habout (by simp [eventOf, subject, heq.1]))
        | _ => rfl

lemma refused_about (id : Scru128Id) (received : List Received) :
    id ∈ received.filterMap Received.refused ↔ id ∈ (received.filter (about id)).filterMap Received.refused := by
  simp only [List.mem_filterMap, List.mem_filter]
  refine ⟨fun ⟨r, hr, hid⟩ => ⟨r, ⟨hr, ?_⟩, hid⟩, fun ⟨r, hr, hid⟩ => ⟨r, hr.1, hid⟩⟩
  cases r with
  | event e now =>
    cases e with
    | request other request =>
      simp only [Received.refused] at hid
      split at hid
      · cases hid
      · simp [about, eventOf, subject, Option.some.inj hid]
    | _ => cases hid
  | _ => cases hid

lemma map_about (id : Scru128Id) {received : List Received} {es : List LogEvent}
    (h : received.map eventOf = es.map some) :
    (received.filter (about id)).map eventOf = (trail id es).map some := by
  induction received generalizing es with
  | nil =>
    obtain rfl : es = [] := by simpa using h.symm
    rfl
  | cons r received ih =>
    cases es with
    | nil => simp at h
    | cons e es =>
      obtain ⟨hr, hrest⟩ := List.cons.inj h
      have hrest := ih hrest
      rw [trail, List.filter_cons, List.filter_cons, ← trail]
      have habout : about id r = decide (subject e = some id) := by rw [about, hr, Option.bind_some]
      rw [habout]
      split
      · rw [List.map_cons, List.map_cons, hr, hrest]
      · exact hrest

lemma exists_event {received : List Received} {e : LogEvent} {es : List LogEvent}
    (h : received.map eventOf = (e :: es).map some) :
    ∃ now later, received = .event e now :: later ∧ later.map eventOf = es.map some := by
  cases received with
  | nil => simp at h
  | cons r later =>
    obtain ⟨hr, hlater⟩ := List.cons.inj h
    cases r with
    | event e' now =>
      obtain rfl := Option.some.inj hr
      exact ⟨now, later, rfl, hlater⟩
    | _ => cases hr

lemma untimed_request {e : LogEvent} {id : Scru128Id} {request : RequestData}
    (h : untimed e = .request id request) :
    e = .request id request := by
  cases e <;> first | exact h | cases h

lemma untimed_response {e : LogEvent} {id : Scru128Id} {status : UInt16} {headers : List (Str × Str)}
    (h : untimed e = .response id status headers 0) : ∃ ms, e = .response id status headers ms := by
  cases e with
  | response id' status' headers' ms => cases h; exact ⟨ms, rfl⟩
  | _ => cases h

lemma untimed_complete {e : LogEvent} {id : Scru128Id} {bytes : Nat} (h : untimed e = .complete id bytes 0) :
    ∃ ms, e = .complete id bytes ms := by
  cases e with
  | complete id' bytes' ms => cases h; exact ⟨ms, rfl⟩
  | _ => cases h

/-- A request of which all events were received stands completed, if its first event was admitted. -/
lemma standing_over {id : Scru128Id} {received : List Received} {es : List LogEvent} {request : RequestData}
    {logged : Option (UInt16 × List (Str × Str))} {bytes : Nat} (hreceived : received.map eventOf = es.map some)
    (htimes : es.map untimed = .request id request ::
      ((logged.map (fun a => LogEvent.response id a.1 a.2 0)).toList ++ [.complete id bytes 0])) :
    Human.standing id received =
      if id ∈ received.filterMap Received.refused then .skipped else .completed := by
  obtain ⟨first, rest, rfl, hfirst, hes⟩ := List.map_eq_cons_iff.mp htimes
  obtain ⟨now, later, rfl, hlater⟩ := exists_event hreceived
  obtain rfl := untimed_request hfirst
  have hlast : ∃ middle last, rest = middle ++ [last] ∧ untimed last = .complete id bytes 0 ∧
      (middle = [] ∨ ∃ status headers ms, middle = [.response id status headers ms]) := by
    obtain ⟨middle, ends, rfl, hmiddle, hends⟩ := List.map_eq_append_iff.mp hes
    obtain ⟨last, none, rfl, hlast, hnone⟩ := List.map_eq_cons_iff.mp hends
    obtain rfl := List.map_eq_nil_iff.mp hnone
    refine ⟨middle, last, rfl, hlast, ?_⟩
    cases logged with
    | none => exact Or.inl (List.map_eq_nil_iff.mp hmiddle)
    | some a =>
      obtain ⟨e, none, rfl, he, hnone⟩ := List.map_eq_cons_iff.mp hmiddle
      obtain rfl := List.map_eq_nil_iff.mp hnone
      obtain ⟨ms, rfl⟩ := untimed_response he
      exact Or.inr ⟨_, _, ms, rfl⟩
  obtain ⟨middle, last, rfl, hlast, hmiddle⟩ := hlast
  obtain ⟨ms, rfl⟩ := untimed_complete hlast
  rcases hmiddle with rfl | ⟨status, headers, ms', rfl⟩
  · obtain ⟨now₁, after, rfl, hafter⟩ := exists_event hlater
    obtain rfl : after = [] := by simpa using hafter
    cases hadmits : now.tryConsume <;>
      simp [Human.standing, Human.Standing.next, Received.refused, hadmits]
  · obtain ⟨now₁, after, rfl, hafter⟩ := exists_event hlater
    obtain ⟨now₂, last, rfl, hlast⟩ := exists_event hafter
    obtain rfl : last = [] := by simpa using hlast
    cases hadmits : now.tryConsume <;>
      simp [Human.standing, Human.Standing.next, Received.refused, hadmits]

lemma Inv.standing (h : Inv cfg s) (hlag : ∀ n, .lagged n ∉ s.received) (hnext : s.next = s.channel.history.length)
    (hx : s.exchanges[i]? = some x) (hdue : x.due = []) (hheld : x.held = false) :
    Human.standing (cfg.idText i) s.received =
      if cfg.idText i ∈ s.received.filterMap Received.refused then .skipped else .completed := by
  have hreceived := h.unlagged hlag
  rw [hnext, List.take_length] at hreceived
  rw [standing_about _ hlag]
  simp only [refused_about _ s.received]
  obtain ⟨logged, bytes, heq, hserved, hfailed⟩ := events_eq cfg x i
  have htrail := h.trails i x hx
  rw [hdue, List.map_nil, List.append_nil, heq] at htrail
  obtain ⟨count, rfl⟩ : ∃ count, bytes = some count := by
    by_cases hs : x.arrival.Served cfg
    · obtain ⟨reply, _, _, hbytes⟩ := hserved hs
      exact ⟨_, by rw [hbytes, hheld]; rfl⟩
    · exact ⟨0, hfailed hs⟩
  have hshape : (trail (cfg.idText i) s.channel.history).map untimed =
      .request (cfg.idText i) (requestData (x.arrival.request cfg)) ::
        (((logged.map (fun a => (a.1, headersMap a.2))).map
          (fun a => LogEvent.response (cfg.idText i) a.1 a.2 0)).toList ++
          [.complete (cfg.idText i) count 0]) := by
    rw [htrail]
    cases logged <;> rfl
  exact standing_over (map_about _ hreceived) hshape

theorem lines_truthful {acts : List Act} (hinj : Function.Injective cfg.idText)
    (h : run (step cfg) init acts = some s) : Truthful cfg s := by
  have hinv := inv_run hinj h
  refine ⟨hinv.lines, fun hrunning hlag hnext i x hx hdue hheld => ?_⟩
  have hunique : ((Human.heard s.received).filterMap Received.requested).Nodup :=
    hinv.requested.sublist ((Human.prefix_heard s.received).sublist.filterMap _)
  have hcut : ∀ request ∈ (Human.heard s.received).filterMap Received.admitted, Human.Cuttable request.2 := by
    by_contra hcut
    have hbroken := (Human.broken_run (b := cfg.build) hunique hcut).phase
    rw [← hinv.human, hrunning] at hbroken
    cases hbroken
  have hkeeps : Human.Keeps (Human.run cfg.build s.received) (Human.Ledger.run s.received) := Human.keeps_run hcut
  have hopen : s.received.any Received.ends = false := by
    have hphase := hkeeps.phase
    rw [← hinv.human, hrunning, Human.Ledger.closed_run] at hphase
    by_contra hends
    rw [Bool.not_eq_false] at hends
    simp [hends] at hphase
  have hbooks : Human.Books cfg.build (Human.heard s.received) (Human.run cfg.build s.received) :=
    hkeeps.books (Human.sound_run hunique)
  have hcount := hbooks.completed (cfg.idText i)
  rw [← hinv.human, Human.heard_open hopen, hinv.standing hlag hnext hx hdue hheld] at hcount
  rw [hcount]
  split <;> rfl

def routeConfig : Config Unit := ⟨bareWorld, ⟨[], true⟩, .bare, fun n => List.replicate n 'x'⟩

def script : Arrival := ⟨none, { getRoot with uri := { getRoot.uri with path := datastarJsPath } }, failing⟩

/-- The events of two requests are mixed; one is sent, the other fails. -/
def mixedRun : List Act :=
  let now := Human.moment true
  [.arrive script, .arrive ⟨none, getRoot, failing⟩, .emit 1 0, .emit 0 0, .receive now, .receive now, .emit 1 3,
    .emit 0 2, .receive now, .receive now, .poll 0 (.frame (.data [1, 2, 3])), .dropBody 0, .dropBody 1, .emit 0 5,
    .receive now]

theorem lines_truthful_mixed : ∃ s, run (step routeConfig) init mixedRun = some s ∧
    Human.told s.human.zone.out =
      [.active ['x'], .active ['x'], .active [], .completes ['x'], .active [], .active [],
      .completes []] ∧ Truthful routeConfig s := by
  obtain ⟨s, hs⟩ := Option.isSome_iff_exists.mp
    (rfl : (run (step routeConfig) init mixedRun).isSome = true)
  have htold : (run (step routeConfig) init mixedRun).map (fun s => Human.told s.human.zone.out) =
      some [.active ['x'], .active ['x'], .active [], .completes ['x'], .active [], .active [], .completes []] :=
        rfl
  rw [hs] at htold
  have hinj : Function.Injective routeConfig.idText :=
    fun m n h => by simpa [routeConfig] using congrArg List.length h
  exact ⟨s, hs, Option.some.inj htold, lines_truthful hinj hs⟩

end HttpNu.Handler.LogTrail
