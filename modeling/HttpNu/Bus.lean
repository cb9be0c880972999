import HttpNu.Library.Broadcast
import HttpNu.Library.Channel
import HttpNu.Library.Runs
import HttpNu.Value

/-! The in-process bus, its glob patterns and the streams of `.bus sub`. -/

namespace HttpNu.Bus

open Text Library

structure BusEvent where
  topic : Str
  value : Value

inductive GlobPart where
  | literal (lit : Str)
  | star
  deriving DecidableEq

abbrev GlobMatcher := List GlobPart

def pushLiteral (parts : List GlobPart) (buf : Str) : List GlobPart :=
  if buf = [] then parts else parts ++ [.literal buf]

def pushStar (parts : List GlobPart) : List GlobPart :=
  if parts.getLast? = some .star then parts else parts ++ [.star]

def globParts : Str → List GlobPart → Str → List GlobPart
  | [], parts, buf => pushLiteral parts buf
  | ch :: rest, parts, buf =>
    if ch = '*' then globParts rest (pushStar (pushLiteral parts buf)) []
    else globParts rest parts (buf ++ [ch])

def GlobMatcher.new (pattern : Str) : GlobMatcher := globParts pattern [] []

def stripPrefix : Str → Str → Option Str
  | [], s => some s
  | c :: lit, d :: s => if c = d then stripPrefix lit s else none
  | _ :: _, [] => none

def matchParts : List GlobPart → Str → Bool
  | [], s => s.isEmpty
  | .literal lit :: rest, s =>
    match stripPrefix lit s with
    | some remainder => matchParts rest remainder
    | none => false
  | .star :: rest, s =>
    rest.isEmpty || s.tails.dropLast.any (fun suffix => matchParts rest suffix) || matchParts rest []

def matchesTopic (matcher : Option GlobMatcher) (topic : Str) : Bool :=
  match matcher with
  | none => true
  | some m => matchParts m topic

example : matchParts (GlobMatcher.new "a.*".toList) "a.b.c".toList = true ∧
    matchParts (GlobMatcher.new "a.*".toList) "a".toList = false := by decide

inductive Cause where
  | noRuntime
  | lagged
  | closed
  | streamDropped
  deriving DecidableEq

inductive Thread where
  | starting
  | forwarding
  | ended (cause : Cause)
  deriving DecidableEq

/-- What the iterator of the stream returned: a record, or `None` for one of two reasons. -/
inductive Next where
  | record (rec : Value)
  | interrupted
  | disconnected

structure Subscription where
  /-- how much had been published when it was made -/
  start : Nat
  matcher : Option GlobMatcher
  next : Nat
  thread : Thread
  queue : Mpsc BusEvent
  checked : Bool
  outputs : List Next
  dropped : Bool

structure State where
  bus : Broadcast BusEvent
  subs : List Subscription
  interrupted : Bool

inductive Act where
  | publish (ev : BusEvent)
  | subscribe (pattern : Option Str)
  | spawn (i : Nat) (runtime : Bool)
  | forward (i : Nat)
  | look (i : Nat)
  | poll (i : Nat)
  | dropStream (i : Nat)
  | signal (interrupted : Bool)
  | dropBus

/-- The ring buffer of the channel has the next power of two of places. -/
def ringSize (capacity : Nat) : Nat := if capacity ≤ 1 then 1 else 2 ^ (Nat.log2 (capacity - 1) + 1)

def init (capacity : Nat) : State := ⟨.new (ringSize capacity), [], false⟩

def eventRecord (ev : BusEvent) : Value :=
  .record [("topic".toList, .string ev.topic), ("value".toList, ev.value)]

namespace Subscription

def endThread (sub : Subscription) (cause : Cause) : Subscription :=
  { sub with thread := .ended cause, queue := sub.queue.close }

def spawn (sub : Subscription) (runtime : Bool) : Option Subscription :=
  match sub.thread with
  | .starting => some (if runtime then { sub with thread := .forwarding } else sub.endThread .noRuntime)
  | _ => none

/-- One round of `BusSubscription::recv`, and the send of the event it returns. -/
def forward (bus : Broadcast BusEvent) (sub : Subscription) : Option Subscription :=
  match sub.thread with
  | .forwarding =>
    match bus.recv sub.next with
    | (.item ev, next) =>
      if matchesTopic sub.matcher ev.topic then
        if sub.dropped then some ({ sub with next := next }.endThread .streamDropped)
        else some { sub with next := next, queue := sub.queue.send ev }
      else some { sub with next := next }
    | (.lagged _, _) => some (sub.endThread .lagged)
    | (.closed, _) => some (sub.endThread .closed)
    | (.empty, _) => none
  | _ => none

def output (sub : Subscription) (next : Next) : Subscription :=
  { sub with checked := false, outputs := sub.outputs ++ [next] }

def look (interrupted : Bool) (sub : Subscription) : Option Subscription :=
  if sub.dropped || sub.checked then none
  else if interrupted then some (sub.output .interrupted)
  else some { sub with checked := true }

/-- The iterator waits at the queue; a timeout takes it back to its check. -/
def poll (sub : Subscription) : Option Subscription :=
  if sub.dropped || !sub.checked then none
  else
    match sub.queue.recv with
    | (.item ev, queue) => some ({ sub with queue := queue }.output (.record (eventRecord ev)))
    | (.empty, _) => some { sub with checked := false }
    | (.disconnected, _) => some (sub.output .disconnected)

end Subscription

def State.modify (s : State) (i : Nat) (f : Subscription → Option Subscription) : Option State :=
  match s.subs[i]? with
  | some sub => (f sub).map (fun sub' => { s with subs := s.subs.set i sub' })
  | none => none

def step (s : State) : Act → Option State
  | .publish ev => if s.bus.closed then none else some { s with bus := s.bus.send ev }
  | .subscribe pattern =>
    if s.bus.closed then none
    else
      some { s with
        subs := s.subs ++ [⟨s.bus.history.length, pattern.map GlobMatcher.new, s.bus.history.length, .starting,
          .new, false, [], false⟩] }
  | .spawn i runtime => s.modify i (fun sub => sub.spawn runtime)
  | .forward i => s.modify i (Subscription.forward s.bus)
  | .look i => s.modify i (Subscription.look s.interrupted)
  | .poll i => s.modify i Subscription.poll
  | .dropStream i => s.modify i (fun sub => some { sub with dropped := true })
  | .signal interrupted => some { s with interrupted := interrupted }
  | .dropBus => some { s with bus := s.bus.close }

namespace Subscription

def yielded (sub : Subscription) : List Value :=
  sub.outputs.filterMap (fun next => match next with | .record rec => some rec | _ => none)

def matching (sub : Subscription) (evs : List BusEvent) : List BusEvent :=
  evs.filter (fun ev => matchesTopic sub.matcher ev.topic)

structure Inv (bus : Broadcast BusEvent) (sub : Subscription) : Prop where
  start_le : sub.start ≤ sub.next
  next_le : sub.next ≤ bus.history.length
  queued : ∃ upto, sub.start ≤ upto ∧ upto ≤ sub.next ∧
    sub.queue.sent = sub.matching (bus.between sub.start upto) ∧
    (sub.thread ≠ .ended .streamDropped → upto = sub.next)
  yielded : sub.yielded = sub.queue.received.map eventRecord
  starting : sub.thread = .starting → sub.next = sub.start
  closed : sub.queue.closed = true ↔ ∃ cause, sub.thread = .ended cause
  noRuntime : sub.thread = .ended .noRuntime → sub.next = sub.start
  lagged : sub.thread = .ended .lagged → sub.next + bus.capacity < bus.history.length
  busClosed : sub.thread = .ended .closed → bus.closed = true ∧ bus.history.length ≤ sub.next
  disconnected : .disconnected ∈ sub.outputs →
    sub.queue.closed = true ∧ sub.queue.received = sub.queue.sent ∧ sub.thread ≠ .ended .streamDropped
  dropped : sub.thread = .ended .streamDropped → sub.dropped = true

variable {bus : Broadcast BusEvent} {sub sub' : Subscription}

lemma inv_new (matcher : Option GlobMatcher) :
    Inv bus ⟨bus.history.length, matcher, bus.history.length, .starting, .new, false, [], false⟩ where
  start_le := le_rfl
  next_le := le_rfl
  queued := ⟨_, le_rfl, le_rfl, by simp [matching, Broadcast.between_self, Mpsc.new], fun _ => rfl⟩
  yielded := rfl
  starting _ := rfl
  closed := by simp [Mpsc.new]
  noRuntime h := by simp at h
  lagged h := by simp at h
  busClosed h := by simp at h
  disconnected h := by simp at h
  dropped h := by simp at h

lemma inv_publish (h : Inv bus sub) (hopen : bus.closed = false) (ev : BusEvent) : Inv (bus.send ev) sub where
  start_le := h.start_le
  next_le := by
    have := h.next_le
    simp only [Broadcast.history_send, List.length_append]
    omega
  queued := by
    obtain ⟨upto, hs, hn, hq, ht⟩ := h.queued
    exact ⟨upto, hs, hn, by rw [hq, Broadcast.between_send hs (hn.trans h.next_le)], ht⟩
  yielded := h.yielded
  starting := h.starting
  closed := h.closed
  noRuntime := h.noRuntime
  lagged ht := by
    have := h.lagged ht
    simp only [Broadcast.history_send, List.length_append, Broadcast.capacity_send]
    omega
  busClosed ht := absurd (h.busClosed ht).1 (by simp [hopen])
  disconnected := h.disconnected
  dropped := h.dropped

lemma inv_dropBus (h : Inv bus sub) : Inv bus.close sub :=
  ⟨h.start_le, h.next_le, h.queued, h.yielded, h.starting, h.closed, h.noRuntime, h.lagged,
    fun ht => ⟨rfl, (h.busClosed ht).2⟩, h.disconnected, h.dropped⟩

lemma closed_endThread (cause : Cause) :
    (sub.endThread cause).queue.closed = true ↔ ∃ c, (sub.endThread cause).thread = .ended c :=
  ⟨fun _ => ⟨cause, rfl⟩, fun _ => rfl⟩

lemma inv_spawn {runtime : Bool} (h : Inv bus sub) (hs : sub.spawn runtime = some sub') : Inv bus sub' := by
  simp only [spawn] at hs
  split at hs
  · rename_i ht
    have hclosed : sub.queue.closed ≠ true := by
      intro hc
      obtain ⟨cause, he⟩ := h.closed.mp hc
      simp [ht] at he
    have hdisc : .disconnected ∉ sub.outputs := fun hd => hclosed (h.disconnected hd).1
    obtain ⟨upto, hs₁, hu, hq, htu⟩ := h.queued
    obtain rfl := Option.some.inj hs
    cases runtime with
    | true =>
      exact ⟨h.start_le, h.next_le, ⟨upto, hs₁, hu, hq, fun _ => htu (by simp [ht])⟩, h.yielded, by simp,
        by simpa using hclosed, by simp, by simp, by simp, fun hd => absurd hd hdisc, by simp⟩
    | false =>
      exact ⟨h.start_le, h.next_le, ⟨upto, hs₁, hu, hq, fun _ => htu (by simp [ht])⟩, h.yielded,
        by simp [endThread], closed_endThread _, fun _ => h.starting ht, by simp [endThread],
        by simp [endThread], fun hd => absurd hd hdisc, by simp [endThread]⟩
  · simp at hs

lemma inv_forward (h : Inv bus sub) (hs : sub.forward bus = some sub') : Inv bus sub' := by
  simp only [forward] at hs
  split at hs
  swap
  · simp at hs
  rename_i ht
  have hclosed : sub.queue.closed ≠ true := by
    intro hc
    obtain ⟨cause, he⟩ := h.closed.mp hc
    simp [ht] at he
  have hdisc : .disconnected ∉ sub.outputs := fun hd => hclosed (h.disconnected hd).1
  obtain ⟨upto, hs₁, hu, hq, htu⟩ := h.queued
  obtain rfl := htu (by simp [ht])
  split at hs
  · rename_i ev next hrecv
    obtain ⟨rfl, hget⟩ := Broadcast.recv_item hrecv
    have hlt := (List.getElem?_eq_some_iff.mp hget).1
    have hle := h.start_le
    have hsucc := Broadcast.between_succ hle hget
    split at hs
    · rename_i hm
      split at hs
      · obtain rfl := Option.some.inj hs
        exact ⟨Nat.le_succ_of_le hle, hlt, ⟨sub.next, hle, by simp [endThread], hq, by simp [endThread]⟩,
          h.yielded, by simp [endThread], closed_endThread _, by simp [endThread], by simp [endThread],
          by simp [endThread], fun hd => absurd hd hdisc, fun _ => by assumption⟩
      · obtain rfl := Option.some.inj hs
        refine ⟨Nat.le_succ_of_le hle, hlt, ⟨sub.next + 1, Nat.le_succ_of_le hle, le_rfl, ?_, fun _ => rfl⟩,
          by simpa using! h.yielded, by simp [ht], by simpa [ht] using hclosed, by simp [ht], by simp [ht],
          by simp [ht], fun hd => absurd hd hdisc, by simp [ht]⟩
        simp only [Mpsc.sent_send, hq, hsucc, matching, List.filter_append]
        simp [hm]
    · rename_i hm
      obtain rfl := Option.some.inj hs
      refine ⟨Nat.le_succ_of_le hle, hlt, ⟨sub.next + 1, Nat.le_succ_of_le hle, le_rfl, ?_, fun _ => rfl⟩,
        h.yielded, by simp [ht], by simpa [ht] using hclosed, by simp [ht], by simp [ht], by simp [ht],
        fun hd => absurd hd hdisc, by simp [ht]⟩
      simp only [hq, hsucc, matching, List.filter_append]
      simp [hm]
  · rename_i missed next hrecv
    obtain rfl := Option.some.inj hs
    exact ⟨h.start_le, h.next_le, ⟨sub.next, h.start_le, le_rfl, hq, fun _ => rfl⟩, h.yielded,
      by simp [endThread], closed_endThread _, by simp [endThread], fun _ => Broadcast.recv_lagged hrecv,
      by simp [endThread], fun hd => absurd hd hdisc, by simp [endThread]⟩
  · rename_i next hrecv
    obtain rfl := Option.some.inj hs
    exact ⟨h.start_le, h.next_le, ⟨sub.next, h.start_le, le_rfl, hq, fun _ => rfl⟩, h.yielded,
      by simp [endThread], closed_endThread _, by simp [endThread], by simp [endThread],
      fun _ => Broadcast.recv_closed hrecv, fun hd => absurd hd hdisc, by simp [endThread]⟩
  · simp at hs

lemma yielded_output (sub : Subscription) (next : Next) :
    (sub.output next).yielded = sub.yielded ++ (match next with | .record rec => [rec] | _ => []) := by
  cases next <;> simp [yielded, output]

lemma inv_look {interrupted : Bool} (h : Inv bus sub) (hs : sub.look interrupted = some sub') : Inv bus sub' := by
  simp only [look] at hs
  split at hs
  · simp at hs
  · split at hs
    · obtain rfl := Option.some.inj hs
      refine ⟨h.start_le, h.next_le, h.queued, ?_, h.starting, h.closed, h.noRuntime, h.lagged, h.busClosed,
        fun hd => h.disconnected ?_, h.dropped⟩
      · rw [yielded_output, List.append_nil]
        exact h.yielded
      · simpa [output] using hd
    · obtain rfl := Option.some.inj hs
      exact ⟨h.start_le, h.next_le, h.queued, h.yielded, h.starting, h.closed, h.noRuntime, h.lagged,
        h.busClosed, h.disconnected, h.dropped⟩

lemma inv_poll (h : Inv bus sub) (hs : sub.poll = some sub') : Inv bus sub' := by
  simp only [poll] at hs
  split at hs
  · simp at hs
  rename_i hready
  split at hs
  · rename_i ev queue hrecv
    obtain rfl := Option.some.inj hs
    obtain ⟨hsent, hclosed, hgot⟩ := Mpsc.recv_item hrecv
    obtain ⟨upto, hs₁, hu, hq, htu⟩ := h.queued
    refine ⟨h.start_le, h.next_le, ⟨upto, hs₁, hu, hsent.trans hq, htu⟩, ?_, h.starting,
      by simpa only [output, hclosed] using h.closed, h.noRuntime, h.lagged, h.busClosed, fun hd => ?_, h.dropped⟩
    · rw [yielded_output]
      simp only [output, hgot, List.map_append]
      rw [← h.yielded]
      rfl
    -- once the queue was found at its end it holds nothing more
    · obtain ⟨_, hall, _⟩ := h.disconnected (by simpa [output] using hd)
      have hle := queue.received_prefix.length_le
      rw [hgot, hsent, hall] at hle
      simp at hle
  · obtain rfl := Option.some.inj hs
    exact ⟨h.start_le, h.next_le, h.queued, h.yielded, h.starting, h.closed, h.noRuntime, h.lagged,
      h.busClosed, h.disconnected, h.dropped⟩
  · rename_i queue hrecv
    obtain rfl := Option.some.inj hs
    obtain ⟨_, hclosed, hgot⟩ := Mpsc.recv_disconnected hrecv
    refine ⟨h.start_le, h.next_le, h.queued, ?_, h.starting, h.closed, h.noRuntime, h.lagged, h.busClosed,
      fun _ => ⟨hclosed, hgot, fun ht => ?_⟩, h.dropped⟩
    · rw [yielded_output, List.append_nil]
      exact h.yielded
    · simp [h.dropped ht] at hready

end Subscription

def Inv (s : State) : Prop := ∀ sub ∈ s.subs, Subscription.Inv s.bus sub

variable {s s' : State}

lemma modify_some {i : Nat} {f : Subscription → Option Subscription} (hs : s.modify i f = some s') :
    ∃ sub sub', sub ∈ s.subs ∧ f sub = some sub' ∧ s' = { s with subs := s.subs.set i sub' } := by
  simp only [State.modify] at hs
  split at hs
  · rename_i sub hget
    obtain ⟨sub', hf, rfl⟩ := Option.map_eq_some_iff.mp hs
    exact ⟨sub, sub', List.mem_of_getElem? hget, hf, rfl⟩
  · simp at hs

lemma inv_modify {i : Nat} {f : Subscription → Option Subscription} (h : Inv s)
    (hf : ∀ sub sub', Subscription.Inv s.bus sub → f sub = some sub' → Subscription.Inv s.bus sub')
    (hs : s.modify i f = some s') : Inv s' := by
  obtain ⟨sub, sub', hsub, hsub', rfl⟩ := modify_some hs
  intro t ht
  rcases List.mem_or_eq_of_mem_set ht with ht | rfl
  · exact h t ht
  · exact hf sub t (h sub hsub) hsub'

lemma inv_step (s : State) (a : Act) (s' : State) (h : Inv s) (hs : step s a = some s') : Inv s' := by
  cases a with
  | publish ev =>
    simp only [step] at hs
    split at hs
    · simp at hs
    · rename_i hopen
      obtain rfl := Option.some.inj hs
      exact fun sub hsub => Subscription.inv_publish (h sub hsub) (by simpa using hopen) ev
  | subscribe pattern =>
    simp only [step] at hs
    split at hs
    · simp at hs
    · obtain rfl := Option.some.inj hs
      intro sub hsub
      rcases List.mem_append.mp hsub with hsub | hsub
      · exact h sub hsub
      · obtain rfl := List.mem_singleton.mp hsub
        exact Subscription.inv_new _
  | spawn i runtime => exact inv_modify h (fun _ _ hi => Subscription.inv_spawn hi) hs
  | forward i => exact inv_modify h (fun _ _ hi => Subscription.inv_forward hi) hs
  | look i => exact inv_modify h (fun _ _ hi => Subscription.inv_look hi) hs
  | poll i => exact inv_modify h (fun _ _ hi => Subscription.inv_poll hi) hs
  | dropStream i =>
    refine inv_modify h (fun sub sub' hi hd => ?_) hs
    obtain rfl := Option.some.inj hd
    exact ⟨hi.start_le, hi.next_le, hi.queued, hi.yielded, hi.starting, hi.closed, hi.noRuntime, hi.lagged,
      hi.busClosed, hi.disconnected, fun _ => rfl⟩
  | signal interrupted =>
    obtain rfl := Option.some.inj hs
    exact h
  | dropBus =>
    obtain rfl := Option.some.inj hs
    exact fun sub hsub => Subscription.inv_dropBus (h sub hsub)

lemma inv_run {capacity : Nat} {acts : List Act} (h : run step (init capacity) acts = some s) : Inv s :=
  run_invariant inv_step (by simp [Inv, init]) h

def State.since (s : State) (sub : Subscription) : List BusEvent := s.bus.history.drop sub.start

namespace Subscription

variable {sub : Subscription}

lemma Inv.sent_prefix {bus : Broadcast BusEvent} (h : Inv bus sub) :
    sub.queue.sent <+: sub.matching (bus.history.drop sub.start) := by
  obtain ⟨upto, _, _, hq, _⟩ := h.queued
  exact hq ▸ (bus.between_prefix sub.start upto).filter _

lemma Inv.sent_eq {bus : Broadcast BusEvent} (h : Inv bus sub) (ht : sub.thread ≠ .ended .streamDropped) :
    sub.queue.sent = sub.matching (bus.between sub.start sub.next) := by
  obtain ⟨upto, _, _, hq, hu⟩ := h.queued
  rw [hq, hu ht]

lemma Inv.yielded_prefix {bus : Broadcast BusEvent} (h : Inv bus sub) :
    sub.yielded <+: sub.queue.sent.map eventRecord :=
  h.yielded ▸ sub.queue.received_prefix.map eventRecord

end Subscription

def sample : BusEvent := ⟨"t".toList, .nothing⟩

end HttpNu.Bus
