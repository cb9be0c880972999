import HttpNu.Bus
import HttpNu.Commands.SseDecode
import HttpNu.Handler.BodyClient

/-! Live event streams: a handler that ends in `.bus sub`, a closure for each event and `to sse`, up to its
client. -/

namespace HttpNu.Handler.LiveEvents

open Text Library Response Commands.Sse
open Library.EventStream (Block)

structure Config where
  R : Rendering
  shape : Value → Value
  index : Nat
  enc : Encoder
  useBrotli : Bool

inductive End where
  | returned
  | failed
  | interrupted
  | hungUp
  deriving DecidableEq

/-- The thread reads what is left of an event's text, or waits with a chunk of it for room in the channel. -/
inductive Thread where
  | reading (rest : Bytes)
  | sending (chunk rest : Bytes)
  | ended (cause : End)
  deriving DecidableEq

structure State where
  bus : Bus.State
  thread : Thread
  body : StreamBody.State
  hungUp : Bool

inductive Act where
  | bus (act : Bus.Act)
  | look
  | poll
  | read
  | interrupt
  | send
  | body (act : StreamBody.Act)
  | hangUp

def bufferSize : Nat := 8192

def ofStream (i : Nat) : Bus.Act → Bool
  | .look j => j = i
  | .poll j => j = i
  | .dropStream j => j = i
  | _ => false

def ofClient : StreamBody.Act → Bool
  | .send _ => false
  | .close => false
  | _ => true

variable (cfg : Config)

def init (capacity : Nat) : State := ⟨Bus.init capacity, .reading [], StreamBody.init cfg.useBrotli, false⟩

def returned (bus : Bus.State) (i : Nat) : List Bus.Next := (bus.subs[i]?).elim [] Bus.Subscription.outputs

def State.outputs (s : State) : List Bus.Next := returned s.bus cfg.index

def State.finish (s : State) (cause : End) : State :=
  { s with
    bus := (Bus.step s.bus (.dropStream cfg.index)).getD s.bus
    thread := .ended cause
    body := { s.body with rx := s.body.rx.close } }

def State.take (s : State) : Option Bus.Next → State
  | some (.record v) =>
    match eventToString cfg.R (cfg.shape v) with
    | .ok out => { s with thread := .reading (utf8 out) }
    | .error _ => s.finish cfg .failed
  | some _ => s.finish cfg .returned
  | none => s

def State.next (s : State) (act : Bus.Act) : Option State :=
  (Bus.step s.bus act).map fun bus =>
    ({ s with bus := bus } : State).take cfg (returned bus cfg.index)[(s.outputs cfg).length]?

def step (s : State) : Act → Option State
  | .bus act =>
    if ofStream cfg.index act then none else (Bus.step s.bus act).map fun bus => { s with bus := bus }
  | .look =>
    match s.thread with
    | .reading [] => s.next cfg (.look cfg.index)
    | _ => none
  | .poll =>
    match s.thread with
    | .reading [] => s.next cfg (.poll cfg.index)
    | _ => none
  | .read =>
    match s.thread with
    | .reading (b :: rest) =>
      if s.bus.interrupted then none
      else some { s with thread := .sending ((b :: rest).take bufferSize) ((b :: rest).drop bufferSize) }
    | _ => none
  | .interrupt =>
    match s.thread with
    | .reading _ => if s.bus.interrupted then some (s.finish cfg .interrupted) else none
    | _ => none
  | .send =>
    match s.thread with
    | .sending chunk rest =>
      -- the receiver is gone with the connection, and with the error that a cancelled body ends in
      if s.hungUp || !s.body.live then some (s.finish cfg .hungUp)
      else
        (StreamBody.step cfg.enc true s.body (.send chunk)).map fun body =>
          { s with thread := .reading rest, body := body }
    | _ => none
  | .body act =>
    if s.hungUp || !(ofClient act) then none
    else (StreamBody.step cfg.enc true s.body act).map fun body => { s with body := body }
  | .hangUp => some { s with hungUp := true }

def value? : Bus.Next → Option Value
  | .record v => some v
  | _ => none

def State.yielded (s : State) : List Value := (s.outputs cfg).filterMap value?

def eventBytes (v : Value) : Bytes :=
  match eventToString cfg.R (cfg.shape v) with
  | .ok out => utf8 out
  | .error _ => []

def State.text (s : State) : Bytes := (s.yielded cfg).flatMap (eventBytes cfg)

/-- What a client that has read this much has dispatched. -/
def State.dispatched (unpack : Bytes → Bytes) (s : State) : List Block :=
  EventStream.decode (fromUtf8Lossy (s.body.delivered unpack))

def recordOf : Value → Record
  | .record rec => rec
  | _ => []

/-- The subscription's events so far: what it matches of everything published since it was made. -/
def State.events (s : State) (sub : Bus.Subscription) : List Bus.BusEvent := sub.matching (s.bus.since sub)

def eventText (ev : Bus.BusEvent) : Str :=
  (pieces cfg.R (recordOf (cfg.shape (Bus.eventRecord ev))) ++ [[]]).flatMap (· ++ ['\n'])

def eventBlock (ev : Bus.BusEvent) : Block := blockOf cfg.R (recordOf (cfg.shape (Bus.eventRecord ev)))

/-- The closure makes a record of the event, and nothing in it ends a line of the event stream. -/
def Streamable (ev : Bus.BusEvent) : Prop :=
  ∃ rec, cfg.shape (Bus.eventRecord ev) = .record rec ∧
    dataStrings cfg.R rec = .ok (dataOf cfg.R rec) ∧ Plain cfg.R rec

/-- How much of the text of the stream's events the thread has sent. -/
def State.Sent (s : State) : Prop :=
  match s.thread with
  | .reading rest => s.body.rx.sent.flatten ++ rest = s.text cfg
  | .sending chunk rest => s.body.rx.sent.flatten ++ (chunk ++ rest) = s.text cfg
  | .ended cause => s.body.rx.sent.flatten <+: s.text cfg ∧
      (cause = .returned → s.body.rx.sent.flatten = s.text cfg ∧
        (.disconnected ∈ s.outputs cfg ∨ .interrupted ∈ s.outputs cfg))

structure Inv (s : State) : Prop where
  bus : Bus.Inv s.bus
  body : StreamBody.Inv cfg.enc true s.body
  sent : s.Sent cfg
  closed : s.body.rx.closed = true → ∃ cause, s.thread = .ended cause

variable {cfg} {s s' : State}

lemma returned_eq {bus : Bus.State} {i : Nat} {sub : Bus.Subscription} (h : bus.subs[i]? = some sub) :
    returned bus i = sub.outputs := by
  rw [returned, h]
  rfl

lemma returned_set {bus : Bus.State} {i : Nat} {sub : Bus.Subscription} (h : bus.subs[i]? = some sub)
    (sub' : Bus.Subscription) : returned { bus with subs := bus.subs.set i sub' } i = sub'.outputs := by
  apply returned_eq
  rw [List.getElem?_set_self (List.getElem?_eq_some_iff.mp h).1]

lemma returned_modify {bus bus' : Bus.State} {i j : Nat} {f : Bus.Subscription → Option Bus.Subscription}
    (hs : bus.modify j f = some bus') (hf : j = i → ∀ sub sub', f sub = some sub' → sub'.outputs = sub.outputs) :
    returned bus' i = returned bus i := by
  simp only [Bus.State.modify] at hs
  split at hs
  · rename_i sub hget
    obtain ⟨sub', hsub', rfl⟩ := Option.map_eq_some_iff.mp hs
    by_cases hij : j = i
    · subst j
      rw [returned_set hget, returned_eq hget, hf rfl sub sub' hsub']
    · simp [returned, hij]
  · simp at hs

lemma returned_other {bus bus' : Bus.State} {i : Nat} {a : Bus.Act} (hlook : a ≠ .look i) (hpoll : a ≠ .poll i)
    (hs : Bus.step bus a = some bus') : returned bus' i = returned bus i := by
  cases a with
  | publish ev =>
    simp only [Bus.step] at hs
    split at hs
    · simp at hs
    · obtain rfl := Option.some.inj hs
      rfl
  | subscribe pattern =>
    simp only [Bus.step] at hs
    split at hs
    · simp at hs
    · obtain rfl := Option.some.inj hs
      rcases Nat.lt_trichotomy i bus.subs.length with hlt | rfl | hgt
      · simp [returned, List.getElem?_append_left hlt]
      · simp [returned]
      · simp [returned, hgt, hgt.le]
  | spawn j runtime =>
    refine returned_modify hs (fun _ sub sub' h => ?_)
    simp only [Bus.Subscription.spawn] at h
    split at h
    · obtain rfl := Option.some.inj h
      cases runtime <;> rfl
    · simp at h
  | forward j =>
    refine returned_modify hs (fun _ sub sub' h => ?_)
    simp only [Bus.Subscription.forward] at h
    repeat' split at h
    all_goals first
      | (obtain rfl := Option.some.inj h; rfl)
      | simp at h
  | look j =>
    refine returned_modify hs (fun hij => absurd (hij ▸ rfl) hlook)
  | poll j =>
    refine returned_modify hs (fun hij => absurd (hij ▸ rfl) hpoll)
  | dropStream j =>
    refine returned_modify hs (fun _ sub sub' h => ?_)
    obtain rfl := Option.some.inj h
    rfl
  | signal interrupted =>
    obtain rfl := Option.some.inj hs
    rfl
  | dropBus =>
    obtain rfl := Option.some.inj hs
    rfl

lemma returned_read {bus bus' : Bus.State} {i : Nat} {a : Bus.Act} (ha : a = .look i ∨ a = .poll i)
    (hs : Bus.step bus a = some bus') :
    returned bus' i = returned bus i ∨ ∃ next, returned bus' i = returned bus i ++ [next] := by
  have hmodify : ∀ f : Bus.Subscription → Option Bus.Subscription,
      (∀ sub sub', f sub = some sub' → sub'.outputs = sub.outputs ∨ ∃ next, sub'.outputs = sub.outputs ++ [next]) →
      bus.modify i f = some bus' →
      returned bus' i = returned bus i ∨ ∃ next, returned bus' i = returned bus i ++ [next] := by
    intro f hf hs
    simp only [Bus.State.modify] at hs
    split at hs
    · rename_i sub hget
      obtain ⟨sub', hsub', rfl⟩ := Option.map_eq_some_iff.mp hs
      rw [returned_set hget, returned_eq hget]
      exact hf sub sub' hsub'
    · simp at hs
  rcases ha with rfl | rfl
  · refine hmodify _ (fun sub sub' h => ?_) hs
    simp only [Bus.Subscription.look] at h
    repeat' split at h
    all_goals first
      | (obtain rfl := Option.some.inj h; exact Or.inl rfl)
      | (obtain rfl := Option.some.inj h; exact Or.inr ⟨_, rfl⟩)
      | simp at h
  · refine hmodify _ (fun sub sub' h => ?_) hs
    simp only [Bus.Subscription.poll] at h
    repeat' split at h
    all_goals first
      | (obtain rfl := Option.some.inj h; exact Or.inl rfl)
      | (obtain rfl := Option.some.inj h; exact Or.inr ⟨_, rfl⟩)
      | simp at h

lemma dropped_bus (bus : Bus.State) (i : Nat) (h : Bus.Inv bus) :
    Bus.Inv ((Bus.step bus (.dropStream i)).getD bus) ∧
      returned ((Bus.step bus (.dropStream i)).getD bus) i = returned bus i := by
  cases hs : Bus.step bus (.dropStream i) with
  | none => exact ⟨h, rfl⟩
  | some bus' => exact ⟨Bus.inv_step _ _ _ h hs, returned_other (by simp) (by simp) hs⟩

lemma State.Sent.isPrefix (h : s.Sent cfg) : s.body.rx.sent.flatten <+: s.text cfg := by
  rw [State.Sent] at h
  split at h
  · exact ⟨_, h⟩
  · exact ⟨_, h⟩
  · exact h.1

lemma text_of_outputs (h : s'.outputs cfg = s.outputs cfg) : s'.text cfg = s.text cfg := by
  rw [State.text, State.yielded, h]
  rfl

lemma inv_finish {cause : End} (hbus : Bus.Inv s.bus) (hbody : StreamBody.Inv cfg.enc true s.body)
    (hsent : s.body.rx.sent.flatten <+: s.text cfg)
    (hreturned : cause = .returned → s.body.rx.sent.flatten = s.text cfg ∧
      (.disconnected ∈ s.outputs cfg ∨ .interrupted ∈ s.outputs cfg)) : Inv cfg (s.finish cfg cause) := by
  obtain ⟨hinv, hout⟩ := dropped_bus s.bus cfg.index hbus
  have htext : (s.finish cfg cause).text cfg = s.text cfg := text_of_outputs hout
  refine ⟨hinv, StreamBody.inv_close hbody rfl, ⟨?_, fun hc => ?_⟩, fun _ => ⟨cause, rfl⟩⟩
  · rw [htext]
    exact hsent
  · rw [htext, State.outputs, State.finish, hout]
    exact hreturned hc

lemma inv_bus {act : Bus.Act} (h : Inv cfg s) (hs : step cfg s (.bus act) = some s') : Inv cfg s' := by
  simp only [step] at hs
  split at hs
  · simp at hs
  · rename_i hother
    obtain ⟨bus, hstep, rfl⟩ := Option.map_eq_some_iff.mp hs
    have hout : returned bus cfg.index = returned s.bus cfg.index := by
      apply returned_other _ _ hstep
      · rintro rfl
        simp [ofStream] at hother
      · rintro rfl
        simp [ofStream] at hother
    have htext : ({ s with bus := bus } : State).text cfg = s.text cfg := text_of_outputs hout
    refine ⟨Bus.inv_step _ _ _ h.bus hstep, h.body, ?_, h.closed⟩
    have hsent := h.sent
    rw [State.Sent] at hsent ⊢
    rw [htext, State.outputs, hout]
    exact hsent

lemma inv_next {act : Bus.Act} (h : Inv cfg s) (hthread : s.thread = .reading [])
    (hact : act = .look cfg.index ∨ act = .poll cfg.index) (hs : s.next cfg act = some s') : Inv cfg s' := by
  obtain ⟨bus, hstep, rfl⟩ := Option.map_eq_some_iff.mp hs
  have hbus : Bus.Inv bus := Bus.inv_step _ _ _ h.bus hstep
  have hsent : s.body.rx.sent.flatten = s.text cfg := by
    have hsent := h.sent
    rw [State.Sent, hthread] at hsent
    simpa using hsent
  rcases returned_read hact hstep with hout | ⟨next, hout⟩
  · have hnone : (returned bus cfg.index)[(s.outputs cfg).length]? = none := by
      simp [State.outputs, hout]
    have htext : ({ s with bus := bus } : State).text cfg = s.text cfg := text_of_outputs hout
    rw [hnone, State.take]
    refine ⟨hbus, h.body, ?_, h.closed⟩
    simp only [State.Sent, hthread, List.append_nil]
    exact hsent.trans htext.symm
  · have hsome : (returned bus cfg.index)[(s.outputs cfg).length]? = some next := by
      simp [State.outputs, hout]
    have htext : ({ s with bus := bus } : State).text cfg =
        s.text cfg ++ (value? next).elim [] (eventBytes cfg) := by
      rw [State.text, State.text, State.yielded, State.yielded]
      simp only [State.outputs, hout, List.filterMap_append, List.flatMap_append]
      cases next <;> simp [value?]
    have hmem : next ∈ ({ s with bus := bus } : State).outputs cfg := by
      simp [State.outputs, hout]
    rw [hsome]
    cases next with
    | record v =>
      simp only [State.take]
      rw [show (value? (.record v)).elim [] (eventBytes cfg) = eventBytes cfg v from rfl, eventBytes] at htext
      split
      · rename_i out hout'
        rw [hout'] at htext
        refine ⟨hbus, h.body, ?_, fun hc => ?_⟩
        · rw [State.Sent]
          change _ = ({ s with bus := bus } : State).text cfg
          rw [htext, hsent]
        · obtain ⟨cause, hended⟩ := h.closed hc
          rw [hthread] at hended
          cases hended
      · apply inv_finish (s := { s with bus := bus }) hbus h.body
        · rw [htext, hsent]
          exact List.prefix_append _ _
        · simp
    | interrupted =>
      have htext : ({ s with bus := bus } : State).text cfg = s.text cfg := by
        rw [htext]
        exact List.append_nil _
      exact inv_finish hbus h.body (htext ▸ hsent ▸ List.prefix_rfl)
        (fun _ => ⟨hsent.trans htext.symm, Or.inr hmem⟩)
    | disconnected =>
      have htext : ({ s with bus := bus } : State).text cfg = s.text cfg := by
        rw [htext]
        exact List.append_nil _
      exact inv_finish hbus h.body (htext ▸ hsent ▸ List.prefix_rfl)
        (fun _ => ⟨hsent.trans htext.symm, Or.inl hmem⟩)

lemma Inv.open (h : Inv cfg s) (hthread : ∀ cause, s.thread ≠ .ended cause) : s.body.rx.closed = false := by
  by_contra hclosed
  obtain ⟨cause, hended⟩ := h.closed (by simpa using hclosed)
  exact hthread cause hended

lemma inv_read (h : Inv cfg s) (hs : step cfg s .read = some s') : Inv cfg s' := by
  simp only [step] at hs
  split at hs
  · rename_i b rest hthread
    split at hs
    · simp at hs
    · obtain rfl := Option.some.inj hs
      have hopen := h.open (by simp [hthread])
      refine ⟨h.bus, h.body, ?_, by simp [hopen]⟩
      have hsent := h.sent
      rw [State.Sent, hthread] at hsent
      rw [State.Sent]
      simp only [List.take_append_drop]
      exact hsent
  · simp at hs

lemma inv_interrupt (h : Inv cfg s) (hs : step cfg s .interrupt = some s') : Inv cfg s' := by
  simp only [step] at hs
  split at hs
  · split at hs
    · obtain rfl := Option.some.inj hs
      exact inv_finish h.bus h.body h.sent.isPrefix (by simp)
    · simp at hs
  · simp at hs

lemma inv_send (h : Inv cfg s) (hs : step cfg s .send = some s') : Inv cfg s' := by
  simp only [step] at hs
  split at hs
  · rename_i chunk rest hthread
    split at hs
    · obtain rfl := Option.some.inj hs
      exact inv_finish h.bus h.body h.sent.isPrefix (by simp)
    · obtain ⟨body, hstep, rfl⟩ := Option.map_eq_some_iff.mp hs
      have hinv := StreamBody.inv_send h.body hstep
      have hopen := h.open (by simp [hthread])
      simp only [StreamBody.step] at hstep
      split at hstep
      · obtain rfl := Option.some.inj hstep
        refine ⟨h.bus, hinv, ?_, fun hc => ?_⟩
        · have hsent := h.sent
          rw [State.Sent, hthread] at hsent
          rw [State.Sent]
          simp only [Mpsc.sent_send, List.flatten_append, List.flatten_singleton, List.append_assoc]
          exact hsent
        · rw [Mpsc.closed_send, hopen] at hc
          cases hc
      · simp at hstep
  · simp at hs

lemma ofClient_eq : ofClient = StreamBody.ofClient := by
  funext a
  cases a <;> rfl

variable {unpack : Bytes → Bytes} (hlaw : cfg.enc.Lawful unpack)
include hlaw

lemma inv_body {act : StreamBody.Act} (h : Inv cfg s) (hs : step cfg s (.body act) = some s') : Inv cfg s' := by
  simp only [step] at hs
  split at hs
  · simp at hs
  · rename_i hclient
    obtain ⟨body, hstep, rfl⟩ := Option.map_eq_some_iff.mp hs
    simp only [Bool.or_eq_true, Bool.not_eq_true', not_or, Bool.not_eq_true, Bool.not_eq_false] at hclient
    obtain ⟨hsent, hclosed⟩ := StreamBody.client_channel (ofClient_eq ▸ hclient.2) hstep
    refine ⟨h.bus, StreamBody.inv_step hlaw _ _ _ h.body hstep, ?_, fun hc => h.closed (hclosed ▸ hc)⟩
    have hkept := h.sent
    rw [State.Sent] at hkept ⊢
    rw [hsent]
    exact hkept

lemma inv_step (s : State) (a : Act) (s' : State) (h : Inv cfg s) (hs : step cfg s a = some s') : Inv cfg s' := by
  cases a with
  | bus act => exact inv_bus h hs
  | look =>
    simp only [step] at hs
    split at hs
    · exact inv_next h (by assumption) (Or.inl rfl) hs
    · simp at hs
  | poll =>
    simp only [step] at hs
    split at hs
    · exact inv_next h (by assumption) (Or.inr rfl) hs
    · simp at hs
  | read => exact inv_read h hs
  | interrupt => exact inv_interrupt h hs
  | send => exact inv_send h hs
  | body act => exact inv_body hlaw h hs
  | hangUp =>
    obtain rfl := Option.some.inj hs
    exact ⟨h.bus, h.body, h.sent, h.closed⟩

omit hlaw in
lemma inv_init (capacity : Nat) : Inv cfg (init cfg capacity) where
  bus sub hsub := by simp [init, Bus.init] at hsub
  body := StreamBody.inv_init cfg.useBrotli
  sent := rfl
  closed h := by simp [init, StreamBody.init, Mpsc.new] at h

lemma inv_run {capacity : Nat} {acts : List Act} (h : run (step cfg) (init cfg capacity) acts = some s) :
    Inv cfg s :=
  run_invariant (inv_step hlaw) (inv_init capacity) h

omit hlaw

lemma eventToString_streamable {ev : Bus.BusEvent} (h : Streamable cfg ev) :
    eventToString cfg.R (cfg.shape (Bus.eventRecord ev)) = .ok (eventText cfg ev) := by
  obtain ⟨rec, hshape, hdata, _⟩ := h
  rw [hshape, eventToString_ok cfg.R hdata, eventText, hshape]
  rfl

lemma eventBytes_eq {ev : Bus.BusEvent} (h : Streamable cfg ev) :
    eventBytes cfg (Bus.eventRecord ev) = utf8 (eventText cfg ev) := by
  rw [eventBytes, eventToString_streamable h]

lemma eventText_plain {ev : Bus.BusEvent} (h : Streamable cfg ev) : '\r' ∉ eventText cfg ev := by
  obtain ⟨rec, hshape, _, hplain⟩ := h
  intro hmem
  obtain ⟨line, hline, hmem⟩ := List.mem_flatMap.mp hmem
  rw [hshape] at hline
  rcases List.mem_append.mp hmem with hmem | hmem
  · rcases List.mem_append.mp hline with hline | hline
    · exact (pieces_plain cfg.R hplain line hline).2.1 hmem
    · rw [List.mem_singleton.mp hline] at hmem
      cases hmem
  · simp at hmem

lemma decode_events {evs : List Bus.BusEvent} (h : ∀ ev ∈ evs, Streamable cfg ev) :
    EventStream.decode (evs.flatMap (eventText cfg)) = evs.map (eventBlock cfg) := by
  have hrecs : ∀ rec ∈ evs.map (fun ev => recordOf (cfg.shape (Bus.eventRecord ev))),
      dataStrings cfg.R rec = .ok (dataOf cfg.R rec) ∧ Plain cfg.R rec := by
    intro rec hrec
    obtain ⟨ev, hev, rfl⟩ := List.mem_map.mp hrec
    obtain ⟨rec, hshape, hdata, hplain⟩ := h ev hev
    rw [hshape]
    exact ⟨hdata, hplain⟩
  have hcarries := Carries.list (evs.map (fun ev => recordOf (cfg.shape (Bus.eventRecord ev)))) none
  obtain ⟨output, houtput, hdecode⟩ := decode_written cfg.R hcarries (fun rec hrec => (hrecs rec hrec).1)
    (fun rec hrec => (hrecs rec hrec).2)
  obtain ⟨output', houtput', hwritten⟩ := toSse_written cfg.R hcarries (fun rec hrec => (hrecs rec hrec).1)
  obtain rfl := Except.ok.inj (houtput.symm.trans houtput')
  rw [hwritten, fromUtf8Lossy_utf8, List.flatMap_map, List.map_map, List.flatMap_assoc] at hdecode
  exact hdecode

lemma text_events (h : Inv cfg s) {sub : Bus.Subscription} (hsub : s.bus.subs[cfg.index]? = some sub)
    (hshape : ∀ ev ∈ s.bus.bus.history, Streamable cfg ev) :
    ∃ n, sub.yielded = ((s.events sub).take n).map Bus.eventRecord ∧
      s.text cfg = utf8 (((s.events sub).take n).flatMap (eventText cfg)) := by
  have hinv := h.bus sub (List.mem_of_getElem? hsub)
  obtain ⟨n, hn⟩ : ∃ n, sub.yielded = ((s.events sub).take n).map Bus.eventRecord := by
    have hpre := hinv.yielded_prefix.trans (hinv.sent_prefix.map Bus.eventRecord)
    refine ⟨sub.yielded.length, ?_⟩
    rw [List.map_take]
    exact List.prefix_iff_eq_take.mp hpre
  refine ⟨n, hn, ?_⟩
  have hyielded : s.yielded cfg = sub.yielded := by
    rw [State.yielded, State.outputs, returned_eq hsub]
    rfl
  have hstreamable : ∀ ev ∈ (s.events sub).take n, Streamable cfg ev := fun ev hev =>
    hshape ev (List.mem_of_mem_drop (List.mem_of_mem_filter (List.mem_of_mem_take hev)))
  rw [State.text, hyielded, hn, List.flatMap_map]
  generalize (s.events sub).take n = evs at hstreamable
  induction evs with
  | nil => rfl
  | cons ev evs ih =>
    obtain ⟨hev, hevs⟩ := List.forall_mem_cons.mp hstreamable
    rw [List.flatMap_cons, List.flatMap_cons, utf8_append, eventBytes_eq hev, ih hevs]

structure CaughtUp (s : State) (sub : Bus.Subscription) : Prop where
  forwarding : sub.thread = .forwarding
  forwarded : sub.next = s.bus.bus.history.length
  taken : sub.queue.queue = []
  thread : s.thread = .reading []
  body : s.body.phase = .idle
  received : s.body.rx.queue = []
  live : s.body.live = true

section

variable {enc : Encoder} {b : StreamBody.State}

structure Open (b : StreamBody.State) : Prop where
  live : b.live = true
  uncancelled : b.cancelled = false
  opened : b.rx.closed = false

lemma drains (hlaw : enc.Lawful unpack) (h : StreamBody.Inv enc true b) (ho : Open b) :
    ∃ (acts : List StreamBody.Act) (c : StreamBody.State), (∀ a ∈ acts, ofClient a = true) ∧
      run (StreamBody.step enc true) b acts = some c ∧ c.phase = .idle ∧ c.rx.queue = [] ∧ Open c := by
  obtain ⟨acts, c, hacts, hrun, hphase, hempty, hawake⟩ :=
    StreamBody.drains hlaw h ⟨ho.live, fun _ => ho.uncancelled⟩ ho.opened
  refine ⟨acts, c, ofClient_eq ▸ hacts, hrun, hphase, hempty, hawake.live, hawake.uncancelled rfl, ?_⟩
  exact (StreamBody.client_run hacts hrun).2.trans ho.opened

end

/-- Nothing stands in the way of the next event: the subscription is read, and the body is sent to a client. -/
structure Flowing (cfg : Config) (s : State) (sub : Bus.Subscription) : Prop where
  inv : Inv cfg s
  reads : s.bus.subs[cfg.index]? = some sub
  kept : sub.dropped = false
  uninterrupted : s.bus.interrupted = false
  connected : s.hungUp = false
  body : Open s.body

def Leads (cfg : Config) (s : State) (P : State → Prop) : Prop :=
  ∃ (acts : List Act) (t : State), run (step cfg) s acts = some t ∧ t.bus.bus = s.bus.bus ∧ P t

variable {P : State → Prop} {sub sub' : Bus.Subscription}

lemma leads_append {acts : List Act} {t : State} (hrun : run (step cfg) s acts = some t)
    (hbus : t.bus.bus = s.bus.bus)
    (h : Leads cfg t P) : Leads cfg s P := by
  obtain ⟨later, u, hrun', hbus', hP⟩ := h
  exact ⟨acts ++ later, u, run_append.mpr ⟨t, hrun, hrun'⟩, hbus'.trans hbus, hP⟩

lemma leads_step {a : Act} {t : State} (hs : step cfg s a = some t) (hbus : t.bus.bus = s.bus.bus)
    (h : Leads cfg t P) : Leads cfg s P :=
  leads_append (run_cons.mpr ⟨t, hs, rfl⟩ : run (step cfg) s [a] = some t) hbus h

lemma run_body {acts : List StreamBody.Act} {b : StreamBody.State} (hconnected : s.hungUp = false)
    (hacts : ∀ a ∈ acts, ofClient a = true) (hrun : run (StreamBody.step cfg.enc true) s.body acts = some b) :
    run (step cfg) s (acts.map .body) = some { s with body := b } := by
  refine run_embed (fun body => { s with body := body }) Act.body (fun body body' a ha hs => ?_) hacts hrun
  simp [step, hconnected, ha, hs]

variable (hlaw : cfg.enc.Lawful unpack)
include hlaw

lemma leads_drained (h : Flowing cfg s sub)
    (hP : ∀ b, Flowing cfg { s with body := b } sub → b.phase = .idle → b.rx.queue = [] →
      Leads cfg { s with body := b } P) : Leads cfg s P := by
  obtain ⟨acts, b, hacts, hrun, hphase, hempty, hopen⟩ := drains hlaw h.inv.body h.body
  have hbody := run_body h.connected hacts hrun
  have hinv : Inv cfg { s with body := b } := run_invariant (inv_step hlaw) h.inv hbody
  exact leads_append hbody rfl
    (hP b ⟨hinv, h.reads, h.kept, h.uninterrupted, h.connected, hopen⟩ hphase hempty)

lemma leads_sent {chunk rest : Bytes} (h : Flowing cfg s sub) (hthread : s.thread = .sending chunk rest)
    (hP : ∀ b, Flowing cfg { s with thread := .reading rest, body := b } sub →
      Leads cfg { s with thread := .reading rest, body := b } P) : Leads cfg s P := by
  apply leads_drained hlaw h
  intro b hb _ hempty
  have hs : step cfg { s with body := b } .send =
      some { s with thread := .reading rest, body := { b with rx := b.rx.send chunk } } := by
    have hlive : b.live = true := hb.body.live
    have hopen : b.rx.closed = false := hb.body.opened
    simp [step, hthread, h.connected, hlive, StreamBody.step, hopen, hempty, StreamBody.channelCapacity]
  apply leads_step hs rfl
  exact hP _ ⟨inv_step hlaw _ _ _ hb.inv hs, h.reads, h.kept, h.uninterrupted, h.connected,
    hb.body.live, hb.body.uncancelled, hb.body.opened⟩

lemma leads_read {rest : Bytes} (h : Flowing cfg s sub) (hthread : s.thread = .reading rest)
    (hP : ∀ b, Flowing cfg { s with thread := .reading [], body := b } sub →
      Leads cfg { s with thread := .reading [], body := b } P) : Leads cfg s P := by
  induction hn : rest.length using Nat.strong_induction_on generalizing s rest with
  | _ n ih =>
    cases rest with
    | nil =>
      have := hP s.body
      rw [← hthread] at this
      exact this h
    | cons x rest =>
      have hs : step cfg s .read = some { s with
          thread := .sending ((x :: rest).take bufferSize) ((x :: rest).drop bufferSize) } := by
        simp [step, hthread, h.uninterrupted]
      have hread : Flowing cfg { s with
          thread := .sending ((x :: rest).take bufferSize) ((x :: rest).drop bufferSize) } sub :=
        ⟨inv_step hlaw _ _ _ h.inv hs, h.reads, h.kept, h.uninterrupted, h.connected, h.body⟩
      apply leads_step hs rfl
      apply leads_sent hlaw hread rfl
      intro b hb
      have hlt : ((x :: rest).drop bufferSize).length < n := by
        rw [← hn, List.length_drop, bufferSize]
        simp
      exact ih _ hlt hb rfl hP rfl

omit hlaw

variable (cfg) in
def State.replace (s : State) (sub' : Bus.Subscription) : State :=
  { s with bus := { s.bus with subs := s.bus.subs.set cfg.index sub' } }

lemma modify_eq {bus : Bus.State} {i : Nat} {f : Bus.Subscription → Option Bus.Subscription}
    (hsub : bus.subs[i]? = some sub) (hf : f sub = some sub') :
    bus.modify i f = some { bus with subs := bus.subs.set i sub' } := by
  rw [Bus.State.modify, hsub]
  simp only [hf, Option.map_some]

lemma look_eq (h : Flowing cfg s sub) (hthread : s.thread = .reading []) (hchecked : sub.checked = false) :
    step cfg s .look = some (s.replace cfg { sub with checked := true }) := by
  have hlook : sub.look s.bus.interrupted = some { sub with checked := true } := by
    simp [Bus.Subscription.look, h.kept, hchecked, h.uninterrupted]
  have hbus : Bus.step s.bus (.look cfg.index) = some (s.replace cfg { sub with checked := true }).bus :=
    modify_eq h.reads hlook
  have hnone : (returned (s.replace cfg { sub with checked := true }).bus cfg.index)[(s.outputs cfg).length]? =
    none := by
    rw [State.outputs, returned_eq h.reads, State.replace, returned_set h.reads]
    exact List.getElem?_eq_none le_rfl
  have hnext : s.next cfg (.look cfg.index) = some (s.replace cfg { sub with checked := true }) := by
    rw [State.next, hbus, Option.map_some, hnone]
    rfl
  simp only [step, hthread, hnext]

lemma poll_eq {queue : Mpsc Bus.BusEvent} {ev : Bus.BusEvent} (h : Flowing cfg s sub)
    (hthread : s.thread = .reading [])
    (hchecked : sub.checked = true) (hrecv : sub.queue.recv = (.item ev, queue)) (hev : Streamable cfg ev) :
    step cfg s .poll = some { s.replace cfg (({ sub with queue := queue } : Bus.Subscription).output
      (.record (Bus.eventRecord ev))) with thread := .reading (utf8 (eventText cfg ev)) } := by
  have hpoll : sub.poll = some (({ sub with queue := queue } : Bus.Subscription).output
      (.record (Bus.eventRecord ev))) := by
    simp [Bus.Subscription.poll, h.kept, hchecked, hrecv]
  have hbus : Bus.step s.bus (.poll cfg.index) = some (s.replace cfg (({ sub with queue := queue } :
      Bus.Subscription).output (.record (Bus.eventRecord ev)))).bus := modify_eq h.reads hpoll
  have hsome : (returned (s.replace cfg (({ sub with queue := queue } : Bus.Subscription).output
      (.record (Bus.eventRecord ev)))).bus cfg.index)[(s.outputs cfg).length]? =
        some (.record (Bus.eventRecord ev)) := by
    rw [State.outputs, returned_eq h.reads, State.replace, returned_set h.reads]
    simp [Bus.Subscription.output]
  have hnext : s.next cfg (.poll cfg.index) = some
      { s.replace cfg (({ sub with queue := queue } : Bus.Subscription).output (.record (Bus.eventRecord ev))) with
        thread := .reading (utf8 (eventText cfg ev)) } := by
    rw [State.next, hbus, Option.map_some, hsome]
    simp only [State.take, eventToString_streamable hev]
    rfl
  simp only [step, hthread, hnext]

/-- The same subscription, further on. -/
structure Continues (sub sub' : Bus.Subscription) : Prop where
  start : sub'.start = sub.start
  matcher : sub'.matcher = sub.matcher
  thread : sub'.thread = sub.thread
  next : sub'.next = sub.next

include hlaw

lemma leads_taken (h : Flowing cfg s sub) (hthread : s.thread = .reading [])
    (hshape : ∀ ev ∈ s.bus.bus.history, Streamable cfg ev)
    (hP : ∀ t sub', Flowing cfg t sub' → t.thread = .reading [] → t.bus.bus = s.bus.bus → Continues sub sub' →
      sub'.queue.queue = [] → Leads cfg t P) : Leads cfg s P := by
  induction hq : sub.queue.queue generalizing s sub with
  | nil => exact hP s sub h hthread rfl ⟨rfl, rfl, rfl, rfl⟩ hq
  | cons ev rest ih =>
    obtain ⟨queue, hrecv, hrest⟩ := Mpsc.recv_of_queue hq
    have hev : Streamable cfg ev := by
      have hinv := h.inv.bus sub (List.mem_of_getElem? h.reads)
      have hmem : ev ∈ sub.queue.sent := List.mem_of_mem_drop (hq ▸ List.mem_cons_self : ev ∈ sub.queue.queue)
      exact hshape ev (List.mem_of_mem_drop (List.mem_of_mem_filter (hinv.sent_prefix.mem hmem)))
    have hset : ∀ (t : State) (sub' : Bus.Subscription), t.bus.subs[cfg.index]? = some sub' →
        ∀ sub'', (t.replace cfg sub'').bus.subs[cfg.index]? = some sub'' := by
      intro t sub' ht sub''
      rw [State.replace, List.getElem?_set_self (List.getElem?_eq_some_iff.mp ht).1]
    have hpolled : ∀ t sub', Flowing cfg t sub' → t.thread = .reading [] → t.bus.bus = s.bus.bus →
        Continues sub sub' → sub'.checked = true → sub'.queue = sub.queue → Leads cfg t P := by
      intro t sub' ht hthread' hbus hsame hchecked hqueue
      have hs := poll_eq ht hthread' hchecked (hqueue ▸ hrecv) hev
      apply leads_step hs rfl
      have hflow : Flowing cfg { t.replace cfg (({ sub' with queue := queue } : Bus.Subscription).output
          (.record (Bus.eventRecord ev))) with thread := .reading (utf8 (eventText cfg ev)) }
          (({ sub' with queue := queue } : Bus.Subscription).output (.record (Bus.eventRecord ev))) :=
        ⟨inv_step hlaw _ _ _ ht.inv hs, hset t sub' ht.reads _, ht.kept, ht.uninterrupted, ht.connected, ht.body⟩
      apply leads_read hlaw hflow rfl
      intro b hb
      refine ih hb rfl (fun e he => hshape e (hbus ▸ he)) (fun u sub'' hu hread hbus' hsame' hempty => ?_) hrest
      exact hP u sub'' hu hread (hbus'.trans hbus)
        ⟨hsame'.start.trans hsame.start, hsame'.matcher.trans hsame.matcher,
        hsame'.thread.trans hsame.thread, hsame'.next.trans hsame.next⟩ hempty
    cases hchecked : sub.checked with
    | true => exact hpolled s sub h hthread rfl ⟨rfl, rfl, rfl, rfl⟩ hchecked rfl
    | false =>
      have hs := look_eq h hthread hchecked
      apply leads_step hs rfl
      exact hpolled _ { sub with checked := true } ⟨inv_step hlaw _ _ _ h.inv hs, hset s sub h.reads _, h.kept,
        h.uninterrupted, h.connected, h.body⟩ hthread rfl ⟨rfl, rfl, rfl, rfl⟩ rfl rfl

omit hlaw in
lemma bus_eq {act : Bus.Act} {f : Bus.Subscription → Option Bus.Subscription} (h : Flowing cfg s sub)
    (hact : ofStream cfg.index act = false) (hmodify : Bus.step s.bus act = s.bus.modify cfg.index f)
    (hf : f sub = some sub') : step cfg s (.bus act) = some (s.replace cfg sub') := by
  simp only [step, hact, Bool.false_eq_true, if_false, hmodify, modify_eq h.reads hf, Option.map_some]
  rfl

lemma flowing_replace {act : Bus.Act} (h : Flowing cfg s sub)
    (hs : step cfg s (.bus act) = some (s.replace cfg sub'))
    (hkept : sub'.dropped = false) : Flowing cfg (s.replace cfg sub') sub' where
  inv := inv_step hlaw _ _ _ h.inv hs
  reads := List.getElem?_set_self (List.getElem?_eq_some_iff.mp h.reads).1
  kept := hkept
  uninterrupted := h.uninterrupted
  connected := h.connected
  body := h.body

lemma leads_forwarded (h : Flowing cfg s sub) (hthread : sub.thread = .forwarding)
    (hroom : s.bus.bus.history.length ≤ sub.next + s.bus.bus.capacity)
    (hP : ∀ t sub', Flowing cfg t sub' → t.thread = s.thread → t.bus.bus = s.bus.bus → sub'.start = sub.start →
      sub'.matcher = sub.matcher → sub'.thread = .forwarding → sub'.next = s.bus.bus.history.length →
      Leads cfg t P) : Leads cfg s P := by
  have hle := (h.inv.bus sub (List.mem_of_getElem? h.reads)).next_le
  induction hn : s.bus.bus.history.length - sub.next generalizing s sub with
  | zero => exact hP s sub h rfl rfl rfl rfl hthread (by omega)
  | succ n ih =>
    have hlt : sub.next < s.bus.bus.history.length := by omega
    have hrecv : s.bus.bus.recv sub.next = (.item s.bus.bus.history[sub.next], sub.next + 1) := by
      rw [Broadcast.recv, if_neg (by omega), List.getElem?_eq_getElem hlt]
    obtain ⟨sub', hforward, hdropped, hstart, hmatcher, hthread', hnext⟩ : ∃ sub',
      sub.forward s.bus.bus = some sub' ∧
        sub'.dropped = false ∧ sub'.start = sub.start ∧ sub'.matcher = sub.matcher ∧ sub'.thread = .forwarding ∧
        sub'.next = sub.next + 1 := by
      simp only [Bus.Subscription.forward, hthread, hrecv, h.kept, Bool.false_eq_true, if_false]
      split <;> exact ⟨_, rfl, rfl, rfl, rfl, rfl, rfl⟩
    have hs : step cfg s (.bus (.forward cfg.index)) = some (s.replace cfg sub') := bus_eq h rfl rfl hforward
    have hflow := flowing_replace hlaw h hs hdropped
    apply leads_step hs rfl
    have hroom' : s.bus.bus.history.length ≤ sub'.next + s.bus.bus.capacity := by omega
    refine ih hflow hthread' hroom' (fun t u ht hsame hbus hstart' hmatcher' hfw hend => ?_) ?_ ?_
    · exact hP t u ht hsame hbus (hstart'.trans hstart) (hmatcher'.trans hmatcher) hfw hend
    · exact hnext ▸ hlt
    · change s.bus.bus.history.length - sub'.next = n
      omega

def Reaches (cfg : Config) (sub : Bus.Subscription) (t : State) : Prop :=
  ∃ sub', t.bus.subs[cfg.index]? = some sub' ∧ CaughtUp t sub' ∧ sub'.start = sub.start ∧
    sub'.matcher = sub.matcher

lemma leads_reading {rest : Bytes} (h : Flowing cfg s sub) (hforwarding : sub.thread = .forwarding)
    (hforwarded : sub.next = s.bus.bus.history.length) (hthread : s.thread = .reading rest)
    (hshape : ∀ ev ∈ s.bus.bus.history, Streamable cfg ev) : Leads cfg s (Reaches cfg sub) := by
  apply leads_read hlaw h hthread
  intro b hb
  apply leads_taken hlaw hb rfl hshape
  intro t sub' ht hread hbus hsame hempty
  apply leads_drained hlaw ht
  intro c hc hphase hreceived
  refine ⟨[], _, rfl, rfl, sub', hc.reads, ?_, hsame.start, hsame.matcher⟩
  refine ⟨hsame.thread.trans hforwarding, ?_, hempty, hread, hphase, hreceived, hc.body.live⟩
  change sub'.next = t.bus.bus.history.length
  rw [hsame.next, hforwarded, hbus]

lemma catchesUp (h : Flowing cfg s sub) (hthread : sub.thread = .starting ∨ sub.thread = .forwarding)
    (hroom : s.bus.bus.history.length ≤ sub.next + s.bus.bus.capacity)
    (hends : ∀ cause, s.thread ≠ .ended cause) (hshape : ∀ ev ∈ s.bus.bus.history, Streamable cfg ev) :
    Leads cfg s (Reaches cfg sub) := by
  have hforwarding : ∀ t sub', Flowing cfg t sub' → sub'.thread = .forwarding → t.thread = s.thread →
      t.bus.bus = s.bus.bus → sub'.start = sub.start → sub'.matcher = sub.matcher → sub'.next = sub.next →
      Leads cfg t (Reaches cfg sub) := by
    intro t sub' ht hfw hsame hbus hstart hmatcher hnext
    apply leads_forwarded hlaw ht hfw (by rw [hbus, hnext]; exact hroom)
    intro u sub'' hu hsame' hbus' hstart' hmatcher' hfw' hend
    have hreaches : Reaches cfg sub'' = Reaches cfg sub := by
      funext v
      simp only [Reaches, hstart', hmatcher', hstart, hmatcher]
    have hevents : ∀ ev ∈ u.bus.bus.history, Streamable cfg ev := by
      rw [hbus', hbus]
      exact hshape
    have hend : sub''.next = u.bus.bus.history.length := by rw [hend, hbus']
    rw [← hreaches]
    cases hu' : u.thread with
    | reading rest => exact leads_reading hlaw hu hfw' hend hu' hevents
    | sending chunk rest =>
      apply leads_sent hlaw hu hu'
      intro b hb
      exact leads_reading hlaw hb hfw' hend rfl hevents
    | ended cause => exact absurd (hsame.symm.trans (hsame'.symm.trans hu')) (hends cause)
  rcases hthread with hstarting | hfw
  · have hspawn : sub.spawn true = some { sub with thread := .forwarding } := by
      simp [Bus.Subscription.spawn, hstarting]
    have hs : step cfg s (.bus (.spawn cfg.index true)) =
      some (s.replace cfg { sub with thread := .forwarding }) :=
      bus_eq h rfl rfl hspawn
    exact leads_step hs rfl (hforwarding _ _ (flowing_replace hlaw h hs h.kept) rfl rfl rfl rfl rfl rfl)
  · exact hforwarding s sub h hfw rfl rfl rfl rfl rfl

/-- What a client of a live event stream has dispatched, measured by the events that its subscription matches. -/
structure Delivers (cfg : Config) (unpack : Bytes → Bytes) (s : State) (sub : Bus.Subscription) : Prop where
  whole : s.dispatched unpack <+: (s.events sub).map (eventBlock cfg)
  caughtUp : CaughtUp s sub → s.dispatched unpack = (s.events sub).map (eventBlock cfg)
  ended : s.body.EndedCleanly → ∃ cause, s.thread = .ended cause ∧ (cause = .returned →
    (.disconnected ∈ sub.outputs ∨ .interrupted ∈ sub.outputs) ∧
      ∃ n, sub.yielded = ((s.events sub).take n).map Bus.eventRecord ∧
        s.dispatched unpack = ((s.events sub).take n).map (eventBlock cfg))
  catchesUp : Flowing cfg s sub → (sub.thread = .starting ∨ sub.thread = .forwarding) →
    s.bus.bus.history.length ≤ sub.next + s.bus.bus.capacity → (∀ cause, s.thread ≠ .ended cause) →
    ∃ acts t, run (step cfg) s acts = some t ∧ t.bus.bus = s.bus.bus ∧
      t.dispatched unpack = (s.events sub).map (eventBlock cfg)

lemma dispatched_cut (h : Inv cfg s) {evs : List Bus.BusEvent} (hevs : ∀ ev ∈ evs, Streamable cfg ev)
    (htext : s.text cfg = utf8 (evs.flatMap (eventText cfg))) :
    s.dispatched unpack <+: evs.map (eventBlock cfg) := by
  have hdelivered : s.body.delivered unpack <+: utf8 (evs.flatMap (eventText cfg)) :=
    ((h.body.delivered_prefix hlaw).trans (List.IsPrefix.flatten s.body.rx.received_prefix)).trans
      (htext ▸ h.sent.isPrefix)
  obtain ⟨part, rest, heq, hpart, hrest⟩ := fromUtf8Lossy_cut hdelivered
  have hcr : '\r' ∉ evs.flatMap (eventText cfg) := by
    intro hmem
    obtain ⟨ev, hev, hmem⟩ := List.mem_flatMap.mp hmem
    exact eventText_plain (hevs ev hev) hmem
  rw [State.dispatched, heq, ← decode_events hevs]
  apply EventStream.decode_cut hcr hpart
  · exact fun hmem => hrest _ hmem (by decide)
  · exact fun hmem => hrest _ hmem (by decide)

omit hlaw in
lemma dispatched_all {evs : List Bus.BusEvent} (hevs : ∀ ev ∈ evs, Streamable cfg ev)
    (hdelivered : s.body.delivered unpack = utf8 (evs.flatMap (eventText cfg))) :
    s.dispatched unpack = evs.map (eventBlock cfg) := by
  rw [State.dispatched, hdelivered, fromUtf8Lossy_utf8, decode_events hevs]

lemma dispatched_caughtUp (h : Inv cfg s) (hsub : s.bus.subs[cfg.index]? = some sub)
    (hshape : ∀ ev ∈ s.bus.bus.history, Streamable cfg ev) (hcaught : CaughtUp s sub) :
    s.dispatched unpack = (s.events sub).map (eventBlock cfg) := by
  obtain ⟨n, hn, htext⟩ := text_events h hsub hshape
  have hinv := h.bus sub (List.mem_of_getElem? hsub)
  have hyielded : sub.yielded = (s.events sub).map Bus.eventRecord := by
    have hsent := hinv.sent_eq (by simp [hcaught.forwarding])
    rw [hcaught.forwarded, Broadcast.between_end le_rfl, ← Mpsc.received_append_queue, hcaught.taken,
      List.append_nil] at hsent
    rw [hinv.yielded, hsent]
    rfl
  have htake : (s.events sub).take n = s.events sub := by
    have hlen := congrArg List.length (hn.symm.trans hyielded)
    simp only [List.length_map, List.length_take] at hlen
    exact List.take_of_length_le (by omega)
  rw [htake] at htext
  apply dispatched_all
  · exact fun ev hev => hshape ev (List.mem_of_mem_drop (List.mem_of_mem_filter hev))
  · have hsent := h.sent
    rw [State.Sent, hcaught.thread] at hsent
    simp only [List.append_nil] at hsent
    have hreceived : s.body.rx.received = s.body.rx.sent := Mpsc.received_of_queue_nil hcaught.received
    rw [StreamBody.delivered_idle hlaw h.body hcaught.body (h.body.quiet hcaught.live).1, hreceived, hsent, htext]

theorem live_delivers {capacity : Nat} {acts : List Act}
    (h : run (step cfg) (init cfg capacity) acts = some s) (hsub : s.bus.subs[cfg.index]? = some sub)
    (hshape : ∀ ev ∈ s.bus.bus.history, Streamable cfg ev) : Delivers cfg unpack s sub := by
  have hinv := inv_run hlaw h
  obtain ⟨n, hn, htext⟩ := text_events hinv hsub hshape
  have htaken : ∀ ev ∈ (s.events sub).take n, Streamable cfg ev := fun ev hev =>
    hshape ev (List.mem_of_mem_drop (List.mem_of_mem_filter (List.mem_of_mem_take hev)))
  refine ⟨?_, dispatched_caughtUp hlaw hinv hsub hshape, fun hended => ?_, fun hflow hthread hroom hends => ?_⟩
  · exact (dispatched_cut hlaw hinv htaken htext).trans ((List.take_prefix n _).map _)
  · obtain ⟨hdead, herror, hclosed, hall, _⟩ := hinv.body.endedCleanly hended
    obtain ⟨cause, hthread⟩ := hinv.closed hclosed
    refine ⟨cause, hthread, fun hreturned => ?_⟩
    have hsent := hinv.sent
    rw [State.Sent, hthread] at hsent
    obtain ⟨hsent, hout⟩ := hsent.2 hreturned
    rw [State.outputs, returned_eq hsub] at hout
    refine ⟨hout, n, hn, dispatched_all htaken ?_⟩
    rw [hinv.body.delivered_eq hlaw hdead herror, hall, hsent, htext]
  · obtain ⟨acts', t, hrun, hbus, sub', hsub', hcaught, hstart, hmatcher⟩ :=
      catchesUp hlaw hflow hthread hroom hends hshape
    refine ⟨acts', t, hrun, hbus, ?_⟩
    have hevents : t.events sub' = s.events sub := by
      rw [State.events, State.events, Bus.State.since, Bus.State.since, Bus.Subscription.matching,
        Bus.Subscription.matching, hstart, hmatcher, hbus]
    rw [← hevents]
    exact dispatched_caughtUp hlaw (run_invariant (inv_step hlaw) hinv hrun) hsub' (hbus ▸ hshape) hcaught

omit hlaw

def topicConfig : Config where
  R := .plain
  shape v := .record [("data".toList, ((recordOf v).get "topic".toList).getD .nothing)]
  index := 0
  enc := .framed
  useBrotli := true

/-- Of three events two match; the text of the second is cut when the client reads it. -/
def greetRun : List Act :=
  [.bus (.subscribe (some "a.*".toList)), .bus (.spawn 0 true), .bus (.publish ⟨"a.x".toList, .nothing⟩),
    .bus (.publish ⟨"b".toList, .nothing⟩), .bus (.forward 0), .look, .poll, .read, .send,
      .body .poll, .body .look,
    .body .recv, .body .look, .body .recv, .bus (.forward 0), .bus (.publish ⟨"a.é".toList, .nothing⟩),
    .bus (.forward 0), .look, .poll, .read, .send, .body .poll, .body .look, .body .recv, .body .look, .body .recv]

lemma streamable_topic {ev : Bus.BusEvent} (hplain : '\r' ∉ ev.topic) : Streamable topicConfig ev := by
  refine ⟨[("data".toList, .string ev.topic)], rfl, rfl, fun name hname v hv => ?_, fun data hdata => ?_⟩
  · have hnone : ∀ name ∈ singleFields, field [("data".toList, .string ev.topic)] name = none := by
      simp only [singleFields, List.mem_cons, List.not_mem_nil, or_false, forall_eq_or_imp, forall_eq]
      exact ⟨rfl, rfl, rfl⟩
    rw [hnone name hname] at hv
    exact absurd hv (by simp)
  · have hone : dataOf topicConfig.R [("data".toList, .string ev.topic)] = [ev.topic] := rfl
    rw [hone, List.mem_singleton] at hdata
    exact hdata ▸ hplain

theorem live_delivers_greet : ∃ s sub, run (step topicConfig) (init topicConfig 8) greetRun = some s ∧
    s.bus.subs[0]? = some sub ∧ (s.events sub).map Bus.BusEvent.topic = ["a.x".toList, "a.é".toList] ∧
    s.dispatched Encoder.unframe = (s.events sub).map (eventBlock topicConfig) := by
  obtain ⟨s, hs⟩ := Option.isSome_iff_exists.mp
    (rfl : (run (step topicConfig) (init topicConfig 8) greetRun).isSome = true)
  have hclient : (run (step topicConfig) (init topicConfig 8) greetRun).map
      (fun s => (s.thread, s.body.phase, s.body.rx.queue, s.body.live)) = some (.reading [], .idle, [], true) :=
        rfl
  have hbus : (run (step topicConfig) (init topicConfig 8) greetRun).map
      (fun s => s.bus.bus.history.map Bus.BusEvent.topic) = some ["a.x".toList, "b".toList, "a.é".toList] := rfl
  have hsubs : (run (step topicConfig) (init topicConfig 8) greetRun).map (fun s => s.bus.subs.map fun sub =>
      (sub.thread, sub.next, sub.queue.queue, (s.events sub).map Bus.BusEvent.topic)) =
      some [(.forwarding, 3, [], ["a.x".toList, "a.é".toList])] := rfl
  rw [hs] at hclient hbus hsubs
  simp only [Option.map_some, Option.some.injEq, Prod.mk.injEq] at hclient hbus hsubs
  obtain ⟨hthread, hphase, hqueue, hlive⟩ := hclient
  have hlen : s.bus.subs.length = 1 := by simpa using congrArg List.length hsubs
  obtain ⟨sub, hone⟩ := List.length_eq_one_iff.mp hlen
  have hsub : s.bus.subs[0]? = some sub := by rw [hone, List.getElem?_cons_zero]
  simp only [hone, List.map_cons, List.map_nil, List.cons.injEq, Prod.mk.injEq, and_true] at hsubs
  obtain ⟨hforwarding, hnext, htaken, hevents⟩ := hsubs
  refine ⟨s, sub, hs, hsub, hevents, ?_⟩
  have hshape : ∀ ev ∈ s.bus.bus.history, Streamable topicConfig ev := by
    intro ev hev
    have htopic : ev.topic ∈ ["a.x".toList, "b".toList, "a.é".toList] := hbus ▸ List.mem_map_of_mem hev
    apply streamable_topic
    intro hcr
    simp only [List.mem_cons, List.not_mem_nil, or_false] at htopic
    rcases htopic with h | h | h <;> exact absurd (h ▸ hcr) (by decide)
  apply (live_delivers Encoder.framed_lawful hs hsub hshape).caughtUp
  have hforwarded : sub.next = s.bus.bus.history.length := by
    rw [hnext]
    simpa using (congrArg List.length hbus).symm
  exact ⟨hforwarding, hforwarded, htaken, hthread, hphase, hqueue, hlive⟩

end HttpNu.Handler.LiveEvents
