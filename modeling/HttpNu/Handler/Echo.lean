import HttpNu.Handler.BodyFlow
import HttpNu.Handler.ProxyUpload

/-! An echo: a handler that hands the body of its request on as the body of its response. -/

namespace HttpNu.Handler.Echo

open Text Library BodyFlow

/-- The request's body as the thread reads it: the task with its channel, and what the byte stream holds of the
item that it took last. -/
structure Source where
  transfer : Transfer
  held : Bytes
  dropped : Bool

inductive Read where
  | generate
  | read

def bufferSize : Nat := 8192

/-- The generator of `ByteStream::from_fn` is asked only when nothing is held, and waits for an item. -/
def readStep (source : Source) : Read → Option (Source × Produced)
  | .generate =>
    if source.held ≠ [] then none
    else
      match source.transfer.channel.recv with
      | (.item (.ok bytes), channel) =>
        some ({ source with transfer := { source.transfer with channel := channel }, held := bytes }, .nothing)
      | (.item (.error _), channel) =>
        some ({ source with transfer := { source.transfer with channel := channel } }, .ended)
      | (.disconnected, _) => some (source, .ended)
      | (.empty, _) => none
  | .read =>
    if source.held = [] then none
    else some ({ source with held := source.held.drop bufferSize }, .chunk (source.held.take bufferSize))

/-- The task that reads the request's frames; once its receiver is gone, it stops at its next frame. -/
def frameStep (source : Source) (_ : Unit) : Option Source :=
  if source.dropped then none
  else (source.transfer.step .frame).map fun transfer => { source with transfer := transfer }

def feed : Feed Source Read Unit := ⟨readStep, frameStep, fun source => { source with dropped := true }⟩

def start (upload : Upload) (useBrotli : Bool) : State Source := BodyFlow.init ⟨.init upload, [], false⟩ useBrotli

abbrev step (enc : Encoder) (isSse : Bool) : State Source → Act Read Unit → Option (State Source) :=
  BodyFlow.step enc isSse feed

def channel (s : State Source) : Mpsc (Except Str Bytes) := s.source.transfer.channel

lemma delivered_append {ε : Type} {items later : List (Except ε Bytes)} (h : failure items = none) :
    delivered (items ++ later) = delivered items ++ delivered later := by
  induction items with
  | nil => rfl
  | cons item items ih =>
    cases item with
    | ok bytes => rw [List.cons_append, delivered, delivered, ih h, List.append_assoc]
    | error err => cases h

lemma delivered_of_failure {ε : Type} {items : List (Except ε Bytes)} (h : failure items ≠ none)
    (later : List (Except ε Bytes)) : delivered (items ++ later) = delivered items := by
  induction items with
  | nil => exact absurd rfl h
  | cons item items ih =>
    cases item with
    | ok bytes => exact congrArg (bytes ++ ·) (ih h)
    | error err => rfl

lemma delivered_isPrefix {ε : Type} {items all : List (Except ε Bytes)} (h : items <+: all) :
    delivered items <+: delivered all := by
  obtain ⟨later, rfl⟩ := h
  by_cases hfailure : failure items = none
  · exact ⟨_, (delivered_append hfailure).symm⟩
  · exact delivered_of_failure hfailure later ▸ List.prefix_rfl

lemma failure_append {ε : Type} {items : List (Except ε Bytes)} (h : failure items = none)
    (later : List (Except ε Bytes)) : failure (items ++ later) = failure later := by
  induction items with
  | nil => rfl
  | cons item items ih =>
    cases item with
    | ok bytes => exact ih h
    | error err => cases h

def uploaded (upload : Upload) : Bytes := delivered (Transfer.sends upload)

/-- The thread has come to what it received, but for what is held, and it goes on until it has received all. -/
structure Fed (upload : Upload) (s : State Source) : Prop where
  transfer : Transfer.Inv upload s.source.transfer
  made : s.made.flatten ++ s.source.held = delivered (channel s).received
  unbroken : (∀ refused, s.thread ≠ .ended refused) → failure (channel s).received = none
  attached : (∀ refused, s.thread ≠ .ended refused) → s.source.dropped = false
  whole : s.thread = .ended false → s.source.held = [] ∧ delivered (channel s).received = uploaded upload

variable {enc : Encoder} {isSse : Bool} {upload : Upload} {unpack : Bytes → Bytes} {s s' : State Source}

lemma Fed.sent_prefix (h : Fed upload s) : (channel s).sent <+: Transfer.sends upload := ⟨_, h.transfer⟩

lemma received_all {transfer : Transfer} (h : Transfer.Inv upload transfer)
    (hclosed : transfer.channel.closed = true)
    (hall : transfer.channel.received = transfer.channel.sent) :
    transfer.channel.received = Transfer.sends upload := by
  rwa [Transfer.Inv, if_pos hclosed, List.append_nil, ← hall] at h

lemma transfer_recv {transfer : Transfer} {item : Except Str Bytes} {rest : Mpsc (Except Str Bytes)}
    (h : Transfer.Inv upload transfer) (hrecv : transfer.channel.recv = (.item item, rest)) :
    Transfer.Inv upload { transfer with channel := rest } := by
  obtain ⟨hsent, hclosed, _⟩ := Mpsc.recv_item hrecv
  rw [Transfer.Inv, hsent, hclosed]
  exact h

lemma fed_generate (h : Fed upload s) (hs : step enc isSse s (.thread .generate) = some s') : Fed upload s' := by
  simp only [step, BodyFlow.step] at hs
  split at hs
  · rename_i hthread
    obtain ⟨⟨source, produced⟩, hread, rfl⟩ := Option.map_eq_some_iff.mp hs
    have hgoes : ∀ refused, s.thread ≠ .ended refused := by simp [hthread]
    have hunbroken := h.unbroken hgoes
    simp only [feed, readStep] at hread
    split at hread
    · cases hread
    rename_i hheld
    have hheld : s.source.held = [] := by simpa using hheld
    have hmade : s.made.flatten = delivered (channel s).received := by
      rw [← h.made, hheld, List.append_nil]
    split at hread
    · rename_i bytes rest hrecv
      obtain ⟨rfl, rfl⟩ := Prod.mk.inj (Option.some.inj hread)
      have hreceived : rest.received = (channel s).received ++ [.ok bytes] := (Mpsc.recv_item hrecv).2.2
      refine ⟨transfer_recv h.transfer hrecv, ?_, fun _ => ?_, fun _ => h.attached hgoes,
        by simp [State.produce, hthread]⟩
      · change s.made.flatten ++ bytes = delivered rest.received
        rw [hreceived, delivered_append hunbroken, hmade]
        exact congrArg (delivered (channel s).received ++ ·) (List.append_nil bytes).symm
      · change failure rest.received = none
        rw [hreceived, failure_append hunbroken]
        rfl
    · rename_i err rest hrecv
      obtain ⟨rfl, rfl⟩ := Prod.mk.inj (Option.some.inj hread)
      have hreceived : rest.received = (channel s).received ++ [.error err] := (Mpsc.recv_item hrecv).2.2
      have hfailure : failure rest.received ≠ none := by
        rw [hreceived, failure_append hunbroken]
        exact Option.some_ne_none err
      have hinv : Transfer.Inv upload { s.source.transfer with channel := rest } := transfer_recv h.transfer hrecv
      have hprefix : rest.received <+: Transfer.sends upload := rest.received_prefix.trans ⟨_, hinv⟩
      refine ⟨hinv, ?_, fun hgoes => absurd rfl (hgoes false), fun hgoes => absurd rfl (hgoes false),
        fun _ => ⟨hheld, ?_⟩⟩
      · change s.made.flatten ++ s.source.held = delivered rest.received
        rw [hreceived, delivered_append hunbroken, hmade, hheld]
        rfl
      · obtain ⟨later, hlater⟩ := hprefix
        change delivered rest.received = _
        rw [uploaded, ← hlater, delivered_of_failure hfailure]
    · rename_i hrecv
      obtain ⟨rfl, rfl⟩ := Prod.mk.inj (Option.some.inj hread)
      obtain ⟨_, hclosed, hall⟩ := Mpsc.recv_disconnected hrecv
      refine ⟨h.transfer, h.made, fun hgoes => absurd rfl (hgoes false), fun hgoes => absurd rfl (hgoes false),
        fun _ => ⟨hheld, ?_⟩⟩
      exact congrArg delivered (received_all h.transfer hclosed hall)
    · cases hread
  · cases hs

lemma fed_read (h : Fed upload s) (hs : step enc isSse s (.thread .read) = some s') : Fed upload s' := by
  simp only [step, BodyFlow.step] at hs
  split at hs
  · rename_i hthread
    obtain ⟨⟨source, produced⟩, hread, rfl⟩ := Option.map_eq_some_iff.mp hs
    simp only [feed, readStep] at hread
    split at hread
    · cases hread
    obtain ⟨rfl, rfl⟩ := Prod.mk.inj (Option.some.inj hread)
    have hgoes : ∀ refused, s.thread ≠ .ended refused := by simp [hthread]
    refine ⟨h.transfer, ?_, fun _ => h.unbroken hgoes, fun _ => h.attached hgoes, by simp [State.produce]⟩
    change (s.made ++ [s.source.held.take bufferSize]).flatten ++ s.source.held.drop bufferSize = _
    rw [List.flatten_concat, List.append_assoc, List.take_append_drop]
    exact h.made
  · cases hs

lemma frame_received {transfer transfer' : Transfer} (h : transfer.step .frame = some transfer') :
    transfer'.channel.received = transfer.channel.received := by
  simp only [Transfer.step] at h
  repeat' split at h
  all_goals first
    | (obtain rfl := Option.some.inj h; first | rfl | exact Mpsc.received_send transfer.channel _)
    | cases h

lemma fed_frame (h : Fed upload s) (hs : step enc isSse s (.outside ()) = some s') : Fed upload s' := by
  obtain ⟨source, hframe, rfl⟩ := Option.map_eq_some_iff.mp hs
  simp only [feed, frameStep] at hframe
  split at hframe
  · cases hframe
  obtain ⟨transfer, hstep, rfl⟩ := Option.map_eq_some_iff.mp hframe
  have hreceived := frame_received hstep
  refine ⟨Transfer.inv_step _ _ _ h.transfer hstep, ?_, fun hgoes => ?_, h.attached, fun hended => ?_⟩
  · exact h.made.trans (congrArg delivered hreceived.symm)
  · exact (congrArg failure hreceived).trans (h.unbroken hgoes)
  · exact ⟨(h.whole hended).1, (congrArg delivered hreceived).trans (h.whole hended).2⟩

lemma fed_send (h : Fed upload s) (hs : step enc isSse s .send = some s') : Fed upload s' := by
  simp only [step, BodyFlow.step] at hs
  split at hs
  · rename_i chunk hthread
    have hgoes : ∀ refused, s.thread ≠ .ended refused := by simp [hthread]
    split at hs
    · obtain rfl := Option.some.inj hs
      exact ⟨h.transfer, h.made, fun hgoes => absurd rfl (hgoes true), fun hgoes => absurd rfl (hgoes true),
        by simp [State.finish]⟩
    · obtain ⟨body, _, rfl⟩ := Option.map_eq_some_iff.mp hs
      exact ⟨h.transfer, h.made, fun _ => h.unbroken hgoes, fun _ => h.attached hgoes, by simp⟩
  · cases hs

lemma fed_step (s : State Source) (a : Act Read Unit) (s' : State Source) (h : Fed upload s)
    (hs : step enc isSse s a = some s') : Fed upload s' := by
  cases a with
  | thread act =>
    cases act with
    | generate => exact fed_generate h hs
    | read => exact fed_read h hs
  | outside => exact fed_frame h hs
  | send => exact fed_send h hs
  | body act =>
    simp only [step, BodyFlow.step] at hs
    split at hs
    · cases hs
    · obtain ⟨body, _, rfl⟩ := Option.map_eq_some_iff.mp hs
      exact ⟨h.transfer, h.made, h.unbroken, h.attached, h.whole⟩
  | hangUp =>
    obtain rfl := Option.some.inj hs
    exact ⟨h.transfer, h.made, h.unbroken, h.attached, h.whole⟩

lemma fed_init (upload : Upload) (useBrotli : Bool) : Fed upload (start upload useBrotli) :=
  ⟨Transfer.inv_init upload, rfl, fun _ => rfl, fun _ => rfl, by simp [start, BodyFlow.init]⟩

structure Sound (enc : Encoder) (isSse : Bool) (upload : Upload) (s : State Source) : Prop where
  flow : BodyFlow.Inv enc isSse s
  fed : Fed upload s

lemma Sound.run (hlaw : enc.Lawful unpack) (h : Sound enc isSse upload s) {acts : List (Act Read Unit)}
    (hrun : run (step enc isSse) s acts = some s') : Sound enc isSse upload s' :=
  ⟨run_invariant (inv_step hlaw) h.flow hrun, run_invariant fed_step h.fed hrun⟩

lemma sound_init (upload : Upload) (useBrotli : Bool) : Sound enc isSse upload (start upload useBrotli) :=
  ⟨inv_init _ useBrotli, fed_init upload useBrotli⟩

/-- The thread waits for the next frame, and its client has got all that came before. -/
structure Waits (isSse : Bool) (unpack : Bytes → Bytes) (s : State Source) : Prop where
  connected : Connected isSse s
  thread : s.thread = .working
  held : s.source.held = []
  queue : (channel s).queue = []
  delivered : s.body.delivered unpack = s.made.flatten

lemma reads_held (hlaw : enc.Lawful unpack) (h : Sound enc isSse upload s) (hc : Connected isSse s)
    (hthread : s.thread = .working) : ∃ acts t, run (step enc isSse) s acts = some t ∧
      t.source.transfer = s.source.transfer ∧ Connected isSse t ∧ t.thread = .working ∧ t.source.held = [] := by
  induction hn : s.source.held.length using Nat.strong_induction_on generalizing s with
  | _ n ih =>
    by_cases hheld : s.source.held = []
    · exact ⟨[], s, rfl, rfl, hc, hthread, hheld⟩
    · let read : State Source := { s with
        source := { s.source with held := s.source.held.drop bufferSize }
        thread := .sending (s.source.held.take bufferSize)
        made := s.made ++ [s.source.held.take bufferSize] }
      have hread : step enc isSse s (.thread .read) = some read := by
        simp [step, BodyFlow.step, hthread, feed, readStep, hheld, State.produce, read]
      have hsound : Sound enc isSse upload read := h.run hlaw (run_single hread)
      have hconnected : Connected isSse read := ⟨hc.connected, hc.awake⟩
      obtain ⟨acts, b, hrun, hsent⟩ := sends_chunk feed hlaw hsound.flow hconnected rfl
      have hless : (s.source.held.drop bufferSize).length < n := by
        rw [List.length_drop, ← hn]
        exact Nat.sub_lt (List.length_pos_of_ne_nil hheld) (by decide)
      obtain ⟨later, t, hlater, ht⟩ := ih _ hless (hsound.run hlaw hrun) hsent rfl rfl
      exact ⟨.thread .read :: (acts ++ later), t,
        run_cons.mpr ⟨read, hread, run_append.mpr ⟨_, hrun, hlater⟩⟩, ht⟩

structure SameUpload (s t : State Source) : Prop where
  frames : t.source.transfer.frames = s.source.transfer.frames
  sent : (channel t).sent = (channel s).sent
  closed : (channel t).closed = (channel s).closed

lemma SameUpload.trans {t u : State Source} (h : SameUpload s t) (h' : SameUpload t u) : SameUpload s u :=
  ⟨h'.frames.trans h.frames, h'.sent.trans h.sent, h'.closed.trans h.closed⟩

def Settles (enc : Encoder) (isSse : Bool) (unpack : Bytes → Bytes) (s : State Source) : Prop :=
  ∃ acts t, run (step enc isSse) s acts = some t ∧ SameUpload s t ∧ (t.body.EndedCleanly ∨ Waits isSse unpack t)

lemma Settles.after {t : State Source} {acts : List (Act Read Unit)} (hrun : run (step enc isSse) s acts = some t)
    (hsame : SameUpload s t) (h : Settles enc isSse unpack t) : Settles enc isSse unpack s := by
  obtain ⟨later, u, hlater, hsame', hu⟩ := h
  exact ⟨acts ++ later, u, run_append.mpr ⟨t, hrun, hlater⟩, hsame.trans hsame', hu⟩

lemma settles_ended (hlaw : enc.Lawful unpack) (h : Sound enc isSse upload s) (hc : Connected isSse s)
    {refused : Bool}
    (hthread : s.thread = .ended refused) : Settles enc isSse unpack s := by
  obtain ⟨acts, b, hrun, hended⟩ := ends feed hlaw h.flow hc hthread
  exact ⟨acts, _, hrun, ⟨rfl, rfl, rfl⟩, .inl hended⟩

lemma settles_working (hlaw : enc.Lawful unpack) (h : Sound enc isSse upload s) (hc : Connected isSse s)
    (hthread : s.thread = .working) : Settles enc isSse unpack s := by
  induction hqueue : (channel s).queue generalizing s with
  | nil =>
    obtain ⟨acts, t, hrun, htransfer, hconnected, hworks, hheld⟩ := reads_held hlaw h hc hthread
    have hsame : SameUpload s t := by constructor <;> simp only [channel, htransfer]
    refine .after hrun hsame ?_
    obtain ⟨later, b, hlater, hclear, _, hdelivered⟩ :=
      clears feed hlaw (h.run hlaw hrun).flow hconnected (by simp [hworks])
    refine ⟨later, _, hlater, ⟨rfl, rfl, rfl⟩, .inr ⟨hclear, hworks, hheld, ?_, hdelivered hworks⟩⟩
    change t.source.transfer.channel.queue = []
    rw [htransfer]
    exact hqueue
  | cons item rest ih =>
    obtain ⟨acts, t, hrun, htransfer, hconnected, hworks, hheld⟩ := reads_held hlaw h hc hthread
    have hsame : SameUpload s t := by constructor <;> simp only [channel, htransfer]
    refine .after hrun hsame ?_
    obtain ⟨later, hrecv, hrest⟩ := Mpsc.recv_of_queue hqueue
    obtain ⟨hsent, hclosed, _⟩ := Mpsc.recv_item hrecv
    rw [channel, ← htransfer] at hrecv hsent hclosed
    cases item with
    | ok bytes =>
      let next : State Source := { t with
        source := { t.source with transfer := { t.source.transfer with channel := later }, held := bytes } }
      have hgenerate : step enc isSse t (.thread .generate) = some next := by
        simp [step, BodyFlow.step, hworks, feed, readStep, hheld, hrecv, State.produce, next]
      have hsound : Sound enc isSse upload next := (h.run hlaw hrun).run hlaw (run_single hgenerate)
      have hnext : Settles enc isSse unpack next := ih hsound ⟨hconnected.connected, hconnected.awake⟩ hworks hrest
      exact .after (run_single hgenerate) ⟨rfl, hsent, hclosed⟩ hnext
    | error err =>
      let next : State Source := State.finish feed { t with
        source := { t.source with transfer := { t.source.transfer with channel := later } } } false
      have hgenerate : step enc isSse t (.thread .generate) = some next := by
        simp [step, BodyFlow.step, hworks, feed, readStep, hheld, hrecv, State.produce, next]
      have hsound : Sound enc isSse upload next := (h.run hlaw hrun).run hlaw (run_single hgenerate)
      have hnext : Settles enc isSse unpack next := settles_ended hlaw hsound
        ⟨hconnected.connected, hconnected.awake.live, hconnected.awake.uncancelled⟩ rfl
      exact .after (run_single hgenerate) ⟨rfl, hsent, hclosed⟩ hnext

lemma settles (hlaw : enc.Lawful unpack) (h : Sound enc isSse upload s) (hc : Connected isSse s) :
    Settles enc isSse unpack s := by
  cases hthread : s.thread with
  | working => exact settles_working hlaw h hc hthread
  | sending chunk =>
    obtain ⟨acts, b, hrun, hconnected⟩ := sends_chunk feed hlaw h.flow hc hthread
    exact .after hrun ⟨rfl, rfl, rfl⟩ (settles_working hlaw (h.run hlaw hrun) hconnected rfl)
  | ended refused => exact settles_ended hlaw h hc hthread

lemma Sound.whole (hlaw : enc.Lawful unpack) (h : Sound enc isSse upload s) (hended : s.body.EndedCleanly) :
    s.body.delivered unpack = uploaded upload ∧ delivered (channel s).sent = uploaded upload := by
  obtain ⟨hthread, hdelivered⟩ := h.flow.endedCleanly hlaw hended
  obtain ⟨hheld, hall⟩ := h.fed.whole hthread
  have hmade := h.fed.made
  rw [hheld, List.append_nil, hall] at hmade
  have hreceived : uploaded upload <+: delivered (channel s).sent :=
    hall ▸ delivered_isPrefix (Mpsc.received_prefix (channel s))
  have hsent : delivered (channel s).sent <+: uploaded upload := delivered_isPrefix h.fed.sent_prefix
  exact ⟨hdelivered.trans hmade, hsent.eq_of_length (hsent.length_le.antisymm hreceived.length_le)⟩

lemma Sound.waits_delivered (h : Sound enc isSse upload s) (hwaits : Waits isSse unpack s) :
    s.body.delivered unpack = delivered (channel s).sent := by
  have hmade := h.fed.made
  rw [hwaits.held, List.append_nil, Mpsc.received_of_queue_nil hwaits.queue] at hmade
  exact hwaits.delivered.trans hmade

def Ends (enc : Encoder) (isSse : Bool) (s : State Source) : Prop :=
  ∃ acts t, run (step enc isSse) s acts = some t ∧ t.body.EndedCleanly

lemma Ends.after {t : State Source} {acts : List (Act Read Unit)} (hrun : run (step enc isSse) s acts = some t)
    (h : Ends enc isSse t) : Ends enc isSse s := by
  obtain ⟨later, u, hlater, hu⟩ := h
  exact ⟨acts ++ later, u, run_append.mpr ⟨t, hrun, hlater⟩, hu⟩

-- An upload that has ended: what it left in the channel is read, and then its end.
lemma ends_closed (hlaw : enc.Lawful unpack) (h : Sound enc isSse upload s) (hc : Connected isSse s)
    (hclosed : (channel s).closed = true) : Ends enc isSse s := by
  obtain ⟨acts, t, hrun, hsame, hended | hwaits⟩ := settles hlaw h hc
  · exact ⟨acts, t, hrun, hended⟩
  · have hclosed : t.source.transfer.channel.closed = true := hsame.closed.trans hclosed
    have hrecv : t.source.transfer.channel.recv = (.disconnected, t.source.transfer.channel) := by
      have hempty : t.source.transfer.channel.queue = [] := hwaits.queue
      rw [Mpsc.recv_of_queue_nil hempty, if_pos hclosed]
    have hgenerate : step enc isSse t (.thread .generate) = some (State.finish feed t false) := by
      simp only [step, BodyFlow.step, hwaits.thread, feed, readStep, hwaits.held, hrecv, ne_eq, not_true_eq_false,
        if_false, Option.map_some, State.produce]
      rfl
    have hsound := (h.run hlaw hrun).run hlaw (run_single hgenerate)
    have hconnected : Connected isSse (State.finish feed t false) :=
      ⟨hwaits.connected.connected, hwaits.connected.awake.live, hwaits.connected.awake.uncancelled⟩
    obtain ⟨later, b, hlater, hended⟩ := ends feed hlaw hsound.flow hconnected rfl
    exact .after hrun (.after (run_single hgenerate) ⟨later, _, hlater, hended⟩)

lemma frame_of_waits (h : Sound enc isSse upload s) (hwaits : Waits isSse unpack s)
    (hopen : (channel s).closed = false) :
    ∃ transfer : Transfer, transfer.frames = s.source.transfer.frames.tail ∧
      (s.source.transfer.frames = [] → transfer.channel.closed = true) ∧
      step enc isSse s (.outside ()) = some { s with source := { s.source with transfer := transfer } } := by
  have hqueue : s.source.transfer.channel.queue = [] := hwaits.queue
  have hopen : s.source.transfer.channel.closed = false := hopen
  have hattached : s.source.dropped = false := h.fed.attached (by simp [hwaits.thread])
  obtain ⟨transfer, hstep, hframes, hlast⟩ : ∃ transfer, s.source.transfer.step .frame = some transfer ∧
      transfer.frames = s.source.transfer.frames.tail ∧
      (s.source.transfer.frames = [] → transfer.channel.closed = true) := by
    cases hframes : s.source.transfer.frames with
    | nil => exact ⟨_, by simp [Transfer.step, hopen, hframes]; rfl, by simp, fun _ => rfl⟩
    | cons frame rest =>
      rcases frame with err | (bytes | _)
      · exact ⟨_, by simp [Transfer.step, hopen, hframes, hqueue, Transfer.capacity]; rfl, rfl, by simp⟩
      · exact ⟨_, by simp [Transfer.step, hopen, hframes, hqueue, Transfer.capacity]; rfl, rfl, by simp⟩
      · exact ⟨_, by simp [Transfer.step, hopen, hframes]; rfl, rfl, by simp⟩
  refine ⟨transfer, hframes, hlast, ?_⟩
  simp [step, BodyFlow.step, feed, frameStep, hattached, hstep]

lemma ends_after_frame (hlaw : enc.Lawful unpack) (h : Sound enc isSse upload s) (hc : Connected isSse s)
    (hnext : ∀ t : State Source, Sound enc isSse upload t → Connected isSse t →
      t.source.transfer.frames = s.source.transfer.frames.tail →
        (s.source.transfer.frames = [] → (channel t).closed = true) → Ends enc isSse t) : Ends enc isSse s := by
  obtain ⟨acts, t, hrun, hsame, hended | hwaits⟩ := settles hlaw h hc
  · exact ⟨acts, t, hrun, hended⟩
  · have hsound := h.run hlaw hrun
    refine .after hrun ?_
    cases hclosed : (channel t).closed with
    | true => exact ends_closed hlaw hsound hwaits.connected hclosed
    | false =>
      obtain ⟨transfer, htail, hlast, hframe⟩ := frame_of_waits hsound hwaits hclosed
      rw [hsame.frames] at htail hlast
      exact .after (run_single hframe) (hnext _ (hsound.run hlaw (run_single hframe))
        ⟨hwaits.connected.connected, hwaits.connected.awake⟩ htail hlast)

lemma ends_connected (hlaw : enc.Lawful unpack) (h : Sound enc isSse upload s) (hc : Connected isSse s) :
    Ends enc isSse s := by
  induction hframes : s.source.transfer.frames generalizing s with
  | nil =>
    apply ends_after_frame hlaw h hc
    intro t hsound hconnected _ hlast
    exact ends_closed hlaw hsound hconnected (hlast hframes)
  | cons frame frames ih =>
    apply ends_after_frame hlaw h hc
    intro t hsound hconnected htail _
    exact ih hsound hconnected (by rw [htail, hframes, List.tail_cons])

structure Echoes (enc : Encoder) (isSse : Bool) (unpack : Bytes → Bytes) (upload : Upload) (s : State Source) :
    Prop where
  inOrder : s.body.delivered unpack <+: delivered (channel s).sent
  whole : s.body.EndedCleanly → s.body.delivered unpack = uploaded upload
  prompt : Connected isSse s → ∃ acts t, run (step enc isSse) s acts = some t ∧ SameUpload s t ∧
    t.body.delivered unpack = delivered (channel s).sent
  ends : Connected isSse s → Ends enc isSse s

/-- A request's body that is handed on as it is: what was uploaded reaches the client before more is uploaded, and
a clean end follows all of it. -/
theorem echo_delivers (hlaw : enc.Lawful unpack) {useBrotli : Bool} {acts : List (Act Read Unit)}
    (hrun : run (step enc isSse) (start upload useBrotli) acts = some s) : Echoes enc isSse unpack upload s := by
  have h : Sound enc isSse upload s := (sound_init upload useBrotli).run hlaw hrun
  refine ⟨?_, fun hended => (h.whole hlaw hended).1, fun hc => ?_, ends_connected hlaw h⟩
  · have hmade : s.made.flatten <+: delivered (channel s).received := ⟨_, h.fed.made⟩
    exact (h.flow.delivered_prefix hlaw).trans
      (hmade.trans (delivered_isPrefix (Mpsc.received_prefix (channel s))))
  · obtain ⟨later, t, hlater, hsame, ht⟩ := settles hlaw h hc
    refine ⟨later, t, hlater, hsame, ?_⟩
    rw [← hsame.sent]
    have hsound := h.run hlaw hlater
    rcases ht with hended | hwaits
    · exact (hsound.whole hlaw hended).1.trans (hsound.whole hlaw hended).2.symm
    · exact hsound.waits_delivered hwaits

def cutUpload : Upload := [.ok (.data [1, 2]), .ok (.data [3]), .error "reset".toList]

def cutRun : List (Act Read Unit) :=
  [.outside (), .thread .generate, .thread .read, .send, .body .poll, .body .look, .body .recv,
    .body .look, .body .recv,
    .outside (), .outside (), .thread .generate, .thread .read, .send, .thread .generate, .body .poll, .body .look,
    .body .recv, .body .look, .body .recv]

theorem echo_delivers_cut : ∃ s, run (step .framed false) (start cutUpload true) cutRun = some s ∧
    s.body.EndedCleanly ∧ s.body.delivered Encoder.unframe = [1, 2, 3] := by
  obtain ⟨s, hs⟩ := Option.isSome_iff_exists.mp
    (rfl : (run (step .framed false) (start cutUpload true) cutRun).isSome = true)
  have hfinish : (run (step .framed false) (start cutUpload true) cutRun).map
    (fun s => s.body.body.finishWritten) =
      some true := rfl
  rw [hs] at hfinish
  have hended : s.body.EndedCleanly := .inr (Option.some.inj hfinish)
  exact ⟨s, hs, hended, (echo_delivers Encoder.framed_lawful hs).whole hended⟩

end HttpNu.Handler.Echo
