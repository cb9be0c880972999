import HttpNu.Library.Log
import HttpNu.Serve

/-! Handlers from a topic of the store: the first read, the watcher that follows the topic, and the server. -/

namespace HttpNu.Store

open Text Library Engine

variable {σ β κ : Type}

structure Frame where
  id : Nat
  topic : Str
  hash : Option Nat
  deriving DecidableEq

/-- What a step of the source finds outside it; every step may find something else. -/
structure World (σ β κ : Type) where
  nu : Interpreter σ β κ
  casRead : Nat → Option Bytes
  loadModules : List Frame → Nat → σ → σ

structure Config (σ : Type) where
  topic : Str
  storePath : Str
  watch : Bool
  baseEngine : Engine σ
  matchesTopic : Str → Bool

inductive Phase where
  | unread
  | opened (lastId : Option Nat)
  | watching (lastId cursor : Option Nat)
  | done
  deriving DecidableEq

structure State (σ : Type) where
  frames : List Frame
  phase : Phase
  server : Serve.State σ
  initial : Option (Engine σ)
  /-- the frames of the topic that the watcher has taken, each with the engine made of it -/
  considered : List (Frame × Option (Engine σ))

inductive Act (σ β κ : Type) where
  | append (frame : Frame)
  | read (w : World σ β κ)
  | spawn
  | recv (w : World σ β κ) (frame : Frame)
  | serve (act : Serve.Act σ β κ)

def init : State σ := ⟨[], .unread, Serve.init, none, []⟩

def topicPlaceholder : String := String.join <| List.map (· ++ "\n") [
  "# topic-placeholder.nu - Default handler served when --topic is used",
  "# but the topic doesn't exist yet. Also works as a standalone demo:",
  "#",
  "#   http-nu :3001 examples/topic-placeholder.nu",
  "",
  "use http-nu/html *",
  "",
  "let topic = \"__TOPIC__\"",
  "let store_path = \"__STORE_PATH__\"",
  "",
  "\x7b|req|",
  "  match $req.path \x7b",
  "    \"/request\" => \x7b",
  "      HTML (HEAD (TITLE \"http-nu\")) (BODY",
  "      (H1 (A \x7bhref: \"/\"\x7d \"http-nu\"))",
  "      (H2 \"request\")",
  "      (PRE ($req | reject headers | to yaml))",
  "      (H2 \"headers\")",
  "      (PRE ($req.headers | to yaml)))",
  "    \x7d",
  "",
  "    _ => \x7b",
  "      HTML (HEAD (TITLE \"http-nu\")) (BODY",
  "      (H1 \"http-nu\")",
  "      (P $\"Waiting for topic \" (CODE $topic) \" ...\")",
  "      (P \"Append a handler closure to start serving:\")",
  "      (PRE $\"'\x7b|req| \\\"hello, world\\\"\x7d' | xs append ($store_path)/sock ($topic)\")",
  "      (P \"With \" (CODE \"-w\") \", the server will automatically reload when the topic is updated.\")",
  "      (HR)",
  "      (P (A \x7bhref: \"/request\"\x7d \"request info\"))) | " ++
    "metadata set \x7b merge \x7b'http.response': \x7bstatus: 503\x7d\x7d \x7d",
  "    \x7d",
  "  \x7d",
  "\x7d"]

def placeholderClosure (topic storePath : Str) : Str :=
  ((topicPlaceholder.replace "__TOPIC__" (String.ofList topic)).replace "__STORE_PATH__"
    (String.ofList storePath)).toList

variable (cfg : Config σ)

/-- The last frame that the topic's read returns decides; without its text nothing was read. -/
def readTopicContent (w : World σ β κ) (frames : List Frame) : Option (Str × Nat) := do
  let frame ← (frames.filter (fun frame => cfg.matchesTopic frame.topic)).getLast?
  let hash ← frame.hash
  let bytes ← w.casRead hash
  let content ← fromUtf8 bytes
  return (content, frame.id)

def initialScript (w : World σ β κ) (frames : List Frame) : Str :=
  ((readTopicContent cfg w frames).map Prod.fst).getD (placeholderClosure cfg.topic cfg.storePath)

def enrichEngine (w : World σ β κ) (frames : List Frame) (base : Engine σ) (asOf : Option Nat) : Engine σ :=
  match asOf with
  | some id => { base with state := w.loadModules frames id base.state }
  | none => base

def loadScript (w : World σ β κ) (frames : List Frame) (asOf : Option Nat) (server : Serve.State σ)
    (script : Str) :
    Option (Serve.State σ × Option (Engine σ)) :=
  let enriched := enrichEngine w frames cfg.baseEngine asOf
  (Serve.step enriched server (.script w.nu script none)).map fun server' =>
    (server', (scriptToEngine w.nu enriched server.fresh script none).toOption)

def considerFrame (w : World σ β κ) (frames : List Frame) (frame : Frame) (server : Serve.State σ) :
    Option (Serve.State σ × Option (Engine σ)) :=
  match frame.hash with
  | none => some (server, none)
  | some hash =>
    match w.casRead hash with
    | none => some (server, none)
    | some bytes =>
      match fromUtf8 bytes with
      | none => some (server, none)
      | some script => loadScript cfg w frames (some frame.id) server script

def State.newer (s : State σ) (after : Option Nat) : List Frame :=
  later Frame.id after (s.frames.filter (fun frame => frame.topic = cfg.topic))

/-- What a read with follow may yield next: of the topic the first frame after the last one, of others any. -/
def State.yields (s : State σ) (cursor : Option Nat) (frame : Frame) : Bool :=
  frame.topic ≠ cfg.topic || (s.newer cfg cursor).head? = some frame

def step (s : State σ) : Act σ β κ → Option (State σ)
  | .append frame =>
    if s.frames.all (fun f => f.id < frame.id) then some { s with frames := s.frames ++ [frame] } else none
  | .read w =>
    match s.phase with
    | .unread =>
      let lastId := (readTopicContent cfg w s.frames).map Prod.snd
      (loadScript cfg w s.frames lastId s.server (initialScript cfg w s.frames)).map fun (server, engine) =>
        { s with phase := .opened lastId, server := server, initial := engine }
    | _ => none
  | .spawn =>
    match s.phase with
    | .opened lastId =>
      if s.server.sending.isSome then none
      else if cfg.watch then some { s with phase := .watching lastId lastId }
      else (Serve.step cfg.baseEngine s.server (.closeSource : Serve.Act σ β κ)).map fun server =>
        { s with phase := .done, server := server }
    | _ => none
  | .recv w frame =>
    match s.phase with
    | .watching lastId cursor =>
      if s.server.sending.isSome || !s.yields cfg cursor frame then none
      else if frame.topic ≠ cfg.topic then some s
      else
        (considerFrame cfg w s.frames frame s.server).map fun (server, engine) =>
          { s with
            phase := .watching lastId (some frame.id)
            server := server
            considered := s.considered ++ [(frame, engine)] }
    | _ => none
  | .serve act =>
    if act.ofServer then
      (Serve.step cfg.baseEngine s.server act).map fun server => { s with server := server }
    else none

def outcome (w : World σ β κ) (frames : List Frame) (fresh : Nat) (frame : Frame) : Option (Engine σ) := do
  let hash ← frame.hash
  let bytes ← w.casRead hash
  let script ← fromUtf8 bytes
  (scriptToEngine w.nu (enrichEngine w frames cfg.baseEngine (some frame.id)) fresh script none).toOption

structure Undisturbed (server server' : Serve.State σ) : Prop where
  channel : server'.channel = server.channel
  sending : server'.sending = server.sending
  installed : server'.installed = server.installed
  updater : server'.updater = server.updater
  cancelled : server'.cancelled = server.cancelled
  requests : server'.requests = server.requests
  shutdown : server'.shutdown = server.shutdown

variable (β κ) in
def ReadInitially (frames : List Frame) (lastId : Option Nat) (initial : Option (Engine σ)) : Prop :=
  ∃ (w : World σ β κ) (seen : List Frame) (fresh : Nat), seen <+: frames ∧
    lastId = (readTopicContent cfg w seen).map Prod.snd ∧
    initial = (scriptToEngine w.nu (enrichEngine w seen cfg.baseEngine lastId) fresh
      (initialScript cfg w seen) none).toOption

variable (β κ) in
def Judged (frames : List Frame) (frame : Frame) (engine : Option (Engine σ)) : Prop :=
  ∃ (w : World σ β κ) (seen : List Frame) (fresh : Nat), seen <+: frames ∧ engine = outcome cfg w seen fresh frame

variable (β κ) in
structure Inv (s : State σ) : Prop where
  server : Serve.Inv s.server
  live : s.phase ≠ .done → Serve.Live s.server
  ascending : Ascending Frame.id s.frames
  unread : s.phase = .unread → s.initial = none
  unwatched : (∀ lastId cursor, s.phase ≠ .watching lastId cursor) → s.considered = []
  accepted : s.server.accepted = s.initial.toList ++ s.considered.filterMap Prod.snd
  opened : ∀ lastId, s.phase = .opened lastId →
    Standing Frame.id s.frames lastId ∧ ReadInitially β κ cfg s.frames lastId s.initial
  watching : ∀ lastId cursor, s.phase = .watching lastId cursor →
    Standing Frame.id s.frames lastId ∧ Standing Frame.id s.frames cursor ∧
      ReadInitially β κ cfg s.frames lastId s.initial ∧
      s.considered.map Prod.fst ++ s.newer cfg cursor = s.newer cfg lastId
  judged : ∀ c ∈ s.considered, Judged β κ cfg s.frames c.1 c.2

variable {cfg} {s s' : State σ} {w : World σ β κ} {server server' : Serve.State σ}

lemma Undisturbed.refl (server : Serve.State σ) : Undisturbed server server :=
  ⟨rfl, rfl, rfl, rfl, rfl, rfl, rfl⟩

lemma ReadInitially.mono {frames frames' : List Frame} {lastId : Option Nat} {initial : Option (Engine σ)}
    (h : ReadInitially β κ cfg frames lastId initial) (hp : frames <+: frames') :
    ReadInitially β κ cfg frames' lastId initial := by
  obtain ⟨w, seen, fresh, hseen, hread⟩ := h
  exact ⟨w, seen, fresh, hseen.trans hp, hread⟩

lemma Judged.mono {frames frames' : List Frame} {frame : Frame} {engine : Option (Engine σ)}
    (h : Judged β κ cfg frames frame engine) (hp : frames <+: frames') :
    Judged β κ cfg frames' frame engine := by
  obtain ⟨w, seen, fresh, hseen, hengine⟩ := h
  exact ⟨w, seen, fresh, hseen.trans hp, hengine⟩

structure Loaded (server server' : Serve.State σ) (engine : Option (Engine σ)) : Prop where
  inv : Serve.Inv server → Serve.Inv server'
  live : Serve.Live server → Serve.Live server'
  accepted : server'.accepted = server.accepted ++ engine.toList
  undisturbed : engine = none → Undisturbed server server'

lemma loaded_nothing (server : Serve.State σ) : Loaded server server none :=
  ⟨id, id, by simp, fun _ => .refl server⟩

lemma loadScript_spec {frames : List Frame} {asOf : Option Nat} {script : Str} {engine : Option (Engine σ)}
    (h : loadScript cfg w frames asOf server script = some (server', engine)) :
    Loaded server server' engine ∧
      engine = (scriptToEngine w.nu (enrichEngine w frames cfg.baseEngine asOf)
      server.fresh script none).toOption := by
  obtain ⟨t, hstep, heq⟩ := Option.map_eq_some_iff.mp h
  obtain ⟨rfl, rfl⟩ := Prod.mk.inj heq
  refine ⟨⟨fun hinv => Serve.inv_step _ _ _ hinv hstep, fun hlive => Serve.live_step (by simp) hlive hstep, ?_,
    fun hnone => ?_⟩, rfl⟩
  · rw [Serve.State.accepted, Serve.step_script hstep, List.filterMap_append, Serve.State.accepted]
    cases scriptToEngine w.nu (enrichEngine w frames cfg.baseEngine asOf) server.fresh script none <;> rfl
  · cases hresult : scriptToEngine w.nu (enrichEngine w frames cfg.baseEngine asOf) server.fresh script none with
    | error err =>
      rw [Serve.step_rejected hresult hstep]
      exact ⟨rfl, rfl, rfl, rfl, rfl, rfl, rfl⟩
    | ok engine => simp [hresult, Except.toOption] at hnone

lemma loadScript_taken (frames : List Frame) (asOf : Option Nat) (script : Str) (hs : server.sending = none)
    (hl : Serve.Live server) : ∃ r, loadScript cfg w frames asOf server script = some r := by
  obtain ⟨t, ht⟩ := Serve.script_taken w.nu script none hs hl
  exact ⟨_, by rw [loadScript, ht, Option.map_some]⟩

lemma considerFrame_spec {frames : List Frame} {frame : Frame} {engine : Option (Engine σ)}
    (h : considerFrame cfg w frames frame server = some (server', engine)) :
    Loaded server server' engine ∧ engine = outcome cfg w frames server.fresh frame := by
  rw [considerFrame] at h
  cases hhash : frame.hash with
  | none =>
    obtain ⟨rfl, rfl⟩ := Prod.mk.inj (Option.some.inj (by simpa only [hhash] using h))
    exact ⟨loaded_nothing _, by simp [outcome, hhash]⟩
  | some hash =>
    cases hread : w.casRead hash with
    | none =>
      obtain ⟨rfl, rfl⟩ := Prod.mk.inj (Option.some.inj (by simpa only [hhash, hread] using h))
      exact ⟨loaded_nothing _, by simp [outcome, hhash, hread]⟩
    | some bytes =>
      cases htext : fromUtf8 bytes with
      | none =>
        obtain ⟨rfl, rfl⟩ := Prod.mk.inj (Option.some.inj (by simpa only [hhash, hread, htext] using h))
        exact ⟨loaded_nothing _, by simp [outcome, hhash, hread, htext]⟩
      | some script =>
        simp only [hhash, hread, htext] at h
        obtain ⟨hloaded, hengine⟩ := loadScript_spec h
        exact ⟨hloaded, by simp [outcome, hhash, hread, htext, hengine]⟩

variable (cfg w) in
lemma considerFrame_taken (frames : List Frame) (frame : Frame) (hs : server.sending = none)
    (hl : Serve.Live server) : ∃ r, considerFrame cfg w frames frame server = some r := by
  rw [considerFrame]
  split
  · exact ⟨_, rfl⟩
  · split
    · exact ⟨_, rfl⟩
    · split
      · exact ⟨_, rfl⟩
      · exact loadScript_taken frames _ _ hs hl

lemma inv_init : Inv β κ cfg (init : State σ) where
  server := Serve.inv_init
  live _ := Serve.live_init
  ascending := List.Pairwise.nil
  unread _ := rfl
  unwatched _ := rfl
  accepted := rfl
  opened lastId h := by simp [init] at h
  watching lastId cursor h := by simp [init] at h
  judged c h := by simp [init] at h

lemma newer_append {frame : Frame} {after : Option Nat} (h : Standing Frame.id s.frames after)
    (hid : ∀ f ∈ s.frames, f.id < frame.id) :
    State.newer cfg { s with frames := s.frames ++ [frame] } after =
      s.newer cfg after ++ [frame].filter (fun f => f.topic = cfg.topic) := by
  simp only [State.newer, List.filter_append, later_append]
  congr 1
  apply List.filter_eq_self.mpr
  intro f hf
  obtain rfl := List.mem_singleton.mp (List.mem_of_mem_filter hf)
  exact h.above hid

lemma inv_append {frame : Frame} (h : Inv β κ cfg s)
    (hs : step cfg s (.append frame : Act σ β κ) = some s') : Inv β κ cfg s' := by
  simp only [step] at hs
  split at hs
  · rename_i hall
    obtain rfl := Option.some.inj hs
    have hid : ∀ f ∈ s.frames, f.id < frame.id := by simpa using hall
    have hp : s.frames <+: s.frames ++ [frame] := List.prefix_append _ _
    refine ⟨h.server, h.live, h.ascending.append hid, h.unread, h.unwatched, h.accepted,
      fun lastId hphase => ?_, fun lastId cursor hphase => ?_, fun c hc => (h.judged c hc).mono hp⟩
    · obtain ⟨hlast, hread⟩ := h.opened lastId hphase
      exact ⟨hlast.mono hp, hread.mono hp⟩
    · obtain ⟨hlast, hcursor, hread, heq⟩ := h.watching lastId cursor hphase
      refine ⟨hlast.mono hp, hcursor.mono hp, hread.mono hp, ?_⟩
      rw [newer_append hcursor hid, newer_append hlast hid, ← List.append_assoc, heq]
  · simp at hs

lemma standing_read (w : World σ β κ) (frames : List Frame) :
    Standing Frame.id frames ((readTopicContent cfg w frames).map Prod.snd) := by
  intro id hid
  obtain ⟨⟨content, _⟩, hread, rfl⟩ := Option.map_eq_some_iff.mp hid
  obtain ⟨frame, hframe, hread⟩ := Option.bind_eq_some_iff.mp hread
  obtain ⟨hash, _, hread⟩ := Option.bind_eq_some_iff.mp hread
  obtain ⟨bytes, _, hread⟩ := Option.bind_eq_some_iff.mp hread
  obtain ⟨text, _, hread⟩ := Option.bind_eq_some_iff.mp hread
  obtain ⟨_, rfl⟩ := Prod.mk.inj (Option.some.inj hread)
  exact ⟨frame, List.mem_of_mem_filter (List.mem_of_getLast? hframe), rfl⟩

lemma inv_read (h : Inv β κ cfg s) (hs : step cfg s (.read w) = some s') : Inv β κ cfg s' := by
  simp only [step] at hs
  split at hs
  · rename_i hphase
    obtain ⟨⟨server, engine⟩, hload, rfl⟩ := Option.map_eq_some_iff.mp hs
    obtain ⟨hloaded, hengine⟩ := loadScript_spec hload
    have hnone : s.considered = [] := h.unwatched (by simp [hphase])
    have hempty : s.server.accepted = [] := by simp [h.accepted, h.unread hphase, hnone]
    refine ⟨hloaded.inv h.server, fun _ => hloaded.live (h.live (by simp [hphase])), h.ascending, by simp,
      fun _ => hnone, ?_, fun lastId hlast => ?_, by simp, h.judged⟩
    · simp [hloaded.accepted, hempty, hnone]
    · obtain rfl := Phase.opened.inj hlast
      exact ⟨standing_read w s.frames, w, s.frames, s.server.fresh, List.prefix_rfl, rfl, hengine⟩
  · simp at hs

lemma inv_spawn (h : Inv β κ cfg s) (hs : step cfg s (.spawn : Act σ β κ) = some s') : Inv β κ cfg s' := by
  simp only [step] at hs
  split at hs
  · rename_i lastId hphase
    obtain ⟨hlast, hread⟩ := h.opened lastId hphase
    have hnone : s.considered = [] := h.unwatched (by simp [hphase])
    split at hs
    · simp at hs
    · split at hs
      · obtain rfl := Option.some.inj hs
        refine ⟨h.server, fun _ => h.live (by simp [hphase]), h.ascending, by simp, fun _ => hnone, h.accepted,
          by simp, fun lastId' cursor hwatch => ?_, h.judged⟩
        obtain ⟨rfl, rfl⟩ := Phase.watching.inj hwatch
        exact ⟨hlast, hlast, hread, by rw [hnone]; rfl⟩
      · obtain ⟨server, hclose, rfl⟩ := Option.map_eq_some_iff.mp hs
        have hacc : server.accepted = s.server.accepted := by
          rcases Serve.step_results hclose with hres | ⟨_, _, _, hact, _⟩
          · rw [Serve.State.accepted, Serve.State.accepted, hres]
          · cases hact
        exact ⟨Serve.inv_step _ _ _ h.server hclose, by simp, h.ascending, by simp, fun _ => hnone,
          hacc.trans h.accepted, by simp, by simp, h.judged⟩
  · simp at hs

lemma recv_cases {frame : Frame} (hs : step cfg s (.recv w frame) = some s') :
    ∃ lastId cursor, s.phase = .watching lastId cursor ∧ s.server.sending = none ∧
      ((frame.topic ≠ cfg.topic ∧ s' = s) ∨
        (frame.topic = cfg.topic ∧ (∃ rest, s.newer cfg cursor = frame :: rest) ∧
          ∃ server engine, considerFrame cfg w s.frames frame s.server = some (server, engine) ∧
            s' = { s with
              phase := .watching lastId (some frame.id)
              server := server
              considered := s.considered ++ [(frame, engine)] })) := by
  simp only [step] at hs
  split at hs
  · rename_i lastId cursor hphase
    split at hs
    · simp at hs
    · rename_i hfree
      simp only [Bool.or_eq_true, not_or, Bool.not_eq_true, Option.isSome_eq_false_iff,
        Option.isNone_iff_eq_none, Bool.not_eq_eq_eq_not] at hfree
      obtain ⟨hsend, hyields⟩ := hfree
      refine ⟨lastId, cursor, hphase, hsend, ?_⟩
      split at hs
      · rename_i htopic
        exact Or.inl ⟨htopic, (Option.some.inj hs).symm⟩
      · rename_i htopic
        obtain ⟨⟨server, engine⟩, hconsider, rfl⟩ := Option.map_eq_some_iff.mp hs
        refine Or.inr ⟨not_not.mp htopic, ?_, server, engine, hconsider, rfl⟩
        have hhead : (s.newer cfg cursor).head? = some frame := by
          simpa [State.yields, not_not.mp htopic] using hyields
        exact List.head?_eq_some_iff.mp hhead
  · simp at hs

lemma inv_recv {frame : Frame} (h : Inv β κ cfg s) (hs : step cfg s (.recv w frame) = some s') :
    Inv β κ cfg s' := by
  obtain ⟨lastId, cursor, hphase, _, ⟨_, rfl⟩ | ⟨htopic, ⟨rest, hnext⟩, server, engine, hconsider, rfl⟩⟩ :=
    recv_cases hs
  · exact h
  · obtain ⟨hlast, _, hread, heq⟩ := h.watching lastId cursor hphase
    obtain ⟨hloaded, hengine⟩ := considerFrame_spec hconsider
    have hmem : frame ∈ s.frames :=
      List.mem_of_mem_filter (List.mem_of_mem_filter (hnext ▸ List.mem_cons_self : frame ∈ s.newer cfg cursor))
    have hrest : s.newer cfg (some frame.id) = rest := later_of_cons (h.ascending.filter _) hnext
    refine ⟨hloaded.inv h.server, fun _ => hloaded.live (h.live (by simp [hphase])), h.ascending, by simp,
      fun hno => absurd rfl (hno lastId (some frame.id)), ?_, by simp, fun lastId' cursor' hwatch => ?_,
      fun c hc => ?_⟩
    · rw [hloaded.accepted, h.accepted, List.append_assoc, List.filterMap_append]
      cases engine <;> rfl
    · obtain ⟨rfl, rfl⟩ := Phase.watching.inj hwatch
      refine ⟨hlast, standing_of_mem hmem, hread, ?_⟩
      calc (s.considered ++ [(frame, engine)]).map Prod.fst ++ s.newer cfg (some frame.id)
          = s.considered.map Prod.fst ++ (frame :: rest) := by simp [hrest]
        _ = s.newer cfg lastId := by rw [← hnext, heq]
    · rcases List.mem_append.mp hc with hc | hc
      · exact h.judged c hc
      · obtain rfl := List.mem_singleton.mp hc
        exact ⟨w, s.frames, s.server.fresh, List.prefix_rfl, hengine⟩

lemma inv_serve {act : Serve.Act σ β κ} (h : Inv β κ cfg s) (hs : step cfg s (.serve act) = some s') :
    Inv β κ cfg s' := by
  simp only [step] at hs
  split at hs
  · rename_i hact
    obtain ⟨server, hstep, rfl⟩ := Option.map_eq_some_iff.mp hs
    have hclose : act ≠ .closeSource := by
      rintro rfl
      cases hact
    exact ⟨Serve.inv_step _ _ _ h.server hstep, fun hphase => Serve.live_step hclose (h.live hphase) hstep,
      h.ascending, h.unread, h.unwatched, (Serve.accepted_ofServer hact hstep).trans h.accepted,
      h.opened, h.watching, h.judged⟩
  · simp at hs

lemma inv_step (s : State σ) (a : Act σ β κ) (s' : State σ) (h : Inv β κ cfg s) (hs : step cfg s a = some s') :
    Inv β κ cfg s' := by
  cases a with
  | append frame => exact inv_append h hs
  | read w => exact inv_read h hs
  | spawn => exact inv_spawn h hs
  | recv w frame => exact inv_recv h hs
  | serve act => exact inv_serve h hs

lemma inv_run {acts : List (Act σ β κ)} (h : run (step cfg) init acts = some s) : Inv β κ cfg s :=
  run_invariant inv_step inv_init h

lemma run_serve {acts : List (Serve.Act σ β κ)} (hacts : ∀ a ∈ acts, a.ofServer)
    (h : run (Serve.step cfg.baseEngine) s.server acts = some server) :
    run (step cfg) s (acts.map .serve) = some { s with server := server } := by
  refine run_embed (fun server => { s with server := server }) Act.serve (fun t t' a ha hs => ?_) hacts h
  simp only [step, ha, if_true, hs, Option.map_some]

lemma run_sent (h : Inv β κ cfg s) (hphase : s.phase ≠ .done) :
    ∃ (acts : List (Serve.Act σ β κ)) (server : Serve.State σ),
      run (step cfg) s (acts.map .serve) = some { s with server := server } ∧ server.sending = none := by
  obtain ⟨acts, server, hacts, hrun, hsent⟩ := Serve.leads_sent β κ cfg.baseEngine (h.live hphase)
  exact ⟨acts, server, run_serve hacts hrun, hsent⟩

def State.lastAccepted (s : State σ) : Option (Engine σ) :=
  (s.considered.filterMap Prod.snd).getLast?.or s.initial

variable (cfg) in
structure CaughtUp (s : State σ) (lastId : Option Nat) : Prop where
  read : ∃ cursor, s.phase = .watching lastId cursor ∧ s.newer cfg cursor = []
  sent : s.server.sending = none

lemma recv_taken (w : World σ β κ) {lastId cursor : Option Nat} {frame : Frame} {rest : List Frame}
    (hphase : s.phase = .watching lastId cursor) (hsend : s.server.sending = none) (hlive : Serve.Live s.server)
    (hnext : s.newer cfg cursor = frame :: rest) :
    ∃ server engine, step cfg s (.recv w frame) = some { s with
      phase := .watching lastId (some frame.id)
      server := server
      considered := s.considered ++ [(frame, engine)] } := by
  obtain ⟨⟨server, engine⟩, hconsider⟩ := considerFrame_taken cfg w s.frames frame hsend hlive
  have hmem : frame ∈ s.newer cfg cursor := hnext ▸ List.mem_cons_self
  have htopic : frame.topic = cfg.topic := by simpa using List.of_mem_filter (List.mem_of_mem_filter hmem)
  have hyields : s.yields cfg cursor frame = true := by simp [State.yields, hnext]
  refine ⟨server, engine, ?_⟩
  simp [step, hphase, hsend, hyields, htopic, hconsider]

-- One frame more is considered each time; between two of them the server alone moves.
lemma catchesUp (w : World σ β κ) {lastId cursor : Option Nat} (h : Inv β κ cfg s)
    (hphase : s.phase = .watching lastId cursor) :
    ∃ (acts : List (Act σ β κ)) (s' : State σ), (∀ w' frame, .recv w' frame ∈ acts → w' = w) ∧
      run (step cfg) s acts = some s' ∧ s'.frames = s.frames ∧ CaughtUp cfg s' lastId := by
  induction hnext : s.newer cfg cursor generalizing s cursor with
  | nil =>
    obtain ⟨acts, server, hserve, hsent⟩ := run_sent h (by simp [hphase])
    exact ⟨acts.map .serve, _, by simp, hserve, rfl, ⟨cursor, hphase, hnext⟩, hsent⟩
  | cons frame rest ih =>
    obtain ⟨acts, server, hserve, hsent⟩ := run_sent h (by simp [hphase])
    have hinv : Inv β κ cfg { s with server := server } := run_invariant inv_step h hserve
    obtain ⟨server', engine, hrecv⟩ := recv_taken w (s := { s with server := server }) hphase hsent
      (hinv.live (by simp [hphase])) hnext
    have hrest : s.newer cfg (some frame.id) = rest := later_of_cons (h.ascending.filter _) hnext
    obtain ⟨acts', s', hworld, hrun', hframes, hcaught⟩ := ih (inv_step _ _ _ hinv hrecv) rfl hrest
    refine ⟨acts.map .serve ++ .recv w frame :: acts', s', fun w' frame' hmem => ?_,
      run_append.mpr ⟨_, hserve, run_cons.mpr ⟨_, hrecv, hrun'⟩⟩, hframes, hcaught⟩
    simp only [List.mem_append, List.mem_map, reduceCtorEq, and_false, exists_false, false_or, List.mem_cons,
      Act.recv.injEq] at hmem
    rcases hmem with ⟨rfl, _⟩ | hmem
    · rfl
    · exact hworld w' frame' hmem

def sampleConfig : Config Unit := ⟨"t".toList, [], true, ⟨(), none, 0⟩, (· = "t".toList)⟩

end HttpNu.Store
