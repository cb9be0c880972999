import HttpNu.Library.Debounce
import HttpNu.Serve

/-! `file_source`: the first read of the script, the watcher of its directory, and the server. -/

namespace HttpNu.FileSource

open Text Library Engine

variable {τ σ β κ : Type}

inductive EventKind where
  | any
  | access
  | create
  | modify
  | remove
  | other
  deriving DecidableEq

inductive Notification where
  | event (kind : EventKind)
  | error (text : Str)
  deriving DecidableEq

/-- `τ` is what the watched directory may hold: the script, and the modules that it is parsed with. -/
structure Config (τ σ β κ : Type) where
  path : Str
  watch : Bool
  baseEngine : Engine σ
  script : τ → Option Bytes
  nu : τ → Interpreter σ β κ

/-- Where the watcher's loop is: in `recv_timeout` since some time, past a read, or past a script. -/
inductive Stage where
  | receiving (since : Nat)
  | loading (content : Str)
  | sending
  deriving DecidableEq

inductive Phase where
  | unread
  | resolving (content : Str)
  | converting (content : Str)
  | opened
  | watching (stage : Stage)
  | exited
  | returned
  deriving DecidableEq

def Phase.watches : Phase → Bool
  | .watching _ => true
  | _ => false

def Phase.content : Phase → Option Str
  | .resolving content => some content
  | .converting content => some content
  | .watching (.loading content) => some content
  | _ => none

def Phase.loaded : Phase → Bool
  | .opened => true
  | .watching (.receiving _) => true
  | .watching .sending => true
  | _ => false

structure State (τ σ : Type) where
  now : Nat
  tree : τ
  /-- the changes of the tree so far, and how many of them came before the first read, the watch and the
  last read -/
  edits : Nat
  openedAt : Nat
  watchedFrom : Nat
  readAt : Nat
  /-- the changes since the watch that no notification has reported -/
  owed : Nat
  raw : List Notification
  pendingReload : Bool
  phase : Phase
  loads : List (Option (Engine σ))
  history : List (Nat × Entry Notification)
  server : Serve.State σ

inductive Act (τ σ β κ : Type) where
  | tick (elapsed : Nat)
  | edit (tree : τ)
  | notify (notification : Notification) (reported : Nat)
  | read
  | resolve
  | convert
  | spawn
  | recv
  | timeout
  | load
  | resume
  | serve (act : Serve.Act σ β κ)

def init (tree : τ) : State τ σ := ⟨0, tree, 0, 0, 0, 0, 0, [], false, .unread, [], [], Serve.init⟩

def debounce : Nat := 100

def idleTimeout : Nat := 86400000

def Notification.dominatedBy : Notification → Bool
  | .event .create => true
  | .event .modify => true
  | .event .remove => true
  | _ => false

variable (cfg : Config τ σ β κ)

def readToString (tree : τ) : Option Str := (cfg.script tree).bind fromUtf8

/-- `script_to_engine` on a text read, whose engine is sent when there is one. -/
def loadScript (server : Serve.State σ) (tree : τ) (content : Str) : Option (Serve.State σ × Option (Engine σ)) :=
  (Serve.step cfg.baseEngine server (.script (cfg.nu tree) content (some cfg.path))).map fun server' =>
    (server', (scriptToEngine (cfg.nu tree) cfg.baseEngine server.fresh content (some cfg.path)).toOption)

def State.timeout (s : State τ σ) : Nat := if s.pendingReload then debounce else idleTimeout

def step (s : State τ σ) : Act τ σ β κ → Option (State τ σ)
  | .tick elapsed => some { s with now := s.now + elapsed }
  | .edit tree =>
    some { s with tree := tree, edits := s.edits + 1, owed := if s.phase.watches then s.owed + 1 else s.owed }
  | .notify notification reported =>
    -- a change is reported as such, if not always by a notification of its own
    if s.phase.watches && reported ≤ s.owed && (reported = 0 || notification.dominatedBy) then
      some { s with owed := s.owed - reported, raw := s.raw ++ [notification] }
    else none
  | .read =>
    match s.phase with
    | .unread =>
      match readToString cfg s.tree with
      | some content =>
        some { s with phase := .resolving content, openedAt := s.edits, readAt := s.edits }
      | none => some { s with phase := .exited }
    | _ => none
  | .resolve =>
    match s.phase with
    | .resolving content =>
      if (cfg.script s.tree).isSome then some { s with phase := .converting content }
      else some { s with phase := .exited }
    | _ => none
  | .convert =>
    match s.phase with
    | .converting content =>
      (loadScript cfg s.server s.tree content).map fun (server, engine) =>
        { s with phase := .opened, loads := s.loads ++ [engine], server := server }
    | _ => none
  | .spawn =>
    match s.phase with
    | .opened =>
      if s.server.sending.isSome then none
      else if cfg.watch then some { s with phase := .watching (.receiving s.now), watchedFrom := s.edits }
      else (Serve.step cfg.baseEngine s.server (.closeSource : Serve.Act σ β κ)).map fun server =>
        { s with phase := .returned, server := server }
    | _ => none
  | .recv =>
    match s.phase, s.raw with
    | .watching (.receiving _), notification :: raw =>
      some { s with
        phase := .watching (.receiving s.now)
        raw := raw
        pendingReload := s.pendingReload || notification.dominatedBy
        history := s.history ++ [(s.now, .taken notification)] }
    | _, _ => none
  | .timeout =>
    match s.phase, s.raw with
    | .watching (.receiving since), [] =>
      if s.now < since + s.timeout then none
      else if s.pendingReload then
        let s' := { s with
          pendingReload := false
          readAt := s.edits
          history := s.history ++ [(s.now, Entry.fired)] }
        match readToString cfg s.tree with
        | some content => some { s' with phase := .watching (.loading content) }
        | none => some { s' with phase := .watching (.receiving s.now), loads := s.loads ++ [none] }
      else some { s with phase := .watching (.receiving s.now) }
    | _, _ => none
  | .load =>
    match s.phase with
    | .watching (.loading content) =>
      (loadScript cfg s.server s.tree content).map fun (server, engine) =>
        { s with phase := .watching .sending, loads := s.loads ++ [engine], server := server }
    | _ => none
  | .resume =>
    match s.phase with
    | .watching .sending =>
      if s.server.sending.isSome then none else some { s with phase := .watching (.receiving s.now) }
    | _ => none
  | .serve act =>
    if act.ofServer then
      (Serve.step cfg.baseEngine s.server act).map fun server => { s with server := server }
    else none

def outcome (tree : τ) (fresh : Nat) : Option (Engine σ) :=
  (readToString cfg tree).bind fun content =>
    (scriptToEngine (cfg.nu tree) cfg.baseEngine fresh content (some cfg.path)).toOption

def State.lastAccepted (s : State τ σ) : Option (Engine σ) := (s.loads.filterMap id).getLast?

/-- A change that came after both the last read and the watch is on its way to the watcher's loop. -/
def State.Noticed (s : State τ σ) : Prop :=
  0 < s.owed ∨ (∃ n ∈ s.raw, n.dominatedBy = true) ∨ s.pendingReload = true

structure CaughtUp (s : State τ σ) : Prop where
  receiving : ∃ since, s.phase = .watching (.receiving since)
  reported : s.owed = 0
  taken : s.raw = []
  reloaded : s.pendingReload = false
  sent : s.server.sending = none

/-- What the loop owes to the changes of the tree since the watch began. -/
structure Watched (s : State τ σ) : Prop where
  opened : s.openedAt ≤ s.watchedFrom
  since : s.watchedFrom ≤ s.edits
  noticed : s.edits ≤ max s.readAt s.watchedFrom ∨ s.Noticed
  unreloaded : firings s.history = [] → s.readAt = s.openedAt
  reloaded : firings s.history ≠ [] → s.watchedFrom ≤ s.readAt
  pending : s.pendingReload = outstanding Notification.dominatedBy s.history

structure Inv (s : State τ σ) : Prop where
  server : Serve.Inv s.server
  live : s.phase ≠ .returned → Serve.Live s.server
  accepted : s.server.accepted = s.loads.filterMap id
  opened : s.openedAt ≤ s.readAt
  read : s.readAt ≤ s.edits
  unwatched : s.phase.watches = false →
    s.owed = 0 ∧ s.raw = [] ∧ s.pendingReload = false ∧ s.history = [] ∧ s.readAt = s.openedAt
  watched : s.phase.watches → Watched s
  content : ∀ content, s.phase.content = some content → s.readAt = s.edits →
    readToString cfg s.tree = some content
  loaded : s.phase.loaded → ∃ last, s.loads.getLast? = some last ∧
    (s.readAt = s.edits → ∃ fresh, last = outcome cfg s.tree fresh)
  clock : ∀ entry ∈ s.history, entry.1 ≤ s.now
  quiet : ∀ since, s.phase = .watching (.receiving since) → since ≤ s.now ∧ ∀ entry ∈ s.history, entry.1 ≤ since
  debounced : Debounced debounce Notification.dominatedBy s.history

variable {cfg} {s s' : State τ σ}

lemma loadScript_spec {server server' : Serve.State σ} {tree : τ} {content : Str} {engine : Option (Engine σ)}
    (h : loadScript cfg server tree content = some (server', engine)) :
    (Serve.Inv server → Serve.Inv server') ∧ (Serve.Live server → Serve.Live server') ∧
      server'.accepted = server.accepted ++ engine.toList ∧
      (readToString cfg tree = some content → engine = outcome cfg tree server.fresh) := by
  obtain ⟨t, hstep, heq⟩ := Option.map_eq_some_iff.mp h
  obtain ⟨rfl, rfl⟩ := Prod.mk.inj heq
  refine ⟨fun hinv => Serve.inv_step _ _ _ hinv hstep, fun hlive => Serve.live_step (by simp) hlive hstep,
    Serve.accepted_script hstep, fun hread => ?_⟩
  rw [outcome, hread, Option.bind_some]

variable (cfg) in
lemma loadScript_taken {server : Serve.State σ} (tree : τ) (content : Str) (hsend : server.sending = none)
    (hlive : Serve.Live server) : ∃ r, loadScript cfg server tree content = some r := by
  obtain ⟨t, ht⟩ := Serve.script_taken (cfg.nu tree) content (some cfg.path) hsend hlive
  exact ⟨_, by rw [loadScript, ht, Option.map_some]⟩

lemma inv_init (tree : τ) : Inv cfg (init tree : State τ σ) where
  server := Serve.inv_init
  live _ := Serve.live_init
  accepted := rfl
  opened := le_rfl
  read := le_rfl
  unwatched _ := ⟨rfl, rfl, rfl, rfl, rfl⟩
  watched h := by cases h
  content content h := by cases h
  loaded h := by cases h
  clock entry h := by simp [init] at h
  quiet since h := by simp [init] at h
  debounced := debounced_nil

lemma inv_tick {elapsed : Nat} (h : Inv cfg s) (hs : step cfg s (.tick elapsed) = some s') : Inv cfg s' := by
  obtain rfl := Option.some.inj hs
  exact { h with
    watched := fun hw => { h.watched hw with }
    clock := fun entry hentry => (h.clock entry hentry).trans (Nat.le_add_right _ _)
    quiet := fun since hsince =>
      ⟨(h.quiet since hsince).1.trans (Nat.le_add_right _ _), (h.quiet since hsince).2⟩ }

lemma inv_edit {tree : τ} (h : Inv cfg s) (hs : step cfg s (.edit tree) = some s') : Inv cfg s' := by
  obtain rfl := Option.some.inj hs
  have hread := h.read
  -- the text that was read is not that of the changed tree
  have hstale : s.readAt ≠ s.edits + 1 := by omega
  refine { h with
    read := hread.trans (Nat.le_succ _), unwatched := ?_, watched := ?_, content := ?_, loaded := ?_ }
  · intro hw
    obtain ⟨howed, hrest⟩ := h.unwatched hw
    simp only at hw
    exact ⟨by simp [hw, howed], hrest⟩
  · intro hw
    have hwatched := h.watched hw
    simp only at hw
    exact { hwatched with
      since := hwatched.since.trans (Nat.le_succ _)
      noticed := Or.inr (Or.inl (by simp [hw])) }
  · intro content _ hsame
    exact absurd hsame hstale
  · intro hloaded
    obtain ⟨last, hlast, _⟩ := h.loaded hloaded
    exact ⟨last, hlast, fun hsame => absurd hsame hstale⟩

lemma inv_notify {notification : Notification} {reported : Nat} (h : Inv cfg s)
    (hs : step cfg s (.notify notification reported) = some s') : Inv cfg s' := by
  simp only [step] at hs
  split at hs
  · rename_i hreport
    simp only [Bool.and_eq_true, decide_eq_true_eq, Bool.or_eq_true] at hreport
    obtain ⟨⟨hw, hle⟩, hreport⟩ := hreport
    obtain rfl := Option.some.inj hs
    have hwatched := h.watched hw
    refine { h with
      unwatched := fun hno => absurd hw (by simpa using hno)
      watched := fun _ => { hwatched with noticed := ?_ } }
    apply hwatched.noticed.imp_right
    rintro (howed | ⟨n, hn, hrelevant⟩ | hdue)
    · rcases hreport with hzero | hrelevant
      · exact Or.inl (by simpa [hzero] using howed)
      · exact Or.inr (Or.inl ⟨notification, by simp, hrelevant⟩)
    · exact Or.inr (Or.inl ⟨n, List.mem_append_left _ hn, hrelevant⟩)
    · exact Or.inr (Or.inr hdue)
  · simp at hs

lemma Inv.moved {phase : Phase} (h : Inv cfg s) (hw : s.phase.watches = false) (hphase : phase.watches = false)
    (hreturned : s.phase ≠ .returned)
    (hcontent : ∀ content, phase.content = some content → s.phase.content = some content)
    (hloaded : phase.loaded = true → s.phase.loaded = true) : Inv cfg { s with phase := phase } :=
  { h with
    live := fun _ => h.live hreturned
    unwatched := fun _ => h.unwatched hw
    watched := fun hyes => by simp [hphase] at hyes
    content := fun content hsome => h.content content (hcontent content hsome)
    loaded := fun hyes => h.loaded (hloaded hyes)
    quiet := fun since hsince => by simp [show phase = _ from hsince, Phase.watches] at hphase }

lemma inv_exit (h : Inv cfg s) (hw : s.phase.watches = false) (hreturned : s.phase ≠ .returned) :
    Inv cfg { s with phase := .exited } :=
  h.moved hw rfl hreturned (by simp [Phase.content]) (by simp [Phase.loaded])

lemma inv_read (h : Inv cfg s) (hs : step cfg s (.read : Act τ σ β κ) = some s') : Inv cfg s' := by
  simp only [step] at hs
  split at hs
  · rename_i hphase
    have hexit := inv_exit h (by rw [hphase]; rfl) (by simp [hphase])
    split at hs <;> obtain rfl := Option.some.inj hs
    · rename_i content hread
      exact { hexit with
        live := fun _ => hexit.live (by simp)
        opened := le_rfl
        read := le_rfl
        unwatched := fun _ => by
          obtain ⟨howed, hraw, hpending, hhistory, _⟩ := hexit.unwatched rfl
          exact ⟨howed, hraw, hpending, hhistory, rfl⟩
        watched := fun hyes => by simp [Phase.watches] at hyes
        content := fun content' hsome _ => by
          obtain rfl := Option.some.inj hsome
          exact hread
        loaded := fun hyes => by simp [Phase.loaded] at hyes
        quiet := fun since hsince => by simp at hsince }
    · exact hexit
  · simp at hs

lemma inv_resolve (h : Inv cfg s) (hs : step cfg s (.resolve : Act τ σ β κ) = some s') : Inv cfg s' := by
  simp only [step] at hs
  split at hs
  · rename_i content hphase
    have hw : s.phase.watches = false := by rw [hphase]; rfl
    split at hs <;> obtain rfl := Option.some.inj hs
    · exact h.moved hw rfl (by simp [hphase]) (by simp [hphase, Phase.content]) (by simp [Phase.loaded])
    · exact inv_exit h hw (by simp [hphase])
  · simp at hs

lemma loaded_append {content : Str} {server : Serve.State σ} {engine : Option (Engine σ)} (h : Inv cfg s)
    (hcontent : s.phase.content = some content)
    (hload : loadScript cfg s.server s.tree content = some (server, engine)) :
    server.accepted = (s.loads ++ [engine]).filterMap id ∧
      ∃ last, (s.loads ++ [engine]).getLast? = some last ∧
        (s.readAt = s.edits → ∃ fresh, last = outcome cfg s.tree fresh) := by
  obtain ⟨_, _, haccepted, hengine⟩ := loadScript_spec hload
  refine ⟨?_, engine, List.getLast?_concat,
    fun hsame => ⟨s.server.fresh, hengine (h.content content hcontent hsame)⟩⟩
  rw [haccepted, h.accepted, List.filterMap_append]
  cases engine <;> rfl

lemma inv_convert (h : Inv cfg s) (hs : step cfg s (.convert : Act τ σ β κ) = some s') : Inv cfg s' := by
  simp only [step] at hs
  split at hs
  · rename_i content hphase
    obtain ⟨⟨server, engine⟩, hload, rfl⟩ := Option.map_eq_some_iff.mp hs
    obtain ⟨hserver, hlive, _⟩ := loadScript_spec hload
    obtain ⟨haccepted, hloaded⟩ := loaded_append h (by rw [hphase]; rfl) hload
    exact { h with
      server := hserver h.server
      live := fun _ => hlive (h.live (by simp [hphase]))
      accepted := haccepted
      unwatched := fun _ => h.unwatched (by rw [hphase]; rfl)
      watched := fun hyes => by simp [Phase.watches] at hyes
      content := fun content' hsome => by simp [Phase.content] at hsome
      loaded := fun _ => hloaded
      quiet := fun since hsince => by simp at hsince }
  · simp at hs

lemma inv_spawn (h : Inv cfg s) (hs : step cfg s (.spawn : Act τ σ β κ) = some s') : Inv cfg s' := by
  simp only [step] at hs
  split at hs
  · rename_i hphase
    have hw : s.phase.watches = false := by rw [hphase]; rfl
    obtain ⟨howed, hraw, hpending, hhistory, hread⟩ := h.unwatched hw
    split at hs
    · simp at hs
    · split at hs
      · obtain rfl := Option.some.inj hs
        exact { h with
          live := fun _ => h.live (by simp [hphase])
          unwatched := fun hno => by simp [Phase.watches] at hno
          watched := fun _ => {
            opened := h.opened.trans h.read
            since := le_rfl
            noticed := Or.inl (le_max_right _ _)
            unreloaded := fun _ => hread
            reloaded := fun hne => by simp [hhistory, firings] at hne
            pending := by simp [hpending, hhistory, outstanding] }
          content := fun content' hsome => by simp [Phase.content] at hsome
          loaded := fun _ => h.loaded (by rw [hphase]; rfl)
          quiet := fun since hsince => by
            obtain rfl := Stage.receiving.inj (Phase.watching.inj hsince)
            exact ⟨le_rfl, h.clock⟩ }
      · obtain ⟨server, hclose, rfl⟩ := Option.map_eq_some_iff.mp hs
        have hresults : server.results = s.server.results := by
          rcases Serve.step_results hclose with hres | ⟨_, _, _, hact, _⟩
          · exact hres
          · cases hact
        have hdone := inv_exit h hw (by simp [hphase])
        exact { hdone with
          server := Serve.inv_step _ _ _ h.server hclose
          live := fun hne => absurd rfl hne
          accepted := by
            have := h.accepted
            rw [Serve.State.accepted] at this ⊢
            rw [hresults, this]
          unwatched := fun _ => hdone.unwatched rfl
          watched := fun hyes => by simp [Phase.watches] at hyes
          content := fun content' hsome => by simp [Phase.content] at hsome
          loaded := fun hyes => by simp [Phase.loaded] at hyes
          quiet := fun since hsince => by simp at hsince }
  · simp at hs

lemma inv_recv (h : Inv cfg s) (hs : step cfg s (.recv : Act τ σ β κ) = some s') : Inv cfg s' := by
  simp only [step] at hs
  split at hs
  · rename_i since notification raw hphase hraw
    obtain rfl := Option.some.inj hs
    have hwatched := h.watched (by rw [hphase]; rfl)
    have hclock : ∀ entry ∈ s.history ++ [(s.now, .taken notification)], entry.1 ≤ s.now := by
      intro entry hentry
      rcases List.mem_append.mp hentry with hentry | hentry
      · exact h.clock entry hentry
      · obtain rfl := List.mem_singleton.mp hentry
        exact le_rfl
    refine { h with
      live := fun _ => h.live (by simp [hphase])
      unwatched := fun hno => by simp [Phase.watches] at hno
      watched := fun _ => { hwatched with
        noticed := hwatched.noticed.imp_right ?_
        unreloaded := fun hnone => hwatched.unreloaded (by simpa using hnone)
        reloaded := fun hsome => hwatched.reloaded (by simpa using hsome)
        pending := by rw [outstanding_taken, ← hwatched.pending] }
      content := fun content' hsome => by simp [Phase.content] at hsome
      loaded := fun _ => h.loaded (by rw [hphase]; rfl)
      clock := hclock
      quiet := fun since hsince => by
        obtain rfl := Stage.receiving.inj (Phase.watching.inj hsince)
        exact ⟨le_rfl, hclock⟩
      debounced := h.debounced.taken _ _ }
    rintro (howed | ⟨n, hn, hrelevant⟩ | hdue)
    · exact Or.inl howed
    · rw [hraw] at hn
      rcases List.mem_cons.mp hn with rfl | hn
      · exact Or.inr (Or.inr (by simp [hrelevant]))
      · exact Or.inr (Or.inl ⟨n, hn, hrelevant⟩)
    · exact Or.inr (Or.inr (by simp [hdue]))
  · simp at hs

lemma fired_spec (h : Inv cfg s) {since : Nat} (hphase : s.phase = .watching (.receiving since))
    (hdue : s.pendingReload = true) (hlate : since + debounce ≤ s.now) :
    Debounced debounce Notification.dominatedBy (s.history ++ [(s.now, .fired)]) ∧
      (∀ entry ∈ s.history ++ [(s.now, Entry.fired)], entry.1 ≤ s.now) ∧
      ∀ phase loads, Watched { s with
        pendingReload := false
        readAt := s.edits
        history := s.history ++ [(s.now, .fired)]
        phase := phase
        loads := loads } := by
  have hwatched := h.watched (by rw [hphase]; rfl)
  refine ⟨h.debounced.fired (hwatched.pending ▸ hdue) ?_, ?_, fun phase loads => ?_⟩
  · intro entry hentry
    exact (Nat.add_le_add_right ((h.quiet since hphase).2 entry hentry) _).trans hlate
  · intro entry hentry
    rcases List.mem_append.mp hentry with hentry | hentry
    · exact h.clock entry hentry
    · obtain rfl := List.mem_singleton.mp hentry
      exact le_rfl
  · exact { hwatched with
      noticed := Or.inl (le_max_left _ _)
      unreloaded := fun hnone => by simp at hnone
      reloaded := fun _ => hwatched.since
      pending := by rw [outstanding_fired] }

lemma inv_timeout (h : Inv cfg s) (hs : step cfg s (.timeout : Act τ σ β κ) = some s') : Inv cfg s' := by
  simp only [step] at hs
  split at hs
  · rename_i since hphase hraw
    have hopened := h.opened
    have hread := h.read
    split at hs
    · simp at hs
    · rename_i hlate
      split at hs
      · rename_i hdue
        have hlate : since + debounce ≤ s.now := by simpa [State.timeout, hdue] using hlate
        obtain ⟨hdebounced, hclock, hwatched⟩ := fired_spec h hphase hdue hlate
        split at hs <;> obtain rfl := Option.some.inj hs
        · rename_i content hcontent
          exact { h with
            live := fun _ => h.live (by simp [hphase])
            opened := hopened.trans hread
            read := le_rfl
            unwatched := fun hno => by simp [Phase.watches] at hno
            watched := fun _ => hwatched _ _
            content := fun content' hsome _ => by
              obtain rfl := Option.some.inj hsome
              exact hcontent
            loaded := fun hyes => by simp [Phase.loaded] at hyes
            clock := hclock
            quiet := fun since hsince => by simp at hsince
            debounced := hdebounced }
        · rename_i hcontent
          exact { h with
            live := fun _ => h.live (by simp [hphase])
            accepted := by rw [h.accepted]; simp
            opened := hopened.trans hread
            read := le_rfl
            unwatched := fun hno => by simp [Phase.watches] at hno
            watched := fun _ => hwatched _ _
            content := fun content' hsome => by simp [Phase.content] at hsome
            loaded := fun _ => ⟨none, List.getLast?_concat, fun _ => ⟨0, by rw [outcome, hcontent]; rfl⟩⟩
            clock := hclock
            quiet := fun since hsince => by
              obtain rfl := Stage.receiving.inj (Phase.watching.inj hsince)
              exact ⟨le_rfl, hclock⟩
            debounced := hdebounced }
      · obtain rfl := Option.some.inj hs
        exact { h with
          live := fun _ => h.live (by simp [hphase])
          unwatched := fun hno => by simp [Phase.watches] at hno
          watched := fun _ => { h.watched (by rw [hphase]; rfl) with }
          content := fun content' hsome => by simp [Phase.content] at hsome
          loaded := fun _ => h.loaded (by rw [hphase]; rfl)
          quiet := fun since hsince => by
            obtain rfl := Stage.receiving.inj (Phase.watching.inj hsince)
            exact ⟨le_rfl, h.clock⟩ }
  · simp at hs

lemma inv_load (h : Inv cfg s) (hs : step cfg s (.load : Act τ σ β κ) = some s') : Inv cfg s' := by
  simp only [step] at hs
  split at hs
  · rename_i content hphase
    obtain ⟨⟨server, engine⟩, hload, rfl⟩ := Option.map_eq_some_iff.mp hs
    obtain ⟨hserver, hlive, _⟩ := loadScript_spec hload
    obtain ⟨haccepted, hloaded⟩ := loaded_append h (by rw [hphase]; rfl) hload
    exact { h with
      server := hserver h.server
      live := fun _ => hlive (h.live (by simp [hphase]))
      accepted := haccepted
      unwatched := fun hno => by simp [Phase.watches] at hno
      watched := fun _ => { h.watched (by rw [hphase]; rfl) with }
      content := fun content' hsome => by simp [Phase.content] at hsome
      loaded := fun _ => hloaded
      quiet := fun since hsince => by simp at hsince }
  · simp at hs

lemma inv_resume (h : Inv cfg s) (hs : step cfg s (.resume : Act τ σ β κ) = some s') : Inv cfg s' := by
  simp only [step] at hs
  split at hs
  · rename_i hphase
    split at hs
    · simp at hs
    · obtain rfl := Option.some.inj hs
      exact { h with
        live := fun _ => h.live (by simp [hphase])
        unwatched := fun hno => by simp [Phase.watches] at hno
        watched := fun _ => { h.watched (by rw [hphase]; rfl) with }
        content := fun content' hsome => by simp [Phase.content] at hsome
        loaded := fun _ => h.loaded (by rw [hphase]; rfl)
        quiet := fun since hsince => by
          obtain rfl := Stage.receiving.inj (Phase.watching.inj hsince)
          exact ⟨le_rfl, h.clock⟩ }
  · simp at hs

lemma inv_serve {act : Serve.Act σ β κ} (h : Inv cfg s) (hs : step cfg s (.serve act) = some s') : Inv cfg s' := by
  simp only [step] at hs
  split at hs
  · rename_i hact
    obtain ⟨server, hstep, rfl⟩ := Option.map_eq_some_iff.mp hs
    have hclose : act ≠ .closeSource := by
      rintro rfl
      cases hact
    exact { h with
      server := Serve.inv_step _ _ _ h.server hstep
      live := fun hne => Serve.live_step hclose (h.live hne) hstep
      accepted := (Serve.accepted_ofServer hact hstep).trans h.accepted
      watched := fun hw => { h.watched hw with } }
  · simp at hs

lemma inv_step (s : State τ σ) (a : Act τ σ β κ) (s' : State τ σ) (h : Inv cfg s) (hs : step cfg s a = some s') :
    Inv cfg s' := by
  cases a with
  | tick elapsed => exact inv_tick h hs
  | edit tree => exact inv_edit h hs
  | notify notification reported => exact inv_notify h hs
  | read => exact inv_read h hs
  | resolve => exact inv_resolve h hs
  | convert => exact inv_convert h hs
  | spawn => exact inv_spawn h hs
  | recv => exact inv_recv h hs
  | timeout => exact inv_timeout h hs
  | load => exact inv_load h hs
  | resume => exact inv_resume h hs
  | serve act => exact inv_serve h hs

lemma inv_run {tree : τ} {acts : List (Act τ σ β κ)} (h : run (step cfg) (init tree) acts = some s) : Inv cfg s :=
  run_invariant inv_step (inv_init tree) h

def Act.edits : Act τ σ β κ → Bool
  | .edit _ => true
  | _ => false

variable (cfg) in
def Leads (s : State τ σ) (P : State τ σ → Prop) : Prop :=
  ∃ (acts : List (Act τ σ β κ)) (s' : State τ σ),
    (∀ a ∈ acts, a.edits = false) ∧ run (step cfg) s acts = some s' ∧ P s'

variable {P : State τ σ → Prop}

lemma leads_self (h : P s) : Leads cfg s P := ⟨[], s, by simp, rfl, h⟩

lemma leads_append {acts : List (Act τ σ β κ)} (hacts : ∀ a ∈ acts, a.edits = false)
    (hrun : run (step cfg) s acts = some s') (h : Leads cfg s' P) : Leads cfg s P := by
  obtain ⟨later, t, hlater, hrun', hP⟩ := h
  refine ⟨acts ++ later, t, fun a ha => ?_, run_append.mpr ⟨s', hrun, hrun'⟩, hP⟩
  exact (List.mem_append.mp ha).elim (hacts a) (hlater a)

lemma leads_step {a : Act τ σ β κ} (ha : a.edits = false) (hs : step cfg s a = some s') (h : Leads cfg s' P) :
    Leads cfg s P :=
  leads_append (by simpa using ha) (run_cons.mpr ⟨s', hs, rfl⟩ : run (step cfg) s [a] = some s') h

lemma run_serve {acts : List (Serve.Act σ β κ)} {server : Serve.State σ} (hacts : ∀ a ∈ acts, a.ofServer)
    (h : run (Serve.step cfg.baseEngine) s.server acts = some server) :
    run (step cfg) s (acts.map .serve) = some { s with server := server } := by
  refine run_embed (fun server => { s with server := server }) Act.serve (fun t t' a ha hs => ?_) hacts h
  simp only [step, ha, if_true, hs, Option.map_some]

lemma leads_sent (h : Inv cfg s) (hphase : s.phase ≠ .returned)
    (hP : ∀ server : Serve.State σ, server.sending = none → Inv cfg { s with server := server } →
      Leads cfg { s with server := server } P) : Leads cfg s P := by
  obtain ⟨acts, server, hacts, hrun, hsent⟩ := Serve.leads_sent β κ cfg.baseEngine (h.live hphase)
  have hserve := run_serve hacts hrun
  apply leads_append _ hserve
  · exact hP server hsent (run_invariant inv_step h hserve)
  · intro a ha
    obtain ⟨act, _, rfl⟩ := List.mem_map.mp ha
    rfl

variable (cfg) in
structure Receiving (s : State τ σ) (since : Nat) : Prop where
  inv : Inv cfg s
  phase : s.phase = .watching (.receiving since)
  sent : s.server.sending = none

-- What a reload still has to do: it converts what it read, sends the engine and starts to receive again.
lemma leads_receiving {stage : Stage} (h : Inv cfg s) (hphase : s.phase = .watching stage)
    (hP : ∀ (t : State τ σ) (since : Nat), Receiving cfg t since → t.owed = s.owed → t.raw = s.raw →
      t.pendingReload = s.pendingReload → Leads cfg t P) : Leads cfg s P := by
  have hsending : ∀ t : State τ σ, Inv cfg t → t.phase = .watching .sending → t.owed = s.owed → t.raw = s.raw →
      t.pendingReload = s.pendingReload → Leads cfg t P := by
    intro t ht hsend howed hraw hpending
    apply leads_sent ht (by simp [hsend])
    intro server hsent hinv
    have hs : step cfg { t with server := server } (.resume : Act τ σ β κ) =
        some { t with server := server, phase := .watching (.receiving t.now) } := by
      simp [step, hsend, hsent]
    exact leads_step rfl hs (hP _ t.now ⟨inv_step _ _ _ hinv hs, rfl, hsent⟩ howed hraw hpending)
  apply leads_sent h (by simp [hphase])
  intro server hsent hinv
  cases stage with
  | receiving since => exact hP _ since ⟨hinv, hphase, hsent⟩ rfl rfl rfl
  | loading content =>
    obtain ⟨⟨server', engine⟩, hload⟩ := loadScript_taken cfg s.tree content hsent (hinv.live (by simp [hphase]))
    have hs : step cfg { s with server := server } (.load : Act τ σ β κ) = some { s with
        phase := .watching .sending, loads := s.loads ++ [engine], server := server' } := by
      simp [step, hphase, hload]
    exact leads_step rfl hs (hsending _ (inv_step _ _ _ hinv hs) rfl rfl rfl rfl)
  | sending => exact hsending _ hinv hphase rfl rfl rfl

lemma leads_taken {since : Nat} (h : Receiving cfg s since)
    (hP : ∀ (t : State τ σ) (since : Nat), Receiving cfg t since → t.owed = s.owed → t.raw = [] →
      Leads cfg t P) : Leads cfg s P := by
  induction hraw : s.raw generalizing s since with
  | nil => exact hP s since h rfl hraw
  | cons notification raw ih =>
    obtain ⟨hinv, hphase, hsent⟩ := h
    have hs : step cfg s (.recv : Act τ σ β κ) = some { s with
        phase := .watching (.receiving s.now)
        raw := raw
        pendingReload := s.pendingReload || notification.dominatedBy
        history := s.history ++ [(s.now, .taken notification)] } := by
      simp [step, hphase, hraw]
    exact leads_step rfl hs (ih ⟨inv_step _ _ _ hinv hs, rfl, hsent⟩ hP rfl)

variable (cfg) in
lemma timeout_due {since : Nat} (hphase : s.phase = .watching (.receiving since)) (hraw : s.raw = [])
    (hdue : s.pendingReload = true) (hlate : since + debounce ≤ s.now) : ∃ (t : State τ σ) (stage : Stage),
      step cfg s (.timeout : Act τ σ β κ) = some t ∧ t.phase = .watching stage ∧ t.owed = s.owed ∧ t.raw = [] ∧
        t.pendingReload = false := by
  have hlate' : ¬ s.now < since + debounce := by omega
  cases hread : readToString cfg s.tree with
  | some content =>
    have hs : step cfg s (.timeout : Act τ σ β κ) = some { s with
        pendingReload := false
        readAt := s.edits
        history := s.history ++ [(s.now, .fired)]
        phase := .watching (.loading content) } := by
      simp [step, hphase, hraw, State.timeout, hdue, hlate', hread]
    exact ⟨_, .loading content, hs, rfl, rfl, hraw, rfl⟩
  | none =>
    have hs : step cfg s (.timeout : Act τ σ β κ) = some { s with
        pendingReload := false
        readAt := s.edits
        history := s.history ++ [(s.now, .fired)]
        phase := .watching (.receiving s.now)
        loads := s.loads ++ [none] } := by
      simp [step, hphase, hraw, State.timeout, hdue, hlate', hread]
    exact ⟨_, .receiving s.now, hs, rfl, rfl, hraw, rfl⟩

variable (cfg) in
lemma catchesUp {stage : Stage} (h : Inv cfg s) (hphase : s.phase = .watching stage) :
    Leads cfg s CaughtUp := by
  apply leads_receiving h hphase
  intro t since ⟨hinv, hreceiving, hsent⟩ _ _ _
  have hreported : step cfg t (.notify (.event .modify) t.owed : Act τ σ β κ) = some { t with
      owed := 0, raw := t.raw ++ [.event .modify] } := by
    simp [step, hreceiving, Phase.watches, Notification.dominatedBy]
  apply leads_step rfl hreported
  apply leads_taken ⟨inv_step _ _ _ hinv hreported, hreceiving, hsent⟩
  intro u since' ⟨hinv', hreceiving', hsent'⟩ howed hraw
  cases hdue : u.pendingReload with
  | false => exact leads_self ⟨⟨since', hreceiving'⟩, howed, hraw, hdue, hsent'⟩
  | true =>
    -- nothing more comes for as long as the loop waits, and the script is read again
    have hlater : step cfg u (.tick (since' + debounce) : Act τ σ β κ) =
        some { u with now := u.now + (since' + debounce) } := rfl
    apply leads_step rfl hlater
    have hinv'' := inv_step _ _ _ hinv' hlater
    obtain ⟨v, stage', hs, hstage, howed', hraw', hpending⟩ :=
      timeout_due cfg (s := { u with now := u.now + (since' + debounce) }) hreceiving' hraw hdue
        (Nat.le_add_left _ _)
    apply leads_step rfl hs
    apply leads_receiving (inv_step _ _ _ hinv'' hs) hstage
    intro w since'' ⟨_, hreceiving'', hsent''⟩ howed'' hraw'' hpending''
    exact leads_self ⟨⟨since'', hreceiving''⟩, by rw [howed'', howed']; exact howed, by rw [hraw'', hraw'],
      by rw [hpending'', hpending], hsent''⟩

variable (cfg) in
/-- What a watched script makes of its changes: what the loop owes, and what is served once it owes nothing. -/
structure Followed (s : State τ σ) : Prop where
  accepted : s.server.installed <+: s.server.accepted ∧ s.server.accepted = s.loads.filterMap id
  stale : CaughtUp s →
    (s.readAt < s.edits ↔ s.openedAt < s.watchedFrom ∧ ∀ t, (t, Entry.fired) ∉ s.history)
  loaded : CaughtUp s → s.readAt = s.edits →
    ∃ fresh, s.loads.getLast? = some (outcome cfg s.tree fresh) ∧
      ∀ engine, outcome cfg s.tree fresh = some engine → s.lastAccepted = some engine
  served : CaughtUp s → s.server.channel.queue = [] → s.server.updater = .waiting →
    s.server.current = s.lastAccepted
  catchesUp : Leads cfg s CaughtUp

lemma stale_iff (h : Watched s) (hcaught : CaughtUp s) :
    s.readAt < s.edits ↔ s.openedAt < s.watchedFrom ∧ ∀ t, (t, Entry.fired) ∉ s.history := by
  have hnone : (∀ t, (t, Entry.fired) ∉ s.history) ↔ firings s.history = [] := by
    simp only [← mem_firings]
    exact List.eq_nil_iff_forall_not_mem.symm
  have hle : s.edits ≤ max s.readAt s.watchedFrom := by
    rcases h.noticed with hle | howed | ⟨n, hn, _⟩ | hdue
    · exact hle
    · rw [hcaught.reported] at howed
      omega
    · simp [hcaught.taken] at hn
    · simp [hcaught.reloaded] at hdue
  have hsince := h.since
  rw [hnone]
  constructor
  · intro hstale
    have hbefore : s.readAt < s.watchedFrom := by omega
    have hno : firings s.history = [] := by
      by_contra hfired
      have := h.reloaded hfired
      omega
    exact ⟨h.unreloaded hno ▸ hbefore, hno⟩
  · rintro ⟨hbefore, hno⟩
    rw [h.unreloaded hno]
    omega

theorem watch_follows {tree : τ} {acts : List (Act τ σ β κ)} {stage : Stage}
    (h : run (step cfg) (init tree) acts = some s) (hphase : s.phase = .watching stage) :
    Followed cfg s := by
  have hinv := inv_run h
  have hwatched := hinv.watched (by rw [hphase]; rfl)
  refine ⟨⟨Serve.installed_prefix hinv.server, hinv.accepted⟩, stale_iff hwatched, ?_, ?_,
    catchesUp cfg hinv hphase⟩
  · intro hcaught hsame
    obtain ⟨since, hreceiving⟩ := hcaught.receiving
    obtain ⟨last, hlast, hmade⟩ := hinv.loaded (by rw [hreceiving]; rfl)
    obtain ⟨fresh, rfl⟩ := hmade hsame
    refine ⟨fresh, hlast, fun engine hengine => ?_⟩
    obtain ⟨loads, hloads⟩ := List.getLast?_eq_some_iff.mp hlast
    rw [State.lastAccepted, hloads, hengine]
    simp
  · intro hcaught hqueue hwait
    rw [Serve.State.current, Serve.installed_accepted hinv.server hcaught.sent hqueue hwait, hinv.accepted,
      State.lastAccepted]

def sampleConfig : Config Str Unit Str Unit where
  path := "handler.nu".toList
  watch := true
  baseEngine := ⟨(), none, 0⟩
  script text := some (utf8 text)
  nu _ := Serve.sampleInterpreter

/-- The script is changed after the watch, and a notification of no interest delays the reload. -/
def editRun : List (Act Str Unit Str Unit) :=
  [.read, .resolve, .convert, .serve .send, .serve .first, .spawn, .tick 5, .edit "b".toList, .edit "c".toList,
    .notify (.event .modify) 2, .recv, .tick 99, .notify (.event .access) 0, .recv, .tick 100, .timeout, .load,
    .serve .send, .resume, .serve .recv, .serve .cancel, .serve .store]

def windowRun : List (Act Str Unit Str Unit) :=
  [.read, .resolve, .convert, .serve .send, .serve .first, .edit "b".toList, .spawn]

example : (run (step sampleConfig) (init "a".toList) windowRun).map
    (fun s => (s.phase, s.owed, s.raw, s.readAt, s.edits)) = some (.watching (.receiving 0), 0, [], 0, 1) := by
  decide

theorem watch_follows_edit :
    ∃ s, run (step sampleConfig) (init "a".toList) editRun = some s ∧ CaughtUp s ∧ firings s.history = [204] ∧
      (∃ fresh, s.loads.getLast? = some (outcome sampleConfig "c".toList fresh)) ∧
      s.server.current = s.lastAccepted ∧ s.lastAccepted.map Engine.sseCancelToken = some 1 := by
  obtain ⟨s, hs⟩ := Option.isSome_iff_exists.mp
    (by decide : (run (step sampleConfig) (init "a".toList) editRun).isSome = true)
  have hloop : (run (step sampleConfig) (init "a".toList) editRun).map
      (fun s => (s.phase, s.owed, s.raw, s.pendingReload, s.server.sending.isSome)) =
        some (.watching (.receiving 204), 0, [], false, false) := by decide
  have hserver : (run (step sampleConfig) (init "a".toList) editRun).map
      (fun s => (s.server.channel.queue.length, s.lastAccepted.map Engine.sseCancelToken)) = some (0, some 1) := by
        decide
  have hwait : (run (step sampleConfig) (init "a".toList) editRun).map (fun s => s.server.updater) =
    some .waiting := rfl
  have hread : (run (step sampleConfig) (init "a".toList) editRun).map
      (fun s => (s.tree, s.readAt, s.edits, firings s.history)) = some ("c".toList, 2, 2, [204]) := by decide
  simp only [hs, Option.map_some, Option.some.injEq, Prod.mk.injEq, Option.isSome_eq_false_iff,
    Option.isNone_iff_eq_none, List.length_eq_zero_iff] at hloop hserver hwait hread
  obtain ⟨hphase, howed, hraw, hpending, hsend⟩ := hloop
  obtain ⟨hqueue, hlast⟩ := hserver
  obtain ⟨htree, hread, hedits, hfired⟩ := hread
  have hcaught : CaughtUp s := ⟨⟨_, hphase⟩, howed, hraw, hpending, hsend⟩
  have hfollowed := watch_follows hs hphase
  obtain ⟨fresh, hloads, _⟩ := hfollowed.loaded hcaught (hread.trans hedits.symm)
  exact ⟨s, hs, hcaught, hfired, ⟨fresh, htree ▸ hloads⟩, hfollowed.served hcaught hqueue hwait, hlast⟩

theorem reloads_debounced {tree : τ} {acts : List (Act τ σ β κ)} (h : run (step cfg) (init tree) acts = some s) :
    Debounced debounce Notification.dominatedBy s.history ∧
      (firings s.history).length ≤ (takings Notification.dominatedBy s.history).length ∧
      (∀ start n, ((firings s.history).filter (fun t => start ≤ t ∧ t < start + n * debounce)).length ≤ n) ∧
      (s.phase.watches → (s.pendingReload = true ↔ outstanding Notification.dominatedBy s.history = true)) := by
  have hinv := inv_run h
  refine ⟨hinv.debounced, hinv.debounced.firings_le, hinv.debounced.rate, fun hw => ?_⟩
  rw [(hinv.watched hw).pending]

theorem reloads_debounced_edit :
    ∃ s, run (step sampleConfig) (init "a".toList) editRun = some s ∧
      s.history = [(5, .taken (.event .modify)), (104, .taken (.event .access)), (204, .fired)] ∧
      Debounced debounce Notification.dominatedBy s.history := by
  obtain ⟨s, hs⟩ := Option.isSome_iff_exists.mp
    (by decide : (run (step sampleConfig) (init "a".toList) editRun).isSome = true)
  have hhistory : (run (step sampleConfig) (init "a".toList) editRun).map State.history =
      some [(5, .taken (.event .modify)), (104, .taken (.event .access)), (204, .fired)] := by decide
  rw [hs] at hhistory
  exact ⟨s, hs, Option.some.inj hhistory, (reloads_debounced hs).1⟩

end HttpNu.FileSource
