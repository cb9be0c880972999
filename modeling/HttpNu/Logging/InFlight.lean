import HttpNu.Logging.Ledger
import HttpNu.Logging.Truncate

/-! The books that the human log keeps of the requests in flight. -/

namespace HttpNu.Logging.Human

open Text

def Output.told : Output → Option Mark
  | .line .plain _ => none
  | .line mark _ => some mark
  | _ => none

def told (out : List Output) : List Mark := out.filterMap Output.told

def follows : LogEvent → Option Scru128Id
  | .response id _ _ _ => some id
  | .complete id _ _ => some id
  | _ => none

def State.pending (s : State) : Nat := if s.phase = .running then s.skipped else 0

structure Books (b : Build) (received : List Received) (s : State) : Prop where
  nodup : s.activeIds.Nodup
  recorded : ∀ id, id ∈ s.activeIds ↔ id ∈ s.requests
  inFlight : ∀ id, id ∈ s.activeIds ↔ standing id received = .inFlight
  shown : ∀ request ∈ received.filterMap Received.admitted, .active request.1 ∈ told s.zone.out
  completed : ∀ id, (told s.zone.out).count (.completes id) = if standing id received = .completed then 1 else 0
  quiet : ∀ e id, follows e = some id → standing id received ≠ .inFlight → ∀ now, step b s (.event e now) = s
  skips : skipsPrinted (told s.zone.out) + s.pending = (received.filterMap Received.refused).length

/-- The handler keeps this ledger, and the requests that it remembers do not make it panic. -/
structure Keeps (s : State) (l : Ledger) : Prop where
  phase : s.phase = if l.closed then .stopped else .running
  inFlight : s.activeIds = l.inFlight
  tells : told s.zone.out = l.told
  pending : s.pending = l.skipped
  recorded : ∀ id, id ∈ s.activeIds ↔ id ∈ s.requests
  cuttable : ∀ id state, s.requests.lookup id = some state → Cuttable state.path

section Told

@[simp] lemma told_append (xs ys : List Output) : told (xs ++ ys) = told xs ++ told ys := List.filterMap_append

@[simp] lemma told_clear (zone : ActiveZone) : told zone.clear.out = told zone.out := by
  rw [ActiveZone.clear]
  split
  · simp [told, Output.told]
  · rfl

@[simp] lemma told_println (zone : ActiveZone) (mark : Mark) (text : Str) :
    told (zone.println mark text).out = told zone.out ++ if mark = .plain then [] else [mark] := by
  cases mark <;> simp [ActiveZone.println, told, Output.told]

@[simp] lemma told_eprintln (zone : ActiveZone) (text : Str) : told (zone.eprintln text).out = told zone.out := by
  simp [ActiveZone.eprintln, told, Output.told]

end Told

lemma drawActive_append (now : Moment) {requests : Requests} {ids : List Scru128Id}
    (h : ∀ id ∈ ids, ∃ state, requests.lookup id = some state ∧ Cuttable state.path) (rest : List Scru128Id)
    (zone : ActiveZone) :
    ∃ zone' : ActiveZone, zone.drawActive now requests (ids ++ rest) = zone'.drawActive now requests rest ∧
      told zone'.out = told zone.out ++ ids.map .active := by
  induction ids generalizing zone with
  | nil => exact ⟨zone, rfl, by simp⟩
  | cons id ids ih =>
    obtain ⟨⟨state, hstate, hcut⟩, hrest⟩ := List.forall_mem_cons.mp h
    obtain ⟨line, hline⟩ := formatActiveLine_isSome now hcut
    obtain ⟨zone', hdraw, htold⟩ :=
      ih hrest { zone.println (.active id) line with lineCount := zone.lineCount + 1 }
    refine ⟨zone', by simp only [List.cons_append, ActiveZone.drawActive, hstate, hline, hdraw], ?_⟩
    have hline : told (zone.println (.active id) line).out = told zone.out ++ [.active id] := by simp
    rw [htold, hline, List.append_assoc]
    rfl

variable {b : Build} {s : State} {l : Ledger}

lemma redraw_eq (h : ∀ id ∈ s.activeIds, ∃ state, s.requests.lookup id = some state ∧ Cuttable state.path)
    (now : Moment) :
    ∃ zone, s.redraw now = { s with zone := zone } ∧
      told zone.out = told s.zone.out ++ s.activeIds.map .active := by
  rw [State.redraw, ActiveZone.redraw]
  split_ifs with hnone
  · exact ⟨_, rfl, by simp [hnone]⟩
  · obtain ⟨zone, hdraw, htold⟩ := drawActive_append now h []
      { ActiveZone.println { s.zone with lineCount := 0 }
        .plain "· · ·  ✈ in flight  · · ·".toList with lineCount := 1 }
    rw [List.append_nil] at hdraw
    refine ⟨zone, by rw [hdraw]; rfl, ?_⟩
    rw [htold]
    simp

lemma redraw_panics {ids : List Scru128Id} {id : Scru128Id} {state : RequestState}
    (hids : s.activeIds = ids ++ [id])
    (h : ∀ id ∈ ids, ∃ state, s.requests.lookup id = some state ∧ Cuttable state.path)
    (hstate : s.requests.lookup id = some state) (hcut : ¬Cuttable state.path) (now : Moment) :
    (s.redraw now).phase = .panicked ∧ told (s.redraw now).zone.out = told s.zone.out ++ ids.map .active := by
  obtain ⟨zone, hdraw, htold⟩ := drawActive_append now h [id]
    { ActiveZone.println { s.zone with lineCount := 0 }
      .plain "· · ·  ✈ in flight  · · ·".toList with lineCount := 1 }
  have hpanic : zone.drawActive now s.requests [id] = (zone, false) := by
    simp [ActiveZone.drawActive, hstate, formatActiveLine_panics now hcut]
  have hredraw : s.redraw now = { s with zone := zone, phase := .panicked } := by
    rw [State.redraw, ActiveZone.redraw, hids, if_neg (by simp)]
    dsimp only
    rw [hdraw, hpanic]
  rw [hredraw]
  exact ⟨rfl, by rw [htold]; simp⟩

namespace Keeps

lemma zone (h : Keeps s l) {zone : ActiveZone} {marks : List Mark}
    (htold : told zone.out = told s.zone.out ++ marks) :
    Keeps { s with zone := zone } { l with told := l.told ++ marks } where
  phase := h.phase
  inFlight := h.inFlight
  tells := by rw [htold, h.tells]
  pending := h.pending
  recorded := h.recorded
  cuttable := h.cuttable

lemma quietZone (h : Keeps s l) {zone : ActiveZone} (htold : told zone.out = told s.zone.out) :
    Keeps { s with zone := zone } l := by
  have hzone := h.zone (htold.trans (List.append_nil _).symm)
  rwa [List.append_nil] at hzone

lemma clear (h : Keeps s l) : Keeps s.clear l := h.quietZone (told_clear s.zone)

lemma plain (h : Keeps s l) (text : Str) : Keeps (s.printPermanent .plain text) l :=
  h.quietZone (by simp [ActiveZone.printPermanent])

lemma plains (h : Keeps s l) (texts : List Str) :
    Keeps (texts.foldl (fun s text => s.printPermanent .plain text) s) l := by
  induction texts generalizing s with
  | nil => exact h
  | cons text texts ih => exact ih (h.plain text)

lemma mark (h : Keeps s l) (mark : Mark) (hmark : mark ≠ .plain) (text : Str) :
    Keeps (s.printPermanent mark text) { l with told := l.told ++ [mark] } :=
  h.zone (by simp [ActiveZone.printPermanent, hmark])

lemma state_of_mem (h : Keeps s l) {id : Scru128Id} (hid : id ∈ s.activeIds) :
    ∃ state, s.requests.lookup id = some state ∧ Cuttable state.path := by
  obtain ⟨state, hstate⟩ := Option.isSome_iff_exists.mp (AList.lookup_isSome.mpr ((h.recorded id).mp hid))
  exact ⟨state, hstate, h.cuttable id state hstate⟩

lemma redraw (h : Keeps s l) (now : Moment) : Keeps (s.redraw now) l.draw := by
  obtain ⟨zone, hzone, htold⟩ := redraw_eq (fun _ hid => h.state_of_mem hid) now
  rw [h.inFlight] at htold
  exact hzone ▸ h.zone htold

lemma running (h : Keeps s l) (hopen : l.closed = false) : s.phase = .running := by
  rw [h.phase, hopen]
  rfl

lemma skipped (h : Keeps s l) (hopen : l.closed = false) : s.skipped = l.skipped := by
  rw [← h.pending, State.pending, if_pos (h.running hopen)]

lemma summary (h : Keeps s l) (hopen : l.closed = false) :
    Keeps (if 0 < s.skipped then
        { s.printPermanent (.skips s.skipped) (State.skipSummary s.skipped) with skipped := 0 }
      else s) l.summary := by
  rw [Ledger.summary, h.skipped hopen]
  split
  · have hmark := h.mark (.skips l.skipped) (by simp) (State.skipSummary l.skipped)
    exact ⟨hmark.phase, hmark.inFlight, hmark.tells, by rw [State.pending, if_pos]; exact h.running hopen,
      hmark.recorded, hmark.cuttable⟩
  · exact h

lemma insert (h : Keeps s l) (id : Scru128Id) (state : RequestState) (hcut : Cuttable state.path) :
    Keeps { s with requests := s.requests.insert id state, activeIds := s.activeIds ++ [id] }
      { l with inFlight := l.inFlight ++ [id] } where
  phase := h.phase
  inFlight := by rw [h.inFlight]
  tells := h.tells
  pending := h.pending
  recorded := by
    intro id'
    rw [List.mem_append, List.mem_singleton, AList.mem_insert, h.recorded, or_comm]
  cuttable := by
    intro id' state' hstate
    by_cases hid : id' = id
    · subst hid
      rw [AList.lookup_insert] at hstate
      exact Option.some.inj hstate ▸ hcut
    · rw [AList.lookup_insert_ne hid] at hstate
      exact h.cuttable id' state' hstate

lemma update (h : Keeps s l) {id : Scru128Id} {state : RequestState} (hstate : s.requests.lookup id = some state)
    (state' : RequestState) (hpath : state'.path = state.path) :
    Keeps { s with requests := s.requests.insert id state' } l where
  phase := h.phase
  inFlight := h.inFlight
  tells := h.tells
  pending := h.pending
  recorded := by
    intro id'
    have hid : id ∈ s.requests := AList.lookup_isSome.mp (Option.isSome_of_eq_some hstate)
    rw [AList.mem_insert, h.recorded]
    exact ⟨.inr, fun hor => hor.elim (fun heq => heq ▸ hid) (fun hin => hin)⟩
  cuttable := by
    intro id' state'' hstate'
    by_cases hid : id' = id
    · subst hid
      rw [AList.lookup_insert] at hstate'
      rw [← Option.some.inj hstate', hpath]
      exact h.cuttable id' state hstate
    · rw [AList.lookup_insert_ne hid] at hstate'
      exact h.cuttable id' state'' hstate'

lemma erase (h : Keeps s l) (id : Scru128Id) :
    Keeps { s with requests := s.requests.erase id, activeIds := s.activeIds.filter (fun x => x ≠ id) }
      { l with inFlight := l.inFlight.filter (fun x => x ≠ id) } where
  phase := h.phase
  inFlight := by rw [h.inFlight]
  tells := h.tells
  pending := h.pending
  recorded := by
    intro id'
    rw [List.mem_filter, AList.mem_erase, h.recorded, and_comm, decide_eq_true_iff]
  cuttable := by
    intro id' state hstate
    by_cases hid : id' = id
    · subst hid
      rw [AList.lookup_erase] at hstate
      cases hstate
    · rw [AList.lookup_erase_ne hid] at hstate
      exact h.cuttable id' state hstate

lemma finish (h : Keeps s l) (hopen : l.closed = false) : Keeps s.finish l.close := by
  have htold : told s.finish.zone.out = l.summary.told := by
    rw [Ledger.summary, ← h.skipped hopen]
    by_cases hskipped : 0 < s.skipped <;> by_cases hlagged : 0 < s.lagged <;>
      simp [State.finish, State.println, State.clear, hskipped, hlagged, h.tells]
  have hsame : s.finish.requests = s.requests ∧ s.finish.activeIds = s.activeIds := by
    rw [State.finish]
    split <;> split <;> exact ⟨rfl, rfl⟩
  have hledger : l.close.inFlight = l.inFlight ∧ l.close.skipped = 0 := by
    rw [Ledger.close, Ledger.summary]
    split
    · exact ⟨rfl, rfl⟩
    · exact ⟨rfl, by dsimp only; omega⟩
  exact {
    phase := rfl
    inFlight := by rw [hsame.2, hledger.1, h.inFlight]
    tells := htold
    pending := hledger.2.symm
    recorded := by rw [hsame.1, hsame.2]; exact h.recorded
    cuttable := by rw [hsame.1]; exact h.cuttable }

lemma skip (h : Keeps s l) (hopen : l.closed = false) :
    Keeps { s with skipped := s.skipped + 1 } { l with skipped := l.skipped + 1 } where
  phase := h.phase
  inFlight := h.inFlight
  tells := h.tells
  pending := by rw [State.pending, if_pos (h.running hopen), h.skipped hopen]
  recorded := h.recorded
  cuttable := h.cuttable

lemma lag (h : Keeps s l) (n : Nat) : Keeps (s.lag n) { l with inFlight := [] } where
  phase := h.phase
  inFlight := rfl
  tells := by simp [State.lag, State.printPermanent, ActiveZone.printPermanent, h.tells]
  pending := h.pending
  recorded := by
    intro id
    exact ⟨fun hid => (List.not_mem_nil hid).elim, fun hid => (AList.notMem_empty id hid).elim⟩
  cuttable := by
    intro id state hstate
    cases hstate

lemma request (h : Keeps s l) (hopen : l.closed = false) {now : Moment} {id : Scru128Id} {request : RequestData}
    (hcut : Cuttable request.path) :
    Keeps (s.showRequest now id request) (Ledger.draw { l.summary with inFlight := l.inFlight ++ [id] }) := by
  have hinFlight : l.summary.inFlight = l.inFlight := by
    rw [Ledger.summary]
    split <;> rfl
  rw [← hinFlight]
  exact ((h.summary hopen).insert id _ hcut).clear.redraw now

lemma contains_eq (h : Keeps s l) (id : Scru128Id) : l.inFlight.contains id = (s.requests.lookup id).isSome := by
  rw [Bool.eq_iff_iff, List.contains_iff_mem, AList.lookup_isSome, ← h.inFlight, h.recorded]

lemma response (h : Keeps s l) (now : Moment) (id : Scru128Id) (status : UInt16) (headers : List (Str × Str))
    (latencyMs : Nat) :
    Keeps (s.handle b now (.response id status headers latencyMs))
    (if l.inFlight.contains id then l.draw else l) := by
  rw [h.contains_eq]
  cases hstate : s.requests.lookup id with
  | none => simpa [State.handle, hstate] using h
  | some state =>
    simp only [State.handle, hstate, Option.isSome_some, if_true]
    exact (h.update hstate { state with status := some status, latencyMs := some latencyMs } rfl).clear.redraw now

lemma complete (h : Keeps s l) (now : Moment) (id : Scru128Id) (bytes durationMs : Nat) :
    Keeps (s.handle b now (.complete id bytes durationMs))
      (if l.inFlight.contains id then
        Ledger.draw { l with inFlight := l.inFlight.filter (fun x => x ≠ id), told := l.told ++ [.completes id] }
      else l) := by
  rw [h.contains_eq]
  cases hstate : s.requests.lookup id with
  | none => simpa [State.handle, hstate] using h
  | some state =>
    obtain ⟨line, hline⟩ := formatCompleteLine_isSome now (h.cuttable id state hstate) durationMs bytes
    simp only [State.handle, hstate, hline, Option.isSome_some, if_true]
    exact ((h.erase id).mark (.completes id) (by simp) line).redraw now

lemma stuck (h : Keeps s l) (hclosed : l.closed = true) (r : Received) : Keeps (step b s r) (l.next r) := by
  have hphase : s.phase = .stopped := by rw [h.phase, hclosed]; rfl
  have hstep : step b s r = s := by simp [step, hphase]
  have hnext : l.next r = l := by simp [Ledger.next, hclosed]
  rwa [hstep, hnext]

lemma next (h : Keeps s l) {r : Received} (hcut : ∀ request, r.admitted = some request → Cuttable request.2) :
    Keeps (step b s r) (l.next r) := by
  cases hopen : l.closed with
  | true => exact h.stuck hopen r
  | false =>
    have hphase := h.running hopen
    have hnext : l.next r = l.enter r := by simp [Ledger.next, hopen]
    rw [hnext]
    cases r with
    | lagged n =>
      have hstep : step b s (.lagged n) = s.lag n := by simp [step, hphase]
      exact hstep ▸ h.lag n
    | closed =>
      have hstep : step b s .closed = s.finish := by simp [step, hphase]
      exact hstep ▸ h.finish hopen
    | event e now =>
      have hstep : step b s (.event e now) = s.handle b now e := by simp [step, hphase]
      rw [hstep]
      cases e with
      | started address startupMs options => exact (h.plains _).redraw now
      | reloaded => exact (h.plain _).redraw now
      | error error => exact (h.quietZone (by simp)).redraw now
      | print message => exact (h.plain _).redraw now
      | stopping inflight => exact (h.plain _).redraw now
      | stopped => exact ((h.plain _).clear).quietZone (by simp)
      | stopTimedOut => exact h.plain _
      | shutdown => exact h.finish hopen
      | request id request =>
        rw [State.handle, Ledger.enter]
        split
        next hadmits =>
          exact h.request hopen (hcut (id, request.path) (if_pos hadmits))
        next => exact h.skip hopen
      | response id status headers latencyMs => exact h.response now id status headers latencyMs
      | complete id bytes durationMs => exact h.complete now id bytes durationMs

end Keeps

lemma run_append (b : Build) (received : List Received) (r : Received) :
    run b (received ++ [r]) = step b (run b received) r := by
  simp [run]

lemma keeps_init : Keeps init Ledger.init where
  phase := rfl
  inFlight := rfl
  tells := rfl
  pending := rfl
  recorded id := ⟨fun hid => (List.not_mem_nil hid).elim, fun hid => (AList.notMem_empty id hid).elim⟩
  cuttable id state hstate := by cases hstate

lemma keeps_run {received : List Received}
    (hcut : ∀ request ∈ (heard received).filterMap Received.admitted, Cuttable request.2) :
    Keeps (run b received) (Ledger.run received) := by
  induction received using List.reverseRecOn with
  | nil => exact keeps_init
  | append_singleton received r ih =>
    rw [heard_append] at hcut
    rw [run_append, Ledger.run_append]
    cases hends : received.any Received.ends with
    | true =>
      exact (ih (by rwa [hends] at hcut)).stuck ((Ledger.closed_run received).trans hends) r
    | false =>
      rw [hends, if_neg Bool.false_ne_true, List.filterMap_append] at hcut
      rw [heard_open hends] at ih
      refine (ih (fun request hrequest => hcut request (List.mem_append_left _ hrequest))).next ?_
      intro request hrequest
      exact hcut request (List.mem_append_right _ (by simp [hrequest]))

lemma Keeps.quiet (h : Keeps s l) {e : LogEvent} {id : Scru128Id} (he : follows e = some id)
    (hout : id ∉ l.inFlight)
    (now : Moment) : step b s (.event e now) = s := by
  have hlookup : s.requests.lookup id = none := by
    rw [AList.lookup_eq_none, ← h.recorded, h.inFlight]
    exact hout
  rw [step.eq_def]
  cases hphase : s.phase with
  | running =>
    cases e with
    | response other status headers latencyMs =>
      obtain rfl := Option.some.inj he
      simp [State.handle, hlookup]
    | complete other bytes durationMs =>
      obtain rfl := Option.some.inj he
      simp [State.handle, hlookup]
    | _ => cases he
  | _ => rfl

lemma Keeps.books (h : Keeps s l) {received : List Received} (hsound : Sound received l) : Books b received s where
  nodup := h.inFlight ▸ hsound.nodup
  recorded := h.recorded
  inFlight id := by rw [h.inFlight, hsound.inFlight]
  shown request hrequest := h.tells ▸ hsound.shown request hrequest
  completed id := by rw [h.tells, hsound.completed]
  quiet e id he hstanding := h.quiet he (fun hin => hstanding ((hsound.inFlight id).mp hin))
  skips := by rw [h.tells, h.pending, hsound.skips]

structure Broken (received : List Received) (s : State) : Prop where
  phase : s.phase = .panicked
  missed : ∃ request ∈ received.filterMap Received.admitted, .active request.1 ∉ told s.zone.out

lemma Keeps.panics (h : Keeps s l) (hopen : l.closed = false) {id : Scru128Id} {request : RequestData}
    (hcut : ¬Cuttable request.path) (hnew : id ∉ l.inFlight) (hunseen : .active id ∉ l.told) (now : Moment) :
    (s.showRequest now id request).phase = .panicked ∧
      .active id ∉ told (s.showRequest now id request).zone.out := by
  have hsummary := h.summary hopen
  rw [State.showRequest]
  generalize (if 0 < s.skipped then
      { s.printPermanent (.skips s.skipped) (State.skipSummary s.skipped) with skipped := 0 }
    else s) = s₁ at hsummary ⊢
  have hin : s₁.activeIds = l.inFlight := by rw [hsummary.inFlight, l.inFlight_summary]
  set state : RequestState := ⟨request.method, request.path, request.trustedIp, now.instant, none, none⟩
  have hstates : ∀ other ∈ s₁.activeIds,
      ∃ state', (s₁.requests.insert id state).lookup other = some state' ∧ Cuttable state'.path := by
    intro other hother
    have hne : other ≠ id := fun heq => hnew (hin ▸ heq ▸ hother)
    rw [AList.lookup_insert_ne hne]
    exact hsummary.state_of_mem hother
  obtain ⟨hphase, htold⟩ := redraw_panics
    (s := State.clear { s₁ with requests := s₁.requests.insert id state, activeIds := s₁.activeIds ++ [id] })
    rfl hstates (AList.lookup_insert _) hcut now
  refine ⟨hphase, ?_⟩
  rw [htold, List.mem_append, not_or]
  constructor
  · rw [State.clear, told_clear, hsummary.tells, l.active_mem_summary]
    exact hunseen
  · simpa [hin] using hnew

/-- The first request whose path cannot be cut ends the thread, and is never shown. -/
lemma broken_run {received : List Received} (hunique : ((heard received).filterMap Received.requested).Nodup)
    (hcut : ¬∀ request ∈ (heard received).filterMap Received.admitted, Cuttable request.2) :
    Broken (heard received) (run b received) := by
  induction received using List.reverseRecOn with
  | nil => exact absurd (by simp [heard]) hcut
  | append_singleton received r ih =>
    rw [heard_append] at hunique hcut ⊢
    rw [run_append]
    cases hends : received.any Received.ends with
    | true =>
      rw [hends] at hunique hcut
      obtain ⟨hphase, hmissed⟩ := ih hunique hcut
      have hstep : step b (run b received) r = run b received := by simp [step, hphase]
      rw [hstep]
      exact ⟨hphase, hmissed⟩
    | false =>
      rw [hends, if_neg Bool.false_ne_true] at hunique hcut
      rw [if_neg Bool.false_ne_true]
      rw [List.filterMap_append, List.nodup_append] at hunique
      rw [heard_open hends] at ih
      by_cases hbefore : ∀ request ∈ received.filterMap Received.admitted, Cuttable request.2
      · obtain ⟨entry, hentry, hnot⟩ := not_forall₂.mp hcut
        have hr : r.admitted = some entry := by
          rw [List.filterMap_append, List.mem_append] at hentry
          rcases hentry with hentry | hentry
          · exact absurd (hbefore entry hentry) hnot
          · simpa using hentry
        obtain ⟨id, request, now, rfl, hadmits, rfl⟩ := Received.admitted_eq_some hr
        have hsound : Sound (heard received) (Ledger.run received) :=
          sound_run (by rw [heard_open hends]; exact hunique.1)
        have hunseen : standing id (heard received) = .unseen := by
          rw [heard_open hends]
          apply standing_unseen
          exact fun hmem => hunique.2.2 id hmem id (by simp [Received.requested]) rfl
        have hkeeps : Keeps (run b received) (Ledger.run received) := keeps_run (by rwa [heard_open hends])
        have hopen : (Ledger.run received).closed = false := by rw [Ledger.closed_run, hends]
        have hstep : step b (run b received) (.event (.request id request) now) =
            (run b received).showRequest now id request := by
          simp [step, hkeeps.running hopen, State.handle, hadmits]
        have hout : id ∉ (Ledger.run received).inFlight := by simp [hsound.inFlight, hunseen]
        obtain ⟨hphase, hmissed⟩ := hkeeps.panics hopen hnot hout (fun htold => hsound.seen id htold hunseen) now
        rw [hstep]
        exact ⟨hphase, ⟨(id, request.path), hentry, hmissed⟩⟩
      · obtain ⟨hphase, request, hrequest, hmissed⟩ := ih hunique.1 hbefore
        have hstep : step b (run b received) r = run b received := by simp [step, hphase]
        have hmem : request ∈ (received ++ [r]).filterMap Received.admitted := by
          rw [List.filterMap_append]
          exact List.mem_append_left _ hrequest
        exact hstep.symm ▸ ⟨hphase, ⟨request, hmem, hmissed⟩⟩

/-- The books are right after every run, unless a request to show has a path whose middle cannot be cut out. -/
theorem books_iff (b : Build) (received : List Received)
    (hunique : (received.filterMap Received.requested).Nodup) :
    Books b (heard received) (run b received) ↔
      ∀ request ∈ (heard received).filterMap Received.admitted, Cuttable request.2 := by
  have hheard : ((heard received).filterMap Received.requested).Nodup :=
    hunique.sublist ((prefix_heard received).sublist.filterMap _)
  constructor
  · intro hbooks
    by_contra hcut
    obtain ⟨_, request, hrequest, hmissed⟩ := broken_run (b := b) hheard hcut
    exact hmissed (hbooks.shown request hrequest)
  · intro hcut
    exact (keeps_run hcut).books (sound_run hheard)

def moment (tryConsume : Bool) : Moment := ⟨0, "12:00:00.000".toList, [], fun _ => "0.0".toList, tryConsume⟩

def getRequest (path : Str) : RequestData :=
  ⟨"HTTP/1.1".toList, "GET".toList, none, none, none, [], path, path, []⟩

def session : List Received :=
  [.event (.request "a".toList (getRequest "/a".toList)) (moment true),
    .event (.request "b".toList (getRequest "/b".toList)) (moment false),
    .event (.response "a".toList 200 [] 1) (moment true), .event (.complete "a".toList 5 2) (moment true),
    .event (.request "c".toList (getRequest "/c".toList)) (moment true), .lagged 3,
    .event (.complete "c".toList 5 2) (moment true), .event .shutdown (moment true)]

theorem books_iff_session : Books .bare (heard session) (run .bare session) := by
  refine (books_iff .bare session (by decide)).mpr ?_
  have hadmitted : (heard session).filterMap Received.admitted =
    [("a".toList, "/a".toList), ("c".toList, "/c".toList)] := rfl
  rw [hadmitted]
  exact List.forall_mem_cons.mpr ⟨.inl (by decide), List.forall_mem_singleton.mpr (.inl (by decide))⟩

/-- Byte 18 of this path is inside a character. -/
def accented : List Received :=
  [.event (.request "a".toList (getRequest ('/' :: List.replicate 30 'é'))) (moment true),
    .event (.complete "a".toList 5 2) (moment true)]

theorem accented_panics :
    (accented.filterMap Received.requested).Nodup ∧ (run .bare accented).phase = .panicked ∧
      ¬Books .bare (heard accented) (run .bare accented) := by
  refine ⟨by decide, by decide, fun hbooks => ?_⟩
  have htold : told (run .bare accented).zone.out = [] := by decide
  have hshown := hbooks.shown ("a".toList, '/' :: List.replicate 30 'é') (List.mem_singleton.mpr rfl)
  rw [htold] at hshown
  cases hshown

end HttpNu.Logging.Human
