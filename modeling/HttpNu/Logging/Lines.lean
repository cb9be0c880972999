import HttpNu.Logging.InFlight

/-! What the lines of the human log are made of: the requests it remembers. -/

namespace HttpNu.Logging.Human

open Text

def remembered (requests : Requests) : Received → Requests
  | .lagged _ => ∅
  | .closed => requests
  | .event e now =>
    match e with
    | .request id request =>
      if now.tryConsume then
        requests.insert id ⟨request.method, request.path, request.trustedIp, now.instant, none, none⟩
      else requests
    | .response id status _ latencyMs =>
      match requests.lookup id with
      | none => requests
      | some state => requests.insert id { state with status := some status, latencyMs := some latencyMs }
    | .complete id _ _ => requests.erase id
    | _ => requests

def Prints (P : Mark → Str → Prop) (zone : ActiveZone) : Prop :=
  ∀ mark text, .line mark text ∈ zone.out → P mark text

/-- The lines that may be printed for the requests in flight. -/
def Draws (P : Mark → Str → Prop) (requests : Requests) : Prop :=
  ∀ id state now text, requests.lookup id = some state → formatActiveLine now state = some text →
    P (.active id) text

section Requests

variable (s : State) (now : Moment)

@[simp] lemma requests_redraw : (s.redraw now).requests = s.requests := by
  rw [State.redraw]
  split <;> rfl

@[simp] lemma requests_printPermanent (mark : Mark) (text : Str) :
    (s.printPermanent mark text).requests = s.requests := rfl

@[simp] lemma requests_clear : s.clear.requests = s.requests := rfl

@[simp] lemma requests_println (mark : Mark) (text : Str) : (s.println mark text).requests = s.requests := rfl

@[simp] lemma requests_finish : s.finish.requests = s.requests := by
  rw [State.finish]
  split <;> split <;> rfl

@[simp] lemma requests_prints (texts : List Str) :
    (texts.foldl (fun s text => s.printPermanent .plain text) s).requests = s.requests := by
  induction texts generalizing s with
  | nil => rfl
  | cons text texts ih => exact ih (s.printPermanent .plain text)

lemma requests_step (b : Build) (r : Received) (hrunning : s.phase = .running) :
    ∀ id, (step b s r).requests.lookup id = (remembered s.requests r).lookup id := by
  intro id
  cases r with
  | lagged n => simp [step, hrunning, State.lag, remembered]
  | closed => simp [step, hrunning, remembered]
  | event e now =>
    simp only [step, hrunning]
    cases e with
    | request other request =>
      simp only [State.handle, remembered]
      split
      · simp only [State.showRequest, requests_redraw, requests_clear]
        split <;> rfl
      · rfl
    | response other status headers latencyMs =>
      simp only [State.handle, remembered]
      cases hstate : s.requests.lookup other with
      | none => rfl
      | some state => rw [requests_redraw, requests_clear]
    | complete other bytes durationMs =>
      simp only [State.handle, remembered]
      split
      · rename_i hnone
        by_cases hid : id = other
        · subst id
          rw [hnone, AList.lookup_erase]
        · rw [AList.lookup_erase_ne hid]
      · split <;> simp
    | _ => simp [State.handle, remembered]

end Requests

namespace Prints

variable {P : Mark → Str → Prop} {zone : ActiveZone} {s : State}

lemma println (h : Prints P zone) {mark : Mark} {text : Str} (hline : P mark text) :
    Prints P (zone.println mark text) := by
  intro mark' text' hmem
  rcases List.mem_append.mp hmem with hmem | hmem
  · exact h mark' text' hmem
  · obtain ⟨rfl, rfl⟩ := Output.line.inj (List.mem_singleton.mp hmem)
    exact hline

lemma eprintln (h : Prints P zone) (text : Str) : Prints P (zone.eprintln text) := by
  intro mark text' hmem
  apply h
  simpa [ActiveZone.eprintln] using hmem

lemma clear (h : Prints P zone) : Prints P zone.clear := by
  rw [ActiveZone.clear]
  split
  · intro mark text hmem
    apply h
    simpa using hmem
  · exact h

lemma printPermanent (h : Prints P zone) {mark : Mark} {text : Str} (hline : P mark text) :
    Prints P (zone.printPermanent mark text) := h.clear.println hline

lemma recount (h : Prints P zone) (lineCount : Nat) : Prints P { zone with lineCount := lineCount } := h

lemma drawActive {requests : Requests} {now : Moment} (hdraws : Draws P requests) (ids : List Scru128Id)
    (h : Prints P zone) : Prints P (zone.drawActive now requests ids).1 := by
  induction ids generalizing zone with
  | nil => exact h
  | cons id ids ih =>
    rw [ActiveZone.drawActive]
    split
    · exact ih h
    · rename_i state hstate
      split
      · exact h
      · rename_i line hline
        exact ih ((h.println (hdraws id state now line hstate hline)).recount _)

lemma redraw (hplain : ∀ text, P .plain text) (hdraws : Draws P s.requests) (h : Prints P s.zone) (now : Moment) :
    Prints P (s.redraw now).zone := by
  have hzone : Prints P (s.zone.redraw now s.activeIds s.requests).1 := by
    rw [ActiveZone.redraw]
    split_ifs
    · exact h
    · exact drawActive hdraws s.activeIds (((h.recount 0).println (hplain _)).recount 1)
  rw [State.redraw]
  split
  · rename_i zone hredraw
    rwa [hredraw] at hzone
  · rename_i zone hredraw
    rwa [hredraw] at hzone

end Prints

lemma prints_step {P : Mark → Str → Prop} (b : Build) {s : State} {r : Received} (hplain : ∀ text, P .plain text)
    (hskips : ∀ count text, P (.skips count) text) (hdraws : Draws P (step b s r).requests)
    (hcompletes : ∀ id state bytes durationMs now text, r = .event (.complete id bytes durationMs) now →
      s.requests.lookup id = some state → formatCompleteLine now state durationMs bytes = some text →
      P (.completes id) text)
    (h : Prints P s.zone) : Prints P (step b s r).zone := by
  rw [step.eq_def] at hdraws ⊢
  cases hphase : s.phase with
  | stopped => exact h
  | panicked => exact h
  | running =>
    rw [hphase] at hdraws
    have hfinish : Prints P s.finish.zone := by
      rw [State.finish]
      dsimp only
      split <;> split
      · exact (h.clear.println (hskips _ _)).println (hplain _)
      · exact h.clear.println (hskips _ _)
      · exact h.clear.println (hplain _)
      · exact h.clear
    cases r with
    | lagged n => exact h.printPermanent (hplain _)
    | closed => exact hfinish
    | event e now =>
      cases e with
      | started address startupMs options =>
        have hprinted : ∀ texts : List Str, ∀ t : State, Prints P t.zone →
            Prints P (texts.foldl (fun s text => s.printPermanent .plain text) t).zone := by
          intro texts
          induction texts with
          | nil => exact fun _ ht => ht
          | cons text texts ih => exact fun t ht => ih _ (ht.printPermanent (hplain _))
        simp only [State.handle, requests_redraw] at hdraws
        exact Prints.redraw hplain hdraws (hprinted _ _ h) now
      | reloaded =>
        simp only [State.handle, requests_redraw] at hdraws
        exact Prints.redraw hplain hdraws (h.printPermanent (hplain _)) now
      | error error =>
        simp only [State.handle, requests_redraw] at hdraws
        exact Prints.redraw (s := { s with zone := s.zone.clear.eprintln _ })
          hplain hdraws (h.clear.eprintln _) now
      | print message =>
        simp only [State.handle, requests_redraw] at hdraws
        exact Prints.redraw hplain hdraws (h.printPermanent (hplain _)) now
      | stopping inflight =>
        simp only [State.handle, requests_redraw] at hdraws
        exact Prints.redraw hplain hdraws (h.printPermanent (hplain _)) now
      | stopped => exact (h.printPermanent (hplain _)).clear.println (hplain _)
      | stopTimedOut => exact h.printPermanent (hplain _)
      | shutdown => exact hfinish
      | request id request =>
        simp only [State.handle] at hdraws ⊢
        split at hdraws
        · rename_i hadmits
          rw [if_pos hadmits]
          rw [State.showRequest] at hdraws ⊢
          rw [requests_redraw] at hdraws
          apply Prints.redraw hplain hdraws
          apply Prints.clear
          dsimp only
          split
          · exact h.printPermanent (hskips _ _)
          · exact h
        · rename_i hskip
          rw [if_neg hskip]
          exact h
      | response id status headers latencyMs =>
        simp only [State.handle] at hdraws ⊢
        split at hdraws
        · exact h
        · rw [requests_redraw] at hdraws
          exact Prints.redraw hplain hdraws h.clear now
      | complete id bytes durationMs =>
        simp only [State.handle] at hdraws ⊢
        split at hdraws
        · exact h
        · rename_i state hstate
          split at hdraws
          · exact h
          · rename_i line hline
            rw [requests_redraw] at hdraws
            exact Prints.redraw hplain hdraws
              (h.printPermanent (hcompletes id state bytes durationMs now line rfl hstate hline)) now

end HttpNu.Logging.Human
