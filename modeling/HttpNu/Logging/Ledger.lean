import HttpNu.Logging.Human

/-! The ledger of the human log: which requests it shows, skips, clears and completes. -/

namespace HttpNu.Logging.Human

open Text

namespace Received

def requested : Received → Option Scru128Id
  | .event (.request id _) _ => some id
  | _ => none

def admitted : Received → Option (Scru128Id × Str)
  | .event (.request id request) now => if now.tryConsume then some (id, request.path) else none
  | _ => none

def refused : Received → Option Scru128Id
  | .event (.request id _) now => if now.tryConsume then none else some id
  | _ => none

def ends : Received → Bool
  | .event .shutdown _ => true
  | .closed => true
  | _ => false

lemma admitted_eq_some {r : Received} {entry : Scru128Id × Str} (h : r.admitted = some entry) :
    ∃ id request now, r = .event (.request id request) now ∧ now.tryConsume = true ∧
      entry = (id, request.path) := by
  cases r with
  | event e now =>
    cases e with
    | request id request =>
      rw [admitted] at h
      split at h
      next hadmits => exact ⟨id, request, now, rfl, hadmits, (Option.some.inj h).symm⟩
      next => cases h
    | _ => cases h
  | _ => cases h

end Received

/-- What is received until the loop is left. -/
def heard : List Received → List Received
  | [] => []
  | r :: received => if r.ends then [r] else r :: heard received

inductive Standing where
  | unseen
  | skipped
  | inFlight
  | cleared
  | completed
  deriving DecidableEq

def Standing.next (id : Scru128Id) (standing : Standing) : Received → Standing
  | .event (.request other _) now =>
    if other = id then (if now.tryConsume then .inFlight else .skipped) else standing
  | .event (.complete other _ _) _ => if other = id ∧ standing = .inFlight then .completed else standing
  | .lagged _ => if standing = .inFlight then .cleared else standing
  | _ => standing

def standing (id : Scru128Id) (received : List Received) : Standing := received.foldl (Standing.next id) .unseen

def Mark.count : Mark → Nat
  | .skips count => count
  | _ => 0

def skipsPrinted (marks : List Mark) : Nat := (marks.map Mark.count).sum

/-- The books without the texts, the clocks and the terminal. -/
structure Ledger where
  inFlight : List Scru128Id
  told : List Mark
  skipped : Nat
  closed : Bool

namespace Ledger

def init : Ledger := ⟨[], [], 0, false⟩

def summary (l : Ledger) : Ledger :=
  if 0 < l.skipped then { l with told := l.told ++ [.skips l.skipped], skipped := 0 } else l

def draw (l : Ledger) : Ledger := { l with told := l.told ++ l.inFlight.map .active }

def close (l : Ledger) : Ledger := { l.summary with closed := true }

def enter (l : Ledger) : Received → Ledger
  | .lagged _ => { l with inFlight := [] }
  | .closed => l.close
  | .event e now =>
    match e with
    | .request id _ =>
      if now.tryConsume then draw { l.summary with inFlight := l.inFlight ++ [id] }
      else { l with skipped := l.skipped + 1 }
    | .response id _ _ _ => if l.inFlight.contains id then l.draw else l
    | .complete id _ _ =>
      if l.inFlight.contains id then
        draw { l with inFlight := l.inFlight.filter (fun x => x ≠ id), told := l.told ++ [.completes id] }
      else l
    | .shutdown => l.close
    | .stopped => l
    | .stopTimedOut => l
    | _ => l.draw

def next (l : Ledger) (r : Received) : Ledger := if l.closed then l else l.enter r

def run (received : List Received) : Ledger := received.foldl next init

end Ledger

@[simp] lemma skipsPrinted_append (xs ys : List Mark) :
    skipsPrinted (xs ++ ys) = skipsPrinted xs + skipsPrinted ys := by
  simp [skipsPrinted]

namespace Ledger

@[simp] lemma inFlight_draw (l : Ledger) : l.draw.inFlight = l.inFlight := rfl

@[simp] lemma skipped_draw (l : Ledger) : l.draw.skipped = l.skipped := rfl

@[simp] lemma skipsPrinted_draw (l : Ledger) : skipsPrinted l.draw.told = skipsPrinted l.told := by
  have hactive : skipsPrinted (l.inFlight.map .active) = 0 := by simp [skipsPrinted, Mark.count, Function.comp_def]
  rw [draw, skipsPrinted_append, hactive, Nat.add_zero]

@[simp] lemma count_draw (l : Ledger) (id : Scru128Id) :
    l.draw.told.count (.completes id) = l.told.count (.completes id) := by
  have hactive : (l.inFlight.map Mark.active).count (.completes id) = 0 := List.count_eq_zero.mpr (by simp)
  rw [draw, List.count_append, hactive, Nat.add_zero]

lemma active_mem_draw (l : Ledger) (id : Scru128Id) :
    .active id ∈ l.draw.told ↔ .active id ∈ l.told ∨ id ∈ l.inFlight := by
  simp [draw]

@[simp] lemma inFlight_summary (l : Ledger) : l.summary.inFlight = l.inFlight := by
  rw [summary]
  split <;> rfl

@[simp] lemma count_summary (l : Ledger) (id : Scru128Id) :
    l.summary.told.count (.completes id) = l.told.count (.completes id) := by
  rw [summary]
  split
  · simp
  · rfl

@[simp] lemma active_mem_summary (l : Ledger) (id : Scru128Id) :
    .active id ∈ l.summary.told ↔ .active id ∈ l.told := by
  rw [summary]
  split
  · simp
  · rfl

lemma skips_summary (l : Ledger) :
    skipsPrinted l.summary.told + l.summary.skipped = skipsPrinted l.told + l.skipped := by
  rw [summary]
  split
  · simp [skipsPrinted, Mark.count]
  · rfl

end Ledger

structure Sound (received : List Received) (l : Ledger) : Prop where
  nodup : l.inFlight.Nodup
  inFlight : ∀ id, id ∈ l.inFlight ↔ standing id received = .inFlight
  shown : ∀ request ∈ received.filterMap Received.admitted, .active request.1 ∈ l.told
  seen : ∀ id, .active id ∈ l.told → standing id received ≠ .unseen
  completed : ∀ id, l.told.count (.completes id) = if standing id received = .completed then 1 else 0
  skips : skipsPrinted l.told + l.skipped = (received.filterMap Received.refused).length

lemma standing_append (id : Scru128Id) (received : List Received) (r : Received) :
    standing id (received ++ [r]) = (standing id received).next id r := by
  simp [standing]

lemma filterMap_concat {α : Type} {f : Received → Option α} {r : Received} (h : f r = none)
    (received : List Received) : (received ++ [r]).filterMap f = received.filterMap f := by
  rw [List.filterMap_append, List.filterMap_cons_none h, List.filterMap_nil, List.append_nil]

lemma standing_unseen {id : Scru128Id} {received : List Received}
    (h : id ∉ received.filterMap Received.requested) : standing id received = .unseen := by
  induction received using List.reverseRecOn with
  | nil => rfl
  | append_singleton received r ih =>
    rw [List.filterMap_append, List.mem_append, not_or] at h
    rw [standing_append, ih h.1]
    cases r with
    | event e now =>
      cases e with
      | request other request =>
        have hother : other ≠ id := fun heq => h.2 (by simp [Received.requested, heq])
        exact if_neg hother
      | complete other bytes durationMs => exact if_neg (fun hin => by cases hin.2)
      | _ => rfl
    | _ => rfl

namespace Sound

variable {received : List Received} {l : Ledger}

lemma draw (h : Sound received l) : Sound received l.draw where
  nodup := h.nodup
  inFlight := h.inFlight
  shown request hrequest := (l.active_mem_draw request.1).mpr (.inl (h.shown request hrequest))
  seen id hid := by
    rcases (l.active_mem_draw id).mp hid with htold | hin
    · exact h.seen id htold
    · rw [(h.inFlight id).mp hin]
      nofun
  completed id := by rw [l.count_draw, h.completed]
  skips := by rw [l.skipsPrinted_draw, l.skipped_draw, h.skips]

lemma quiet (h : Sound received l) {r : Received}
    (hnext : ∀ id, (standing id received).next id r = standing id received)
    (hadmitted : r.admitted = none) (hrefused : r.refused = none) : Sound (received ++ [r]) l where
  nodup := h.nodup
  inFlight id := by rw [standing_append, hnext, h.inFlight]
  shown request hrequest := h.shown request (filterMap_concat hadmitted received ▸ hrequest)
  seen id := by rw [standing_append, hnext]; exact h.seen id
  completed id := by rw [standing_append, hnext, h.completed]
  skips := by rw [filterMap_concat hrefused, h.skips]

lemma close (h : Sound received l) : Sound received l.close where
  nodup := l.inFlight_summary.symm ▸ h.nodup
  inFlight id := by rw [← h.inFlight, Ledger.close, l.inFlight_summary]
  shown request hrequest := (l.active_mem_summary request.1).mpr (h.shown request hrequest)
  seen id hid := h.seen id ((l.active_mem_summary id).mp hid)
  completed id := by rw [Ledger.close, l.count_summary, h.completed]
  skips := by rw [Ledger.close, l.skips_summary, h.skips]

lemma request (h : Sound received l) {id : Scru128Id} {request : RequestData} {now : Moment}
    (hnew : standing id received = .unseen) (hadmits : now.tryConsume = true) :
    Sound (received ++ [.event (.request id request) now])
      (Ledger.draw { l.summary with inFlight := l.inFlight ++ [id] }) := by
  have hnotin : id ∉ l.inFlight := by
    rw [h.inFlight, hnew]
    nofun
  have hnext (other : Scru128Id) : standing other (received ++ [.event (.request id request) now]) =
      if id = other then .inFlight else standing other received := by
    rw [standing_append, Standing.next, hadmits, if_pos rfl]
  have hmem (other : Scru128Id) : .active other ∈
      (Ledger.draw { l.summary with inFlight := l.inFlight ++ [id] }).told ↔
        (.active other ∈ l.told ∨ other ∈ l.inFlight) ∨ other = id := by
    rw [Ledger.active_mem_draw, l.active_mem_summary, List.mem_append, List.mem_singleton, or_assoc]
  exact {
    nodup := by
      rw [Ledger.inFlight_draw]
      refine List.nodup_append.mpr ⟨h.nodup, List.nodup_singleton id, ?_⟩
      rintro other hother _ hid rfl
      exact hnotin (List.mem_singleton.mp hid ▸ hother)
    inFlight := by
      intro other
      rw [hnext, Ledger.inFlight_draw, List.mem_append, List.mem_singleton, h.inFlight]
      by_cases hother : id = other
      · simp [hother]
      · simp [hother, Ne.symm hother]
    shown := by
      intro entry hentry
      rw [List.filterMap_append, List.mem_append] at hentry
      rw [hmem]
      rcases hentry with hentry | hentry
      · exact .inl (.inl (h.shown entry hentry))
      · simp only [Received.admitted, hadmits, if_true, List.filterMap_cons, List.filterMap_nil,
          List.mem_singleton] at hentry
        exact .inr (congrArg Prod.fst hentry)
    seen := by
      intro other hother
      rw [hnext]
      split
      next => nofun
      next hne =>
        rcases (hmem other).mp hother with (htold | hin) | heq
        · exact h.seen other htold
        · rw [(h.inFlight other).mp hin]
          nofun
        · exact absurd heq.symm hne
    completed := by
      intro other
      rw [hnext, Ledger.count_draw, l.count_summary, h.completed]
      by_cases hother : id = other
      · subst hother
        simp [hnew]
      · simp [hother]
    skips := by
      rw [Ledger.skipsPrinted_draw, Ledger.skipped_draw, l.skips_summary, h.skips]
      simp [Received.refused, hadmits] }

lemma skip (h : Sound received l) {id : Scru128Id} {request : RequestData} {now : Moment}
    (hnew : standing id received = .unseen) (hrefuses : ¬now.tryConsume = true) :
    Sound (received ++ [.event (.request id request) now]) { l with skipped := l.skipped + 1 } := by
  have hnext (other : Scru128Id) : standing other (received ++ [.event (.request id request) now]) =
      if id = other then .skipped else standing other received := by
    rw [standing_append, Standing.next, if_neg hrefuses]
  exact {
    nodup := h.nodup
    inFlight := by
      intro other
      rw [hnext, h.inFlight]
      by_cases hother : id = other
      · subst hother
        simp [hnew]
      · simp [hother]
    shown := by
      intro entry hentry
      rw [filterMap_concat (by simp [Received.admitted, hrefuses])] at hentry
      exact h.shown entry hentry
    seen := by
      intro other hother
      rw [hnext]
      split
      · nofun
      · exact h.seen other hother
    completed := by
      intro other
      rw [hnext, h.completed]
      by_cases hother : id = other
      · subst hother
        simp [hnew]
      · simp [hother]
    skips := by
      rw [List.filterMap_append, List.length_append, ← h.skips]
      simp [Received.refused, hrefuses, Nat.add_assoc] }

lemma lag (h : Sound received l) (n : Nat) : Sound (received ++ [.lagged n]) { l with inFlight := [] } := by
  have hnext (id : Scru128Id) : standing id (received ++ [.lagged n]) =
      if standing id received = .inFlight then .cleared else standing id received := standing_append id received _
  exact {
    nodup := List.nodup_nil
    inFlight := by
      intro id
      rw [hnext]
      split
      next => simp
      next hout => simp [hout]
    shown := by
      intro entry hentry
      rw [filterMap_concat rfl] at hentry
      exact h.shown entry hentry
    seen := by
      intro id hid
      rw [hnext]
      split
      · nofun
      · exact h.seen id hid
    completed := by
      intro id
      rw [hnext, h.completed]
      split_ifs <;> simp_all
    skips := by rw [filterMap_concat rfl, h.skips] }

lemma complete (h : Sound received l) {id : Scru128Id} {bytes durationMs : Nat} {now : Moment}
    (hin : id ∈ l.inFlight) :
    Sound (received ++ [.event (.complete id bytes durationMs) now])
      (Ledger.draw
        { l with inFlight := l.inFlight.filter (fun x => x ≠ id), told := l.told ++ [.completes id] }) := by
  have hstanding := (h.inFlight id).mp hin
  have hnext (other : Scru128Id) : standing other (received ++ [.event (.complete id bytes durationMs) now]) =
      if id = other then .completed else standing other received := by
    rw [standing_append, Standing.next]
    by_cases hother : id = other
    · subst hother
      simp [hstanding]
    · simp [hother]
  refine Sound.draw {
    nodup := h.nodup.filter _
    inFlight := ?_
    shown := ?_
    seen := ?_
    completed := ?_
    skips := ?_ }
  · intro other
    rw [hnext, List.mem_filter, h.inFlight, decide_eq_true_iff]
    by_cases hother : id = other
    · simp [hother]
    · simp [hother, Ne.symm hother]
  · intro entry hentry
    rw [filterMap_concat rfl] at hentry
    exact List.mem_append_left _ (h.shown entry hentry)
  · intro other hother
    rw [hnext]
    split
    · nofun
    · exact h.seen other (by simpa using hother)
  · intro other
    rw [hnext, List.count_append, h.completed]
    by_cases hother : id = other
    · subst hother
      simp [hstanding]
    · simp [hother]
  · rw [skipsPrinted_append, filterMap_concat rfl, ← h.skips]
    rfl

lemma enter (h : Sound received l) {r : Received} (hnew : ∀ id, r.requested = some id →
    standing id received = .unseen) :
    Sound (received ++ [r]) (l.enter r) := by
  cases r with
  | lagged n => exact h.lag n
  | closed => exact (h.quiet (fun _ => rfl) rfl rfl).close
  | event e now =>
    cases e with
    | request id request =>
      rw [Ledger.enter]
      split
      next hadmits => exact h.request (hnew id rfl) hadmits
      next hrefuses => exact h.skip (hnew id rfl) hrefuses
    | response id status headers latencyMs =>
      have hquiet : Sound (received ++ [.event (.response id status headers latencyMs) now]) l :=
        h.quiet (fun _ => rfl) rfl rfl
      rw [Ledger.enter]
      split
      · exact hquiet.draw
      · exact hquiet
    | complete id bytes durationMs =>
      rw [Ledger.enter]
      split
      next hin => exact h.complete (List.contains_iff_mem.mp hin)
      next hout =>
        refine h.quiet (fun other => if_neg ?_) rfl rfl
        rintro ⟨rfl, hin⟩
        exact hout (List.contains_iff_mem.mpr ((h.inFlight id).mpr hin))
    | shutdown => exact (h.quiet (fun _ => rfl) rfl rfl).close
    | stopped => exact h.quiet (fun _ => rfl) rfl rfl
    | stopTimedOut => exact h.quiet (fun _ => rfl) rfl rfl
    | _ => exact (h.quiet (fun _ => rfl) rfl rfl).draw

end Sound

lemma heard_open {received : List Received} (h : received.any Received.ends = false) :
    heard received = received := by
  induction received with
  | nil => rfl
  | cons r received ih =>
    obtain ⟨hr, hrest⟩ := Bool.or_eq_false_iff.mp h
    rw [heard, hr, ih hrest, if_neg Bool.false_ne_true]

lemma heard_append (received : List Received) (r : Received) :
    heard (received ++ [r]) = if received.any Received.ends then heard received else received ++ [r] := by
  induction received with
  | nil =>
    exact ite_self [r]
  | cons r' received ih =>
    rw [List.cons_append, heard, heard, List.any_cons]
    cases hends : r'.ends with
    | true => rfl
    | false =>
      rw [ih, if_neg Bool.false_ne_true, if_neg Bool.false_ne_true, Bool.false_or]
      split <;> rfl

lemma prefix_heard (received : List Received) : heard received <+: received := by
  induction received with
  | nil => exact List.nil_prefix
  | cons r received ih =>
    rw [heard]
    split
    · exact (List.prefix_cons_inj r).mpr List.nil_prefix
    · exact (List.prefix_cons_inj r).mpr ih

namespace Ledger

lemma run_append (received : List Received) (r : Received) : run (received ++ [r]) = (run received).next r := by
  simp [run]

lemma closed_enter (l : Ledger) (r : Received) (h : l.closed = false) : (l.enter r).closed = r.ends := by
  have hsummary : l.summary.closed = false := by
    rw [summary]
    split <;> exact h
  cases r with
  | event e now => cases e <;> simp only [enter, Received.ends] <;> (try split) <;> simp [h, draw, close, hsummary]
  | _ => simp [enter, Received.ends, close, h]

lemma closed_run (received : List Received) : (run received).closed = received.any Received.ends := by
  induction received using List.reverseRecOn with
  | nil => rfl
  | append_singleton received r ih =>
    rw [run_append, next, List.any_append, List.any_cons, List.any_nil, Bool.or_false, ← ih]
    cases hclosed : (run received).closed with
    | true => simpa using hclosed
    | false => simpa using closed_enter _ r hclosed

end Ledger

lemma sound_run {received : List Received} (h : ((heard received).filterMap Received.requested).Nodup) :
    Sound (heard received) (Ledger.run received) := by
  induction received using List.reverseRecOn with
  | nil => exact ⟨List.nodup_nil, fun id => by simp [Ledger.run, Ledger.init, standing, heard], nofun, nofun,
    fun _ => rfl, rfl⟩
  | append_singleton received r ih =>
    rw [heard_append] at h ⊢
    rw [Ledger.run_append, Ledger.next, Ledger.closed_run]
    cases hends : received.any Received.ends with
    | true => exact ih (by rwa [hends] at h)
    | false =>
      rw [hends, if_neg Bool.false_ne_true, List.filterMap_append, List.nodup_append] at h
      have hopen := heard_open hends
      rw [hopen] at ih
      refine (ih h.1).enter ?_
      intro id hid
      apply standing_unseen
      intro hmem
      exact h.2.2 id hmem id (by simp [hid]) rfl

end HttpNu.Logging.Human
