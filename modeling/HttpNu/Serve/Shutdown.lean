import HttpNu.Serve

/-! The shutdown of the server, and the event streams that it cancels. -/

namespace HttpNu.Serve

open Text Library Engine

variable {σ β κ : Type} {base : Engine σ} {s s' : State σ}

/-- After the cancel step of the shutdown, every event stream still attached is on a cancelled token. -/
def StreamsCancelled (s : State σ) : Prop :=
  s.shutdown = .cancelled → ∀ r ∈ s.requests, r.leftAt = none → ∀ engine token,
    r.stage = .streaming engine token → token ∈ s.cancelled

/-- An event stream starts on one of the old engines, or on an engine that has been replaced. -/
def StartsOn (old : List (Engine σ)) (s : State σ) (a : Act σ β κ) : Prop :=
  ∀ i r engine, a = .stream i → s.requests[i]? = some r → r.stage = .running engine →
    engine ∈ old ∨ engine ∈ s.installed.dropLast

variable (base) in
/-- From the moment the shutdown loads the engine in service, no event stream starts on an engine that was
stored later and is in service. -/
def StartsBeforeShutdown (acts : List (Act σ β κ)) : Prop :=
  ∀ before after s, acts = before ++ .shutdownLoad :: after → run (step base) init before = some s →
    Permitted (step base) (StartsOn s.installed) s (.shutdownLoad :: after)

lemma step_cancelled {a : Act σ β κ} (hs : step base s a = some s') {token : Nat} (h : token ∈ s.cancelled) :
    token ∈ s'.cancelled := by
  cases a <;> simp only [step, State.setStage] at hs <;> repeat' split at hs
  all_goals first
    | (obtain rfl := Option.some.inj hs; exact h)
    | (obtain rfl := Option.some.inj hs; exact List.mem_cons_of_mem _ h)
    | simp at hs

lemma step_installed {a : Act σ β κ} (hs : step base s a = some s') : s.installed <+: s'.installed := by
  cases a with
  | first =>
    simp only [step] at hs
    split at hs
    · rename_i hnone _
      obtain rfl := Option.some.inj hs
      rw [hnone]
      exact List.nil_prefix
    · simp at hs
  | _ =>
    simp only [step, State.setStage] at hs
    repeat' split at hs
    all_goals first
      | (obtain rfl := Option.some.inj hs; exact List.prefix_rfl)
      | (obtain rfl := Option.some.inj hs; exact List.prefix_append _ _)
      | simp at hs

lemma step_shutdown {a : Act σ β κ} (hs : step base s a = some s') :
    s'.shutdown = s.shutdown ∨
      (a = .shutdownLoad ∧ ∃ engine, s.current = some engine ∧ s'.shutdown = .loaded engine) ∨
      (∃ engine, s.shutdown = .loaded engine ∧ s'.shutdown = .cancelled ∧
        engine.sseCancelToken ∈ s'.cancelled) := by
  cases a with
  | shutdownLoad =>
    simp only [step] at hs
    split at hs
    · rename_i engine _ hcurrent
      obtain rfl := Option.some.inj hs
      exact Or.inr (Or.inl ⟨rfl, engine, hcurrent, rfl⟩)
    · simp at hs
  | shutdownCancel =>
    simp only [step] at hs
    split at hs
    · rename_i engine hloaded
      obtain rfl := Option.some.inj hs
      exact Or.inr (Or.inr ⟨engine, hloaded, rfl, List.mem_cons_self⟩)
    · simp at hs
  | _ =>
    left
    simp only [step, State.setStage] at hs
    repeat' split at hs
    all_goals first
      | (obtain rfl := Option.some.inj hs; rfl)
      | simp at hs

lemma step_streaming {a : Act σ β κ} (hs : step base s a = some s') {r : Request σ} (hr : r ∈ s'.requests)
    {engine : Engine σ} {token : Nat} (hstage : r.stage = .streaming engine token) :
    (∃ r' ∈ s.requests, r'.stage = .streaming engine token) ∨
      ∃ i r', a = .stream i ∧ s.requests[i]? = some r' ∧ r'.stage = .running engine := by
  rcases step_requests hs with hreq | ⟨r', hreq, harrived⟩ | ⟨i, r₀, r', hget, hreq, _, _, hstreaming⟩
  · exact Or.inl ⟨r, hreq ▸ hr, hstage⟩
  · rw [hreq, List.mem_append, List.mem_singleton] at hr
    rcases hr with hr | rfl
    · exact Or.inl ⟨r, hr, hstage⟩
    · rw [harrived] at hstage
      cases hstage
  · rw [hreq] at hr
    rcases List.mem_or_eq_of_mem_set hr with hr | rfl
    · exact Or.inl ⟨r, hr, hstage⟩
    · rcases hstreaming engine token hstage with hold | ⟨ha, hrun⟩
      · exact Or.inl ⟨r₀, List.mem_of_getElem? hget, hold⟩
      · exact Or.inr ⟨i, r₀, ha, hget, hrun⟩

/-- From the shutdown's load on: `old` are the engines stored before it, the last of them to be cancelled. -/
structure Closing (old : List (Engine σ)) (s : State σ) : Prop where
  inv : Inv s
  kept : old <+: s.installed
  last : ∀ engine, old.getLast? = some engine →
    s.shutdown = .loaded engine ∨ (s.shutdown = .cancelled ∧ engine.sseCancelToken ∈ s.cancelled)
  streams : ∀ r ∈ s.requests, ∀ engine token, r.stage = .streaming engine token →
    engine ∈ old ∨ engine ∈ s.installed.dropLast

lemma mem_dropLast_mono {α : Type} {xs ys : List α} (h : xs <+: ys) {x : α} (hx : x ∈ xs.dropLast) :
    x ∈ ys.dropLast := by
  obtain ⟨later, rfl⟩ := h
  cases later with
  | nil => rwa [List.append_nil]
  | cons y later =>
    rw [List.dropLast_append_cons]
    exact List.mem_append_left _ (List.mem_of_mem_dropLast hx)

lemma closing_load (h : Inv s) (hs : step base s (.shutdownLoad : Act σ β κ) = some s') :
    Closing s.installed s' := by
  have hinv := inv_step s _ s' h hs
  simp only [step] at hs
  split at hs
  · rename_i engine _ hcurrent
    obtain rfl := Option.some.inj hs
    refine ⟨hinv, List.prefix_rfl, fun e he => ?_, fun r hr e token hstage => Or.inl ?_⟩
    · obtain rfl := Option.some.inj (hcurrent.symm.trans he)
      exact Or.inl rfl
    · obtain ⟨k, _, _, hget⟩ := (h.served r hr).engine e (by rw [hstage]; rfl)
      exact List.mem_of_getElem? hget
  · simp at hs

lemma closing_step {old : List (Engine σ)} (s : State σ) (a : Act σ β κ) (s' : State σ)
    (ha : StartsOn old s a) (h : Closing old s) (hs : step base s a = some s') : Closing old s' where
  inv := inv_step s a s' h.inv hs
  kept := h.kept.trans (step_installed hs)
  last engine hlast := by
    rcases step_shutdown hs with heq | ⟨rfl, _⟩ | ⟨e, hloaded, hcancelled, htoken⟩
    · rw [heq]
      exact (h.last engine hlast).imp_right (And.imp_right (step_cancelled hs))
    · -- the shutdown loads an engine only once
      simp only [step] at hs
      split at hs
      · rename_i hnone _
        simpa [hnone] using h.last engine hlast
      · simp at hs
    · rcases h.last engine hlast with hl | ⟨hl, _⟩
      · obtain rfl := Shutdown.loaded.inj (hl.symm.trans hloaded)
        exact Or.inr ⟨hcancelled, htoken⟩
      · rw [hl] at hloaded
        cases hloaded
  streams r hr engine token hstage := by
    have hmono := mem_dropLast_mono (step_installed hs) (x := engine)
    rcases step_streaming hs hr hstage with ⟨r', hr', hstage'⟩ | ⟨i, r', hi, hget, hrun⟩
    · exact (h.streams r' hr' engine token hstage').imp_right hmono
    · exact (ha i r' engine hi hget hrun).imp_right hmono

lemma replaced_cancelled (h : Inv s) {engine : Engine σ} (he : engine ∈ s.installed.dropLast) :
    engine.sseCancelToken ∈ s.cancelled := by
  obtain ⟨i, hi⟩ := List.mem_iff_getElem?.mp he
  rw [List.getElem?_dropLast] at hi
  split at hi
  · apply h.replaced i engine _ hi
    omega
  · cases hi

lemma mem_dropLast_or_getLast {α : Type} {xs : List α} {x : α} (hx : x ∈ xs) :
    x ∈ xs.dropLast ∨ xs.getLast? = some x := by
  have hne := List.ne_nil_of_mem hx
  rw [← List.dropLast_concat_getLast hne, List.mem_append, List.mem_singleton] at hx
  rw [List.getLast?_eq_some_getLast hne]
  exact hx.imp_right (fun hlast => congrArg some hlast.symm)

lemma closing_streamsCancelled {old : List (Engine σ)} (h : Closing old s) : StreamsCancelled s := by
  intro hcancelled r hr _ engine token hstage
  rw [(h.inv.served r hr).token engine token hstage]
  have hreplaced : engine ∈ s.installed.dropLast → engine.sseCancelToken ∈ s.cancelled :=
    replaced_cancelled h.inv
  rcases h.streams r hr engine token hstage with hold | hdropped
  · rcases mem_dropLast_or_getLast hold with hdropped | hlast
    · exact hreplaced (mem_dropLast_mono h.kept hdropped)
    · rcases h.last engine hlast with hloaded | ⟨_, htoken⟩
      · rw [hcancelled] at hloaded
        cases hloaded
      · exact htoken
  · exact hreplaced hdropped

lemma not_begun {acts : List (Act σ β κ)} (h : run (step base) init acts = some s)
    (hload : .shutdownLoad ∉ acts) : s.shutdown = .none := by
  have hstep : ∀ (s : State σ) (a : Act σ β κ) (s' : State σ), a ≠ .shutdownLoad → s.shutdown = .none →
      step base s a = some s' → s'.shutdown = .none := by
    intro s a s' ha hnone hs
    rcases step_shutdown hs with heq | ⟨hload, _⟩ | ⟨_, hloaded, _⟩
    · exact heq.trans hnone
    · exact absurd hload ha
    · rw [hnone] at hloaded
      cases hloaded
  exact run_invariant_of hstep (permitted_of_forall (fun a ha => ne_of_mem_of_not_mem ha hload) init) rfl h

theorem shutdown_cancels {acts : List (Act σ β κ)} (h : run (step base) init acts = some s)
    (hC : StartsBeforeShutdown base acts) : StreamsCancelled s := by
  by_cases hload : .shutdownLoad ∈ acts
  · obtain ⟨before, after, rfl⟩ := List.append_of_mem hload
    obtain ⟨t, hbefore, hafter⟩ := run_append.mp h
    obtain ⟨u, hu, hafter⟩ := run_cons.mp hafter
    have hpermitted := hC before after t rfl hbefore
    have hclosing := closing_load (inv_run hbefore) hu
    exact closing_streamsCancelled (run_invariant_of closing_step (hpermitted.2 u hu) hclosing hafter)
  · intro hcancelled
    rw [not_begun h hload] at hcancelled
    cases hcancelled

def reloadedEarly : List (Act Unit Str Unit) :=
  [.script sampleInterpreter "a".toList none, .send, .first, .arrive, .load 0, .stream 0,
    .script sampleInterpreter "b".toList none, .send, .recv]

def reloadedLate : List (Act Unit Str Unit) := [.cancel, .store, .shutdownCancel]

theorem shutdown_cancels_reloaded :
    ∃ s, run (step ⟨(), none, 0⟩) init (reloadedEarly ++ .shutdownLoad :: reloadedLate) = some s ∧
      StreamsCancelled s := by
  obtain ⟨s, hs⟩ := Option.isSome_iff_exists.mp
    (by decide : (run (step ⟨(), none, 0⟩) init (reloadedEarly ++ .shutdownLoad :: reloadedLate)).isSome = true)
  refine ⟨s, hs, shutdown_cancels hs ?_⟩
  intro before after t hsplit _
  have hearly : .shutdownLoad ∉ reloadedEarly := by simp [reloadedEarly]
  have hlate : .shutdownLoad ∉ reloadedLate := by simp [reloadedLate]
  obtain ⟨_, _, rfl⟩ := (List.append_cons_inj_of_notMem hearly hlate).mp hsplit
  apply Permitted.mono (C := fun _ a => ∀ i, a ≠ .stream i)
  · intro u a ha i r engine hi
    exact absurd hi (ha i)
  · apply permitted_of_forall
    simp [reloadedLate]

/-- A reload is on its way when the shutdown begins, and a request that has arrived meets the new engine. -/
def reloadedRun : List (Act Unit Str Unit) :=
  [.script sampleInterpreter "a".toList none, .send, .first, .arrive,
    .script sampleInterpreter "b".toList none, .send, .recv, .shutdownLoad, .shutdownCancel, .cancel, .store,
    .load 0, .stream 0]

theorem reloaded_attached :
    ∃ s, run (step ⟨(), none, 0⟩) init reloadedRun = some s ∧ ¬ StreamsCancelled s := by
  obtain ⟨s, hs⟩ := Option.isSome_iff_exists.mp
    (by decide : (run (step ⟨(), none, 0⟩) init reloadedRun).isSome = true)
  have hall : (run (step ⟨(), none, 0⟩) init reloadedRun).map (fun s => (s.shutdown, s.cancelled, s.requests)) =
      some (.cancelled, [0, 0], [⟨1, .streaming ⟨(), some 0, 1⟩ 1, none⟩]) := rfl
  rw [hs] at hall
  obtain ⟨hshutdown, hcancelled, hrequests⟩ : s.shutdown = .cancelled ∧ s.cancelled = [0, 0] ∧
      s.requests = [⟨1, .streaming ⟨(), some 0, 1⟩ 1, none⟩] := by simpa using hall
  refine ⟨s, hs, fun h => ?_⟩
  have htoken := h hshutdown _ (hrequests ▸ List.mem_cons_self) rfl _ _ rfl
  rw [hcancelled] at htoken
  exact absurd htoken (by decide)

end HttpNu.Serve
