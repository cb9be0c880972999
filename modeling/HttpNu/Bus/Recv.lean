import HttpNu.Bus

/-! A `BusSubscription` on which `recv` is called again and again, past every `None`. -/

namespace HttpNu.Bus.BusSubscription

open Text Library

/-- `Some(ev)`, or `None` for one of two reasons. -/
inductive Returned where
  | event (ev : BusEvent)
  | lagged
  | closed

structure Life where
  bus : Broadcast BusEvent
  start : Nat
  matcher : Option GlobMatcher
  next : Nat
  returned : List Returned

inductive Act where
  | publish (ev : BusEvent)
  | round
  | dropBus

def init (capacity : Nat) (earlier : List BusEvent) (pattern : Option Str) : Life :=
  ⟨⟨earlier, ringSize capacity, false⟩, earlier.length, pattern.map GlobMatcher.new, earlier.length, []⟩

namespace Life

def output (s : Life) (next : Nat) (r : Returned) : Life := { s with next := next, returned := s.returned ++ [r] }

/-- One round of the loop in `recv`: an event that does not match leads to another round. -/
def recv (s : Life) : Option Life :=
  match s.bus.recv s.next with
  | (.item ev, next) =>
    some (if matchesTopic s.matcher ev.topic then s.output next (.event ev) else { s with next := next })
  | (.lagged _, next) => some (s.output next .lagged)
  | (.closed, next) => some (s.output next .closed)
  | (.empty, _) => none

end Life

def step (s : Life) : Act → Option Life
  | .publish ev => if s.bus.closed then none else some { s with bus := s.bus.send ev }
  | .round => s.recv
  | .dropBus => some { s with bus := s.bus.close }

def Act.published? : Act → Option BusEvent
  | .publish ev => some ev
  | _ => none

def Act.isRound : Act → Bool
  | .round => true
  | _ => false

def published (acts : List Act) : List BusEvent := acts.filterMap Act.published?

def rounds (acts : List Act) : Nat := acts.countP Act.isRound

/-- A round after these actions finds an overflow: the channel is too small for what was published beyond the
rounds, and since every round more events were published than rounds made. -/
def Overrun (capacity : Nat) (acts : List Act) : Prop :=
  rounds acts + capacity < (published acts).length ∧
    ∀ before after, acts = before ++ .round :: after → rounds after < (published after).length

def Returned.event? : Returned → Option BusEvent
  | .event ev => some ev
  | _ => none

namespace Life

def matching (s : Life) (evs : List BusEvent) : List BusEvent :=
  evs.filter (fun ev => matchesTopic s.matcher ev.topic)

def events (s : Life) : List BusEvent := s.returned.filterMap Returned.event?

/-- After an overflow the receiver stands at an event that is lost, or not yet there, or does not match. -/
def Meets (s : Life) (a : Act) : Prop :=
  a = .round → .lagged ∈ s.returned → s.next + s.bus.capacity < s.bus.history.length ∨
    ∀ ev ∈ s.bus.history[s.next]?, matchesTopic s.matcher ev.topic = false

lemma recv_cases {s s' : Life} (h : s.recv = some s') :
    (∃ ev, s.bus.history[s.next]? = some ev ∧ s.bus.history.length ≤ s.next + s.bus.capacity ∧
      ((matchesTopic s.matcher ev.topic = true ∧ s' = s.output (s.next + 1) (.event ev)) ∨
        (matchesTopic s.matcher ev.topic = false ∧ s' = { s with next := s.next + 1 }))) ∨
    (s.next + s.bus.capacity < s.bus.history.length ∧
      s' = s.output (s.bus.history.length - s.bus.capacity) .lagged) ∨
    (s.bus.history.length ≤ s.next ∧ s.bus.closed = true ∧ s' = s.output s.next .closed) := by
  rw [recv, Broadcast.recv] at h
  by_cases hlag : s.next + s.bus.capacity < s.bus.history.length
  · rw [if_pos hlag] at h
    exact Or.inr (Or.inl ⟨hlag, (Option.some.inj h).symm⟩)
  rw [if_neg hlag] at h
  cases hget : s.bus.history[s.next]? with
  | some ev =>
    refine Or.inl ⟨ev, rfl, by omega, ?_⟩
    rw [hget] at h
    obtain rfl := Option.some.inj h
    cases hm : matchesTopic s.matcher ev.topic with
    | true => exact Or.inl ⟨rfl, rfl⟩
    | false => exact Or.inr ⟨rfl, rfl⟩
  | none =>
    rw [hget] at h
    cases hclosed : s.bus.closed with
    | true =>
      simp only [hclosed, if_true] at h
      exact Or.inr (Or.inr ⟨List.getElem?_eq_none_iff.mp hget, rfl, (Option.some.inj h).symm⟩)
    | false => simp [hclosed] at h

@[simp] lemma events_output (s : Life) (next : Nat) (r : Returned) :
    (s.output next r).events = s.events ++ r.event?.toList := by
  cases r <;> simp [events, output, Returned.event?]

/-- As long as no event follows an overflow, they are the matching ones up to some point. -/
structure Inv (s : Life) : Prop where
  start_le : s.start ≤ s.next
  next_le : s.next ≤ s.bus.history.length
  events : ∃ upto, s.start ≤ upto ∧ upto ≤ s.next ∧ s.events = s.matching (s.bus.between s.start upto) ∧
    (.lagged ∉ s.returned → upto = s.next)
  silent : s.returned.Pairwise (fun earlier later => earlier = .lagged → later.event? = none)

lemma inv_init (capacity : Nat) (earlier : List BusEvent) (pattern : Option Str) :
    Inv (init capacity earlier pattern) where
  start_le := le_rfl
  next_le := le_rfl
  events := ⟨_, le_rfl, le_rfl, by simp [init, Life.events, matching, Broadcast.between_self], fun _ => rfl⟩
  silent := List.Pairwise.nil

lemma pairwise_output {s : Life} {r : Returned}
    (h : s.returned.Pairwise (fun earlier later => earlier = .lagged → later.event? = none))
    (hr : .lagged ∈ s.returned → r.event? = none) (next : Nat) :
    (s.output next r).returned.Pairwise (fun earlier later => earlier = .lagged → later.event? = none) := by
  refine List.pairwise_append.mpr ⟨h, List.pairwise_singleton _ _, ?_⟩
  rintro a ha b hb rfl
  exact List.mem_singleton.mp hb ▸ hr ha

lemma inv_round {s s' : Life} (hmeets : Meets s .round) (h : Inv s) (hs : s.recv = some s') : Inv s' := by
  have hstart := h.start_le
  obtain ⟨upto, hu, hn, hevents, hlag⟩ := h.events
  rcases recv_cases hs with ⟨ev, hget, hle, ⟨hm, rfl⟩ | ⟨hm, rfl⟩⟩ | ⟨hlt, rfl⟩ | ⟨hle, _, rfl⟩
  · have hnolag : .lagged ∉ s.returned := by
      intro hmem
      rcases hmeets rfl hmem with hlost | hnomatch
      · omega
      · simp [hnomatch ev hget] at hm
    obtain rfl := hlag hnolag
    have hlt := (List.getElem?_eq_some_iff.mp hget).1
    refine ⟨Nat.le_succ_of_le hstart, hlt, ⟨s.next + 1, Nat.le_succ_of_le hstart, le_rfl, ?_, fun _ => rfl⟩,
      pairwise_output h.silent (fun hmem => absurd hmem hnolag) _⟩
    rw [events_output, hevents]
    simp only [output, matching, Broadcast.between_succ hu hget, List.filter_append, Returned.event?]
    simp [hm]
  · have hlt := (List.getElem?_eq_some_iff.mp hget).1
    refine ⟨Nat.le_succ_of_le hstart, hlt, ?_, h.silent⟩
    by_cases hmem : .lagged ∈ s.returned
    · exact ⟨upto, hu, Nat.le_succ_of_le hn, hevents, fun hno => absurd hmem hno⟩
    · obtain rfl := hlag hmem
      refine ⟨s.next + 1, Nat.le_succ_of_le hu, le_rfl, ?_, fun _ => rfl⟩
      change s.events = _
      rw [hevents]
      simp only [matching, Broadcast.between_succ hu hget, List.filter_append]
      simp [hm]
  · refine ⟨?_, Nat.sub_le _ _, ⟨upto, hu, ?_, ?_, fun hno => absurd ?_ hno⟩,
      pairwise_output h.silent (fun _ => rfl) _⟩
    · simp only [output]
      omega
    · simp only [output]
      omega
    · rw [events_output, hevents]
      exact List.append_nil _
    · simp [output]
  · refine ⟨hstart, h.next_le, ⟨upto, hu, hn, ?_, fun hno => hlag ?_⟩, pairwise_output h.silent (fun _ => rfl) _⟩
    · rw [events_output, hevents]
      exact List.append_nil _
    · exact fun hmem => hno (List.mem_append_left _ hmem)

lemma inv_step (s : Life) (a : Act) (s' : Life) (hmeets : Meets s a) (h : Inv s) (hs : step s a = some s') :
    Inv s' := by
  cases a with
  | publish ev =>
    simp only [step] at hs
    split at hs
    · simp at hs
    · obtain rfl := Option.some.inj hs
      obtain ⟨upto, hu, hn, hevents, hlag⟩ := h.events
      refine ⟨h.start_le, ?_, ⟨upto, hu, hn, ?_, hlag⟩, h.silent⟩
      · have := h.next_le
        simp only [Broadcast.history_send, List.length_append]
        omega
      · change s.events = s.matching ((s.bus.send ev).between s.start upto)
        rw [Broadcast.between_send hu (hn.trans h.next_le), hevents]
  | round => exact inv_round hmeets h hs
  | dropBus =>
    obtain rfl := Option.some.inj hs
    exact ⟨h.start_le, h.next_le, h.events, h.silent⟩

/-- How many of the published events are behind the subscription: each round passes one, or all but the last
`capacity`. -/
def place (capacity : Nat) (acts : List Act) : Nat :=
  (acts.foldl (fun (t : Nat × Nat) a => match a with
    | .publish _ => (t.1 + 1, t.2)
    | .round => (t.1, max (t.2 + 1) (t.1 - capacity))
    | .dropBus => t) (0, 0)).2

section Place

variable {capacity : Nat} {acts : List Act}

lemma tally_fst (acts : List Act) : (acts.foldl (fun (t : Nat × Nat) a => match a with
    | .publish _ => (t.1 + 1, t.2)
    | .round => (t.1, max (t.2 + 1) (t.1 - capacity))
    | .dropBus => t) (0, 0)).1 = (published acts).length := by
  induction acts using List.reverseRecOn with
  | nil => rfl
  | append_singleton acts a ih =>
    rw [List.foldl_concat, published, List.filterMap_append, List.length_append, ← published, ← ih]
    cases a <;> rfl

lemma place_publish (ev : BusEvent) : place capacity (acts ++ [.publish ev]) = place capacity acts := by
  rw [place, List.foldl_concat, ← place]

lemma place_dropBus : place capacity (acts ++ [.dropBus]) = place capacity acts := by
  rw [place, List.foldl_concat, ← place]

lemma place_round :
    place capacity (acts ++ [.round]) = max (place capacity acts + 1) ((published acts).length - capacity) := by
  rw [place, List.foldl_concat, tally_fst, ← place]

lemma published_append (acts later : List Act) : published (acts ++ later) = published acts ++ published later :=
  List.filterMap_append

lemma published_round (before after : List Act) :
    published (before ++ .round :: after) = published (before ++ after) := by
  rw [published_append, published_append]
  rfl

lemma split_concat {before after : List Act} {a : Act} (h : acts ++ [a] = before ++ .round :: after) :
    (after = [] ∧ a = .round ∧ before = acts) ∨ ∃ inner, after = inner ++ [a] ∧
      acts = before ++ .round :: inner := by
  rcases List.eq_nil_or_concat after with rfl | ⟨inner, last, rfl⟩
  · obtain ⟨hacts, ha⟩ := List.append_inj' h rfl
    exact Or.inl ⟨rfl, List.singleton_inj.mp ha, hacts.symm⟩
  · rw [List.concat_eq_append, ← List.cons_append, ← List.append_assoc] at h
    obtain ⟨hacts, ha⟩ := List.append_inj' h rfl
    obtain rfl := List.singleton_inj.mp ha
    exact Or.inr ⟨inner, List.concat_eq_append, hacts⟩

lemma place_lt_iff (bound : Nat) : place capacity acts + capacity < bound ↔ rounds acts + capacity < bound ∧
    ∀ before after, acts = before ++ .round :: after → (published before).length + rounds after < bound := by
  induction acts using List.reverseRecOn generalizing bound with
  | nil => simp [place, rounds]
  | append_singleton acts a ih =>
    have hkeep : a.isRound = false → place capacity (acts ++ [a]) = place capacity acts →
        (place capacity (acts ++ [a]) + capacity < bound ↔ rounds (acts ++ [a]) + capacity < bound ∧
          ∀ before after, acts ++ [a] = before ++ .round :: after →
            (published before).length + rounds after < bound) := by
      intro ha hplace
      have hrounds : ∀ acts, rounds (acts ++ [a]) = rounds acts := fun acts => by
        simp [rounds, ha]
      rw [hplace, hrounds, ih]
      refine and_congr_right (fun _ => ⟨fun h before after hsplit => ?_, fun h before after hsplit => ?_⟩)
      · rcases split_concat hsplit with ⟨_, rfl, _⟩ | ⟨inner, rfl, hinner⟩
        · cases ha
        · exact hrounds inner ▸ h before inner hinner
      · rw [← hrounds after]
        exact h before (after ++ [a]) (by rw [hsplit, List.append_assoc, List.cons_append])
    cases a with
    | publish ev => exact hkeep rfl (place_publish ev)
    | dropBus => exact hkeep rfl place_dropBus
    | round =>
      have hone : ∀ acts, rounds (acts ++ [.round]) = rounds acts + 1 := fun acts => by simp [rounds, Act.isRound]
      rw [place_round, hone]
      have hsplit : max (place capacity acts + 1) ((published acts).length - capacity) + capacity < bound ↔
          place capacity acts + capacity < bound - 1 ∧ (published acts).length < bound := by omega
      rw [hsplit, ih]
      constructor
      · rintro ⟨⟨hrounds, hall⟩, hlast⟩
        refine ⟨by omega, fun before after heq => ?_⟩
        rcases split_concat heq with ⟨rfl, _, rfl⟩ | ⟨inner, rfl, hinner⟩
        · exact hlast
        · have := hall before inner hinner
          rw [hone]
          omega
      · rintro ⟨hrounds, hall⟩
        refine ⟨⟨by omega, fun before after heq => ?_⟩, hall acts [] rfl⟩
        have := hall before (after ++ [.round]) (by rw [heq, List.append_assoc, List.cons_append])
        rw [hone] at this
        omega

lemma overrun_iff : Overrun capacity acts ↔ place capacity acts + capacity < (published acts).length := by
  rw [place_lt_iff, Overrun]
  refine and_congr_right (fun _ => forall₃_congr (fun before after hsplit => ?_))
  rw [hsplit, published_round, published_append, List.length_append]
  omega

end Place

structure Counted (earlier : List BusEvent) (cap : Nat) (acts : List Act) (s : Life) : Prop where
  history : s.bus.history = earlier ++ published acts
  capacity : s.bus.capacity = cap
  next : s.next = min (earlier.length + place cap acts) s.bus.history.length
  place_le : s.bus.closed = false → place cap acts ≤ (published acts).length
  lagged : .lagged ∈ s.returned ↔ ∃ before after, acts = before ++ .round :: after ∧ Overrun cap before

section Counted

variable {earlier : List BusEvent} {cap : Nat} {acts : List Act} {s s' : Life}

lemma Counted.length (h : Counted earlier cap acts s) :
    s.bus.history.length = earlier.length + (published acts).length := by
  rw [h.history, List.length_append]

lemma Counted.overrun_iff (h : Counted earlier cap acts s) :
    Overrun cap acts ↔ s.next + s.bus.capacity < s.bus.history.length := by
  have hnext := h.next
  have hlength := h.length
  rw [Life.overrun_iff, h.capacity]
  omega

lemma overrun_split_iff (a : Act) :
    (∃ before after, acts ++ [a] = before ++ .round :: after ∧ Overrun cap before) ↔
      (∃ before after, acts = before ++ .round :: after ∧ Overrun cap before) ∨
        (a = .round ∧ Overrun cap acts) := by
  constructor
  · rintro ⟨before, after, hsplit, hover⟩
    rcases split_concat hsplit with ⟨_, rfl, rfl⟩ | ⟨inner, _, hinner⟩
    · exact Or.inr ⟨rfl, hover⟩
    · exact Or.inl ⟨before, inner, hinner, hover⟩
  · rintro (⟨before, after, rfl, hover⟩ | ⟨rfl, hover⟩)
    · exact ⟨before, after ++ [a], by rw [List.append_assoc, List.cons_append], hover⟩
    · exact ⟨acts, [], rfl, hover⟩

lemma Counted.round (h : Counted earlier cap acts s) (hs : s.recv = some s') :
    Counted earlier cap (acts ++ [.round]) s' := by
  have hnext := h.next
  have hlength := h.length
  have hcapacity := h.capacity
  have hover := h.overrun_iff
  have hhistory : s.bus.history = earlier ++ published (acts ++ [.round]) := by
    rw [h.history, published_round, List.append_nil]
  have hpublished : published (acts ++ [.round]) = published acts := by rw [published_round, List.append_nil]
  have hnone : ¬ Overrun cap acts → (.lagged ∈ s.returned ↔
      ∃ before after, acts ++ [.round] = before ++ .round :: after ∧ Overrun cap before) := by
    intro hnot
    rw [overrun_split_iff, ← h.lagged]
    simp [hnot]
  rcases recv_cases hs with ⟨ev, hget, hle, hcase⟩ | ⟨hlt, rfl⟩ | ⟨hle, hclosed, rfl⟩
  · have hlt := (List.getElem?_eq_some_iff.mp hget).1
    have hplace : place cap (acts ++ [.round]) = place cap acts + 1 := by
      rw [place_round]
      omega
    have hlagged := hnone (by rw [hover]; omega)
    rcases hcase with ⟨_, rfl⟩ | ⟨_, rfl⟩
    · refine ⟨hhistory, hcapacity, ?_, fun _ => ?_, by simpa [output] using hlagged⟩
      · simp only [output, hplace]
        omega
      · rw [hplace, hpublished]
        omega
    · refine ⟨hhistory, hcapacity, ?_, fun _ => ?_, hlagged⟩
      · simp only [hplace]
        omega
      · rw [hplace, hpublished]
        omega
  · have hplace : place cap (acts ++ [.round]) = (published acts).length - cap := by
      rw [place_round]
      omega
    refine ⟨hhistory, hcapacity, ?_, fun _ => ?_, iff_of_true (by simp [output]) ?_⟩
    · simp only [output, hplace]
      omega
    · rw [hplace, hpublished]
      omega
    · exact (overrun_split_iff _).mpr (Or.inr ⟨rfl, hover.mpr hlt⟩)
  · refine ⟨hhistory, hcapacity, ?_, fun hopen => ?_, by simpa [output] using hnone (by rw [hover]; omega)⟩
    · simp only [output]
      rw [place_round]
      omega
    · exact absurd hclosed (by simpa [output] using hopen)

lemma Counted.step (h : Counted earlier cap acts s) {a : Act} (hs : step s a = some s') :
    Counted earlier cap (acts ++ [a]) s' := by
  cases a with
  | publish ev =>
    simp only [BusSubscription.step] at hs
    split at hs
    · simp at hs
    · rename_i hopen
      obtain rfl := Option.some.inj hs
      have hplace := h.place_le (by simpa using hopen)
      have hnext := h.next
      have hlength := h.length
      have hlast : published (acts ++ [.publish ev]) = published acts ++ [ev] := published_append acts _
      refine ⟨?_, h.capacity, ?_, fun _ => ?_, ?_⟩
      · rw [Broadcast.history_send, h.history, hlast, List.append_assoc]
      · simp only [place_publish, Broadcast.history_send, List.length_append]
        omega
      · rw [place_publish, hlast, List.length_append]
        omega
      · rw [overrun_split_iff, ← h.lagged]
        simp
  | dropBus =>
    obtain rfl := Option.some.inj hs
    have hlast : published (acts ++ [.dropBus]) = published acts := by
      rw [published_append]
      exact List.append_nil _
    refine ⟨hlast ▸ h.history, h.capacity, ?_, fun hopen => ?_, ?_⟩
    · rw [place_dropBus]
      exact h.next
    · cases hopen
    · rw [overrun_split_iff, ← h.lagged]
      simp
  | round => exact h.round hs

end Counted

end Life

open Life

end HttpNu.Bus.BusSubscription
