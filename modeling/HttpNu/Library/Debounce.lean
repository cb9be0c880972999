import Mathlib.Data.List.Basic
import Mathlib.Tactic

/-! An action that waits for quiet: the history of what was taken in and of when the action fired. -/

namespace HttpNu.Library

inductive Entry (α : Type) where
  | taken (value : α)
  | fired
  deriving DecidableEq

variable {α : Type}

def outstanding (relevant : α → Bool) (history : List (Nat × Entry α)) : Bool :=
  history.foldl (fun due entry =>
    match entry.2 with
    | .taken value => due || relevant value
    | .fired => false) false

def firings (history : List (Nat × Entry α)) : List Nat :=
  history.filterMap fun entry =>
    match entry.2 with
    | .taken _ => none
    | .fired => some entry.1

def takings (relevant : α → Bool) (history : List (Nat × Entry α)) : List Nat :=
  history.filterMap fun entry =>
    match entry.2 with
    | .taken value => if relevant value then some entry.1 else none
    | .fired => none

/-- The action fires only when something is outstanding and nothing at all came for the quiet time before. -/
def Debounced (quiet : Nat) (relevant : α → Bool) (history : List (Nat × Entry α)) : Prop :=
  ∀ before t after, history = before ++ (t, .fired) :: after →
    outstanding relevant before ∧ ∀ entry ∈ before, entry.1 + quiet ≤ t

variable {quiet : Nat} {relevant : α → Bool} {history : List (Nat × Entry α)}

@[simp] lemma outstanding_taken (t : Nat) (value : α) :
    outstanding relevant (history ++ [(t, .taken value)]) = (outstanding relevant history || relevant value) := by
  simp [outstanding]

@[simp] lemma outstanding_fired (t : Nat) : outstanding relevant (history ++ [(t, .fired)]) = false := by
  simp [outstanding]

@[simp] lemma firings_taken (t : Nat) (value : α) :
    firings (history ++ [(t, .taken value)]) = firings history := by
  simp [firings]

@[simp] lemma firings_fired (t : Nat) : firings (history ++ [(t, .fired)]) = firings history ++ [t] := by
  simp [firings]

@[simp] lemma takings_fired (t : Nat) :
    takings relevant (history ++ [(t, .fired)]) = takings relevant history := by
  simp [takings]

lemma takings_taken (t : Nat) (value : α) : takings relevant (history ++ [(t, .taken value)]) =
    takings relevant history ++ if relevant value then [t] else [] := by
  cases h : relevant value <;> simp [takings, h]

lemma mem_firings {t : Nat} : t ∈ firings history ↔ (t, .fired) ∈ history := by
  simp only [firings, List.mem_filterMap]
  constructor
  · rintro ⟨⟨time, entry⟩, hmem, heq⟩
    cases entry with
    | taken value => cases heq
    | fired => exact Option.some.inj heq ▸ hmem
  · intro hmem
    exact ⟨_, hmem, rfl⟩

lemma debounced_nil : Debounced quiet relevant [] := by
  intro before t after h
  simp at h

lemma Debounced.init {entry : Nat × Entry α} (h : Debounced quiet relevant (history ++ [entry])) :
    Debounced quiet relevant history := by
  intro before t after heq
  exact h before t (after ++ [entry]) (by simp [heq])

lemma Debounced.taken (h : Debounced quiet relevant history) (t : Nat) (value : α) :
    Debounced quiet relevant (history ++ [(t, .taken value)]) := by
  intro before t' after heq
  rcases List.eq_nil_or_concat after with rfl | ⟨after, last, rfl⟩
  · obtain ⟨_, hlast⟩ := List.append_inj' heq rfl
    simp at hlast
  · rw [List.concat_eq_append, ← List.cons_append, ← List.append_assoc] at heq
    exact h before t' after (List.append_inj' heq rfl).1

lemma Debounced.fired {t : Nat} (h : Debounced quiet relevant history) (hdue : outstanding relevant history)
    (hquiet : ∀ entry ∈ history, entry.1 + quiet ≤ t) : Debounced quiet relevant (history ++ [(t, .fired)]) := by
  intro before t' after heq
  rcases List.eq_nil_or_concat after with rfl | ⟨after, last, rfl⟩
  · obtain ⟨rfl, hlast⟩ := List.append_inj' heq rfl
    simp only [List.cons.injEq, Prod.mk.injEq, and_true] at hlast
    exact ⟨hdue, hlast ▸ hquiet⟩
  · rw [List.concat_eq_append, ← List.cons_append, ← List.append_assoc] at heq
    exact h before t' after (List.append_inj' heq rfl).1

lemma Debounced.spaced (h : Debounced quiet relevant history) :
    (firings history).Pairwise (fun t t' => t + quiet ≤ t') := by
  induction history using List.reverseRecOn with
  | nil => exact List.Pairwise.nil
  | append_singleton history entry ih =>
    obtain ⟨t, entry⟩ := entry
    cases entry with
    | taken value =>
      rw [firings_taken]
      exact ih h.init
    | fired =>
      rw [firings_fired]
      apply List.pairwise_append.mpr
      refine ⟨ih h.init, List.pairwise_singleton _ _, fun t' ht' t'' ht'' => ?_⟩
      obtain rfl := List.mem_singleton.mp ht''
      exact (h history t'' [] rfl).2 _ (mem_firings.mp ht')

-- A firing uses up what was outstanding, so it is paid for by a relevant entry of its own.
lemma Debounced.firings_add_le (h : Debounced quiet relevant history) :
    (firings history).length + (outstanding relevant history).toNat ≤ (takings relevant history).length := by
  induction history using List.reverseRecOn with
  | nil => simp [firings, takings, outstanding]
  | append_singleton history entry ih =>
    obtain ⟨t, entry⟩ := entry
    have hle := ih h.init
    cases entry with
    | taken value =>
      rw [firings_taken, outstanding_taken, takings_taken]
      cases relevant value <;> cases hdue : outstanding relevant history <;> simp [hdue] at hle ⊢ <;> omega
    | fired =>
      have hdue := (h history t [] rfl).1
      simp only [firings_fired, outstanding_fired, takings_fired, List.length_append, List.length_singleton,
        Bool.toNat_false, hdue, Bool.toNat_true] at hle ⊢
      omega

lemma Debounced.firings_le (h : Debounced quiet relevant history) :
    (firings history).length ≤ (takings relevant history).length :=
  (Nat.le_add_right _ _).trans h.firings_add_le

lemma spaced_length_le {times : List Nat} (h : times.Pairwise (fun t t' => t + quiet ≤ t')) (start n : Nat)
    (hstart : ∀ t ∈ times, start ≤ t) (hend : ∀ t ∈ times, t < start + n * quiet) : times.length ≤ n := by
  induction times generalizing start n with
  | nil => exact Nat.zero_le n
  | cons t times ih =>
    obtain ⟨hnext, hrest⟩ := List.pairwise_cons.mp h
    have hfrom := hstart t List.mem_cons_self
    have huntil := hend t List.mem_cons_self
    cases n with
    | zero => omega
    | succ n =>
      have hlen : times.length ≤ n := by
        apply ih hrest (start + quiet) n
        · intro t' ht'
          have := hnext t' ht'
          omega
        · intro t' ht'
          have := hend t' (List.mem_cons_of_mem t ht')
          rw [Nat.succ_mul] at this
          omega
      simpa using hlen

lemma Debounced.rate (h : Debounced quiet relevant history) (start n : Nat) :
    ((firings history).filter (fun t => start ≤ t ∧ t < start + n * quiet)).length ≤ n := by
  apply spaced_length_le (h.spaced.filter _) start n
  · intro t ht
    have := List.of_mem_filter ht
    simp only [decide_eq_true_eq] at this
    exact this.1
  · intro t ht
    have := List.of_mem_filter ht
    simp only [decide_eq_true_eq] at this
    exact this.2

end HttpNu.Library
