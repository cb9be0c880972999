import Mathlib.Data.List.Basic
import Mathlib.Tactic

/-! Logs in the order of their keys, read on from a key. -/

namespace HttpNu.Library

variable {α ι : Type} {key : α → ι}

def Standing (key : α → ι) (log : List α) (after : Option ι) : Prop :=
  ∀ k, after = some k → ∃ a ∈ log, key a = k

lemma Standing.mono {log log' : List α} {after : Option ι} (h : Standing key log after) (hp : log <+: log') :
    Standing key log' after := by
  intro k hk
  obtain ⟨a, ha, hak⟩ := h k hk
  exact ⟨a, hp.subset ha, hak⟩

lemma standing_of_mem {log : List α} {a : α} (ha : a ∈ log) : Standing key log (some (key a)) :=
  fun _ hk => ⟨a, ha, Option.some.inj hk⟩

variable [LinearOrder ι]

def Ascending (key : α → ι) (log : List α) : Prop := log.Pairwise (fun a b => key a < key b)

def above (after : Option ι) (k : ι) : Bool := after.all (fun j => decide (j < k))

/-- What a reader that stands at a key has still to read; without one it reads from the start. -/
def later (key : α → ι) (after : Option ι) (log : List α) : List α := log.filter (fun a => above after (key a))

@[simp] lemma above_none (k : ι) : above none k = true := rfl

@[simp] lemma above_some (j k : ι) : above (some j) k = true ↔ j < k := by simp [above]

lemma above_of_mem {log : List α} {after : Option ι} {a : α} (h : a ∈ later key after log) :
    above after (key a) = true := (List.mem_filter.mp h).2

lemma later_append (after : Option ι) (log log' : List α) :
    later key after (log ++ log') = later key after log ++ later key after log' := List.filter_append _ _

lemma Ascending.filter {log : List α} (h : Ascending key log) (p : α → Bool) : Ascending key (log.filter p) :=
  h.sublist List.filter_sublist

lemma Ascending.later {log : List α} (h : Ascending key log) (after : Option ι) :
    Ascending key (later key after log) := h.filter _

lemma Ascending.append {log : List α} {a : α} (h : Ascending key log) (ha : ∀ b ∈ log, key b < key a) :
    Ascending key (log ++ [a]) := by
  refine List.pairwise_append.mpr ⟨h, List.pairwise_singleton _ _, fun b hb c hc => ?_⟩
  obtain rfl := List.mem_singleton.mp hc
  exact ha b hb

lemma Standing.above {log : List α} {after : Option ι} {k : ι} (h : Standing key log after)
    (hk : ∀ b ∈ log, key b < k) : above after k = true := by
  cases after with
  | none => rfl
  | some j =>
    obtain ⟨a, ha, rfl⟩ := h j rfl
    exact (above_some _ _).mpr (hk a ha)

lemma later_of_cons {log rest : List α} {after : Option ι} {a : α} (h : Ascending key log)
    (hl : later key after log = a :: rest) : later key (some (key a)) log = rest := by
  have hasc : Ascending key (a :: rest) := hl ▸ h.later after
  obtain ⟨hrest, _⟩ := List.pairwise_cons.mp hasc
  have ha : above after (key a) = true := above_of_mem (hl ▸ List.mem_cons_self)
  have hsub : later key (some (key a)) log = later key (some (key a)) (later key after log) := by
    rw [later, later, later, List.filter_filter]
    apply List.filter_congr
    intro b _
    cases after with
    | none => simp
    | some j =>
      have hj : j < key a := (above_some _ _).mp ha
      by_cases hb : key a < key b
      · simp [above, hb, hj.trans hb]
      · simp [above, hb]
  rw [hsub, hl, later, List.filter_cons_of_neg (by simp), List.filter_eq_self]
  exact fun b hb => (above_some _ _).mpr (hrest b hb)

end HttpNu.Library
