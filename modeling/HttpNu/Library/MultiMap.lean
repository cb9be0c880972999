import Mathlib.Data.List.Basic
import Mathlib.Tactic

/-! Maps that keep several values for one key, in the order in which they were added. -/

namespace HttpNu.Library

lemma lookup_eq_some_iff {α β : Type} [DecidableEq α] {l : List (α × β)} (h : (l.map Prod.fst).Nodup)
    {k : α} {v : β} :
    (l.find? (fun e => e.1 = k)).map Prod.snd = some v ↔ (k, v) ∈ l := by
  induction l with
  | nil => simp
  | cons e rest ih =>
    obtain ⟨j, w⟩ := e
    rw [List.map_cons, List.nodup_cons] at h
    by_cases hk : j = k
    · subst hk
      have hnot : (j, v) ∉ rest := fun hmem => h.1 (List.mem_map.mpr ⟨(j, v), hmem, rfl⟩)
      simp [hnot, eq_comm]
    · rw [List.find?_cons_of_neg (by simpa using hk), ih h.2, List.mem_cons]
      simp [Ne.symm hk]

structure MultiMap (α β : Type) where
  entries : List (α × β)

namespace MultiMap

variable {α β : Type} [DecidableEq α]

def empty : MultiMap α β := ⟨[]⟩

def getAll (m : MultiMap α β) (k : α) : List β :=
  (m.entries.filter (fun e => e.1 = k)).map Prod.snd

def get (m : MultiMap α β) (k : α) : Option β := (m.getAll k).head?

def containsKey (m : MultiMap α β) (k : α) : Bool := !(m.getAll k).isEmpty

def insert (m : MultiMap α β) (k : α) (v : β) : MultiMap α β :=
  ⟨m.entries.filter (fun e => e.1 ≠ k) ++ [(k, v)]⟩

def append (m : MultiMap α β) (k : α) (v : β) : MultiMap α β := ⟨m.entries ++ [(k, v)]⟩

@[simp] lemma getAll_empty (k : α) : (empty : MultiMap α β).getAll k = [] := rfl

@[simp] lemma getAll_insert_self (m : MultiMap α β) (k : α) (v : β) :
    (m.insert k v).getAll k = [v] := by
  simp [insert, getAll, List.filter_filter]

lemma getAll_insert_ne (m : MultiMap α β) {j k : α} (h : j ≠ k) (v : β) :
    (m.insert k v).getAll j = m.getAll j := by
  have hf : ∀ e : α × β, (decide (e.1 = j) && !decide (e.1 = k)) = decide (e.1 = j) := by
    intro e
    by_cases he : e.1 = j <;> simp [he, h]
  simp [insert, getAll, List.filter_append, List.filter_filter, h.symm, hf]

lemma getAll_append (m : MultiMap α β) (j k : α) (v : β) :
    (m.append k v).getAll j = m.getAll j ++ if j = k then [v] else [] := by
  by_cases h : j = k
  · simp [append, getAll, List.filter_append, h]
  · simp [append, getAll, List.filter_append, h, Ne.symm h]

lemma get_insert_self (m : MultiMap α β) (k : α) (v : β) : (m.insert k v).get k = some v := by
  simp [get]

end MultiMap

end HttpNu.Library
