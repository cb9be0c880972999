import Mathlib.Data.List.Basic
import Mathlib.Tactic

/-! Stores that keep one entry for a key, each until its date, in the order in which the keys came. -/

namespace HttpNu.Library.DatedStore

structure Entry (κ ν : Type) where
  key : κ
  value : ν
  /-- the time from which it is gone, if there is one -/
  expires : Option Nat

variable {κ ν : Type}

def Entry.Alive (now : Nat) (e : Entry κ ν) : Prop := ∀ t ∈ e.expires, now < t

instance (now : Nat) (e : Entry κ ν) : Decidable (e.Alive now) := inferInstanceAs (Decidable (∀ _ ∈ e.expires, _))

variable [DecidableEq κ]

def put (store : List (Entry κ ν)) (e : Entry κ ν) : List (Entry κ ν) :=
  if e.key ∈ store.map Entry.key then store.map (fun o => if o.key = e.key then e else o) else store ++ [e]

def putAll (es : List (Entry κ ν)) : List (Entry κ ν) := es.foldl put []

lemma putAll_concat (es : List (Entry κ ν)) (e : Entry κ ν) : putAll (es ++ [e]) = put (putAll es) e :=
  List.foldl_concat ..

lemma keys_replace (store : List (Entry κ ν)) (e : Entry κ ν) :
    (store.map (fun o => if o.key = e.key then e else o)).map Entry.key = store.map Entry.key := by
  rw [List.map_map]
  apply List.map_congr_left
  intro o _
  by_cases ho : o.key = e.key <;> simp [ho]

lemma nodup_put {store : List (Entry κ ν)} (h : (store.map Entry.key).Nodup) (e : Entry κ ν) :
    ((put store e).map Entry.key).Nodup := by
  rw [put]
  split
  · rwa [keys_replace]
  · rename_i hnew
    rw [List.map_append, List.map_singleton]
    exact List.nodup_append'.mpr ⟨h, List.nodup_singleton _, by simpa using hnew⟩

lemma mem_put {store : List (Entry κ ν)} {e x : Entry κ ν} :
    x ∈ put store e ↔ x = e ∨ x ∈ store ∧ x.key ≠ e.key := by
  rw [put]
  split
  · rename_i hold
    rw [List.mem_map]
    constructor
    · rintro ⟨o, ho, rfl⟩
      by_cases hkey : o.key = e.key
      · exact Or.inl (if_pos hkey)
      · rw [if_neg hkey]
        exact Or.inr ⟨ho, hkey⟩
    · rintro (rfl | ⟨hx, hkey⟩)
      · obtain ⟨o, ho, hkey⟩ := List.mem_map.mp hold
        exact ⟨o, ho, if_pos hkey⟩
      · exact ⟨x, hx, if_neg hkey⟩
  · rename_i hnew
    rw [List.mem_append, List.mem_singleton, or_comm]
    refine or_congr_right ⟨fun hx => ⟨hx, fun hkey => hnew ?_⟩, And.left⟩
    exact hkey ▸ List.mem_map_of_mem hx

lemma nodup_putAll (es : List (Entry κ ν)) : ((putAll es).map Entry.key).Nodup := by
  induction es using List.reverseRecOn with
  | nil => exact List.nodup_nil
  | append_singleton es e ih =>
    rw [putAll_concat]
    exact nodup_put ih e

theorem mem_putAll {es : List (Entry κ ν)} {x : Entry κ ν} :
    x ∈ putAll es ↔ (es.filter (fun e => e.key = x.key)).getLast? = some x := by
  induction es using List.reverseRecOn with
  | nil => simp [putAll]
  | append_singleton es e ih =>
    rw [putAll_concat, mem_put, ih, List.filter_append]
    by_cases hkey : e.key = x.key
    · rw [List.filter_cons_of_pos (by simpa using hkey), List.filter_nil, List.getLast?_concat, Option.some_inj]
      simp [hkey, eq_comm]
    · have hne : x ≠ e := fun h => hkey (h ▸ rfl)
      rw [List.filter_cons_of_neg (by simpa using hkey), List.filter_nil, List.append_nil]
      simp [hne, Ne.symm hkey]

end HttpNu.Library.DatedStore
