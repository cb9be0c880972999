import Mathlib.Data.List.Basic
import Mathlib.Tactic

/-! Tables that keep what was fetched once, and computations that ask them. -/

namespace HttpNu.Library

/-- A computation that asks for answers by key, each question depending on the answers before it. -/
inductive Asking (κ α ρ : Type) where
  | done (result : ρ)
  | ask (k : κ) (next : α → Asking κ α ρ)

namespace Asking

variable {κ α ρ : Type}

def run (answer : κ → α) : Asking κ α ρ → ρ
  | done result => result
  | ask k next => (next (answer k)).run answer

def Asks (answer : κ → α) (k : κ) : Asking κ α ρ → Prop
  | done _ => False
  | ask j next => j = k ∨ (next (answer j)).Asks answer k

lemma run_congr {f g : κ → α} {q : Asking κ α ρ} (h : ∀ k, q.Asks f k → f k = g k) : q.run f = q.run g := by
  induction q with
  | done result => rfl
  | ask j next ih =>
    have hj : f j = g j := h j (Or.inl rfl)
    rw [run, run, ← hj]
    exact ih (f j) (fun k hk => h k (Or.inr hk))

end Asking

structure Memo (κ ν : Type) where
  kept : List (κ × ν)

namespace Memo

variable {κ ν ε ρ : Type} [DecidableEq κ]

def empty : Memo κ ν := ⟨[]⟩

def find (m : Memo κ ν) (k : κ) : Option ν := (m.kept.find? (fun e => e.1 = k)).map Prod.snd

def keep (m : Memo κ ν) (k : κ) (v : ν) : Memo κ ν := ⟨(k, v) :: m.kept⟩

@[simp] lemma find_empty (k : κ) : (empty : Memo κ ν).find k = none := rfl

@[simp] lemma find_keep_self (m : Memo κ ν) (k : κ) (v : ν) : (m.keep k v).find k = some v := by
  simp [find, keep]

lemma find_keep_ne (m : Memo κ ν) {j k : κ} (h : j ≠ k) (v : ν) : (m.keep k v).find j = m.find j := by
  simp [find, keep, h.symm]

variable (fetch : κ → Except ε ν)

/-- What is kept is not fetched again; what cannot be fetched is not kept. -/
def get (m : Memo κ ν) (k : κ) : Except ε ν × Memo κ ν :=
  match m.find k with
  | some v => (.ok v, m)
  | none =>
    match fetch k with
    | .ok v => (.ok v, m.keep k v)
    | .error e => (.error e, m)

def view (m : Memo κ ν) (k : κ) : Except ε ν :=
  match m.find k with
  | some v => .ok v
  | none => fetch k

def exec : Asking κ (Except ε ν) ρ → Memo κ ν → ρ × Memo κ ν
  | .done result, m => (result, m)
  | .ask k next, m => exec (next (m.get fetch k).1) (m.get fetch k).2

variable {fetch} {m : Memo κ ν}

lemma view_of_find {k : κ} {v : ν} (h : m.find k = some v) : m.view fetch k = .ok v := by
  simp only [view, h]

lemma get_cases (fetch : κ → Except ε ν) (m : Memo κ ν) (k : κ) :
    m.get fetch k = (m.view fetch k, m) ∨
      ∃ v, m.find k = none ∧ fetch k = .ok v ∧ m.get fetch k = (.ok v, m.keep k v) := by
  simp only [get, view]
  cases hfind : m.find k with
  | some v => exact Or.inl rfl
  | none =>
    cases hfetch : fetch k with
    | ok v => exact Or.inr ⟨v, rfl, rfl, rfl⟩
    | error e => exact Or.inl rfl

lemma get_fst (k : κ) : (m.get fetch k).1 = m.view fetch k := by
  rcases get_cases fetch m k with h | ⟨v, hfind, hfetch, h⟩
  · rw [h]
  · rw [h, view, hfind]
    exact hfetch.symm

lemma view_get (k : κ) : (m.get fetch k).2.view fetch = m.view fetch := by
  rcases get_cases fetch m k with h | ⟨v, hfind, hfetch, h⟩
  · rw [h]
  · rw [h]
    funext j
    by_cases hj : j = k
    · rw [hj, view_of_find (find_keep_self m k v), view, hfind]
      exact hfetch.symm
    · rw [view, view, find_keep_ne m hj v]

lemma exec_fst (q : Asking κ (Except ε ν) ρ) (m : Memo κ ν) : (exec fetch q m).1 = q.run (m.view fetch) := by
  induction q generalizing m with
  | done result => rfl
  | ask k next ih => rw [exec, ih, get_fst, view_get, Asking.run]

lemma find_get {j : κ} {v : ν} (h : m.find j = some v) (k : κ) : (m.get fetch k).2.find j = some v := by
  rcases get_cases fetch m k with hg | ⟨w, hfind, _, hg⟩
  · rw [hg]
    exact h
  · have hj : j ≠ k := by
      rintro rfl
      simp [hfind] at h
    rw [hg, find_keep_ne m hj w]
    exact h

lemma find_exec {j : κ} {v : ν} (q : Asking κ (Except ε ν) ρ) (h : m.find j = some v) :
    (exec fetch q m).2.find j = some v := by
  induction q generalizing m with
  | done result => exact h
  | ask k next ih => exact ih _ (find_get h k)

def Fresh (fetch : κ → Except ε ν) (own : κ) (m : Memo κ ν) : Prop :=
  ∀ k v, k ≠ own → m.find k = some v → fetch k = .ok v

variable {own : κ}

lemma fresh_keep_empty (own : κ) (v : ν) : Fresh fetch own (empty.keep own v) := by
  intro k w hk hfind
  rw [find_keep_ne _ hk] at hfind
  cases hfind

lemma Fresh.view (h : Fresh fetch own m) {k : κ} (hk : k ≠ own) : m.view fetch k = fetch k := by
  rw [Memo.view]
  split
  · rename_i v hfind
    exact (h k v hk hfind).symm
  · rfl

lemma Fresh.get (h : Fresh fetch own m) (k : κ) : Fresh fetch own (m.get fetch k).2 := by
  rcases get_cases fetch m k with hg | ⟨v, _, hfetch, hg⟩
  · rw [hg]
    exact h
  · intro j w hj hfind
    rw [hg] at hfind
    by_cases hjk : j = k
    · rw [hjk, find_keep_self] at hfind
      rw [hjk, hfetch, Option.some.inj hfind]
    · rw [find_keep_ne m hjk v] at hfind
      exact h j w hj hfind

lemma Fresh.exec (h : Fresh fetch own m) (q : Asking κ (Except ε ν) ρ) : Fresh fetch own (exec fetch q m).2 := by
  induction q generalizing m with
  | done result => exact h
  | ask k next ih => exact ih _ (h.get k)

end Memo

end HttpNu.Library
