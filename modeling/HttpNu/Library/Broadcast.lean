import Mathlib.Data.List.Basic
import Mathlib.Tactic

/-! Broadcast channels of bounded capacity, whose receivers read one common history. -/

namespace HttpNu.Library

/-- Everything sent, of which only the last `capacity` values are retained. -/
structure Broadcast (α : Type) where
  history : List α
  capacity : Nat
  closed : Bool

inductive Reception (α : Type) where
  | item (value : α)
  | lagged (missed : Nat)
  | empty
  | closed

namespace Broadcast

variable {α : Type}

def new (capacity : Nat) : Broadcast α := ⟨[], capacity, false⟩

/-- A value is kept even when no receiver is there: none that comes later can tell. -/
def send (b : Broadcast α) (value : α) : Broadcast α := { b with history := b.history ++ [value] }

def close (b : Broadcast α) : Broadcast α := { b with closed := true }

/-- A receiver whose next value was overwritten is moved to the oldest one retained. -/
def recv (b : Broadcast α) (next : Nat) : Reception α × Nat :=
  if next + b.capacity < b.history.length then
    (.lagged (b.history.length - b.capacity - next), b.history.length - b.capacity)
  else
    match b.history[next]? with
    | some value => (.item value, next + 1)
    | none => (if b.closed then .closed else .empty, next)

def isEmpty (b : Broadcast α) (next : Nat) : Bool := b.history.length - next = 0

def overwritten (b : Broadcast α) : Nat := b.history.length - b.capacity

def between (b : Broadcast α) (start next : Nat) : List α := (b.history.drop start).take (next - start)

@[simp] lemma history_send (b : Broadcast α) (value : α) : (b.send value).history = b.history ++ [value] := rfl

@[simp] lemma capacity_send (b : Broadcast α) (value : α) : (b.send value).capacity = b.capacity := rfl

@[simp] lemma closed_send (b : Broadcast α) (value : α) : (b.send value).closed = b.closed := rfl

lemma recv_item {b : Broadcast α} {next next' : Nat} {value : α} (h : b.recv next = (.item value, next')) :
    next' = next + 1 ∧ b.history[next]? = some value := by
  simp only [recv] at h
  split at h
  · simp at h
  · split at h
    · rename_i hget
      obtain ⟨hv, hn⟩ := Prod.mk.inj h
      obtain rfl := Reception.item.inj hv
      exact ⟨hn.symm, hget⟩
    · split at h <;> simp at h

lemma recv_lagged {b : Broadcast α} {next next' missed : Nat} (h : b.recv next = (.lagged missed, next')) :
    next + b.capacity < b.history.length := by
  simp only [recv] at h
  split at h
  · assumption
  · split at h
    · simp at h
    · split at h <;> simp at h

lemma recv_lagged_eq {b : Broadcast α} {next next' missed : Nat} (h : b.recv next = (.lagged missed, next')) :
    next' = next + missed ∧ 0 < missed ∧ next' = b.overwritten := by
  have hlt := recv_lagged h
  rw [recv, if_pos hlt] at h
  obtain ⟨hmissed, hnext⟩ := Prod.mk.inj h
  obtain rfl := Reception.lagged.inj hmissed
  rw [overwritten]
  omega

lemma recv_empty {b : Broadcast α} {next next' : Nat} (h : b.recv next = (.empty, next')) :
    b.history.length ≤ next := by
  simp only [recv] at h
  split at h
  · simp at h
  · split at h
    · simp at h
    · rename_i hget
      exact List.getElem?_eq_none_iff.mp hget

lemma recv_closed {b : Broadcast α} {next next' : Nat} (h : b.recv next = (.closed, next')) :
    b.closed = true ∧ b.history.length ≤ next := by
  simp only [recv] at h
  split at h
  · simp at h
  · split at h
    · simp at h
    · rename_i hget
      split at h
      · exact ⟨by assumption, List.getElem?_eq_none_iff.mp hget⟩
      · simp at h

lemma between_self (b : Broadcast α) (start : Nat) : b.between start start = [] := by
  simp [between]

lemma between_succ {b : Broadcast α} {start next : Nat} {value : α} (hle : start ≤ next)
    (h : b.history[next]? = some value) : b.between start (next + 1) = b.between start next ++ [value] := by
  have hget : (b.history.drop start)[next - start]? = some value := by
    rw [List.getElem?_drop, Nat.add_sub_cancel' hle, h]
  rw [between, between, show next + 1 - start = next - start + 1 by omega, List.take_add_one, hget]
  rfl

lemma between_send {b : Broadcast α} {start next : Nat} (hle : start ≤ next) (hn : next ≤ b.history.length)
    (value : α) : (b.send value).between start next = b.between start next := by
  rw [between, between, history_send, List.drop_append_of_le_length (hle.trans hn),
    List.take_append_of_le_length (by simp; omega)]

lemma between_prefix (b : Broadcast α) (start next : Nat) : b.between start next <+: b.history.drop start :=
  List.take_prefix _ _

lemma between_end {b : Broadcast α} {start next : Nat} (h : b.history.length ≤ next) :
    b.between start next = b.history.drop start := by
  rw [between, List.take_of_length_le (by simp; omega)]

end Broadcast

end HttpNu.Library
