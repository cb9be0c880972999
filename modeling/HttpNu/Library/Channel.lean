import Mathlib.Data.List.Basic
import Mathlib.Tactic

/-! Channels as their receivers see them. -/

namespace HttpNu.Library

/-- A channel for one value, until its sender is used or dropped. -/
inductive Oneshot (α : Type) where
  | waiting
  | sent (value : α)
  | closed
  deriving DecidableEq

inductive Sender where
  | mk
  deriving DecidableEq

namespace Oneshot

variable {α : Type}

def send (ch : Oneshot α) (_ : Sender) (value : α) : Oneshot α :=
  match ch with
  | waiting => sent value
  | ch => ch

def drop (ch : Oneshot α) : Option Sender → Oneshot α
  | none => ch
  | some _ =>
    match ch with
    | waiting => closed
    | ch => ch

def value? : Oneshot α → Option α
  | sent value => some value
  | _ => none

@[simp] lemma send_waiting (tx : Sender) (value : α) : send waiting tx value = sent value := rfl

@[simp] lemma drop_none (ch : Oneshot α) : ch.drop none = ch := rfl

@[simp] lemma drop_waiting (tx : Sender) : (waiting : Oneshot α).drop (some tx) = closed := rfl

@[simp] lemma drop_sent (value : α) (tx : Option Sender) : (sent value).drop tx = sent value := by
  cases tx <;> rfl

@[simp] lemma drop_closed (tx : Option Sender) : (closed : Oneshot α).drop tx = closed := by
  cases tx <;> rfl

end Oneshot

/-- A queue between a sender and a receiver: everything ever sent, and how much of it was received. -/
structure Mpsc (α : Type) where
  sent : List α
  taken : Nat
  taken_le : taken ≤ sent.length
  closed : Bool

inductive Received (α : Type) where
  | item (value : α)
  | empty
  | disconnected

namespace Mpsc

variable {α : Type}

def new : Mpsc α := ⟨[], 0, le_rfl, false⟩

def received (ch : Mpsc α) : List α := ch.sent.take ch.taken

def queue (ch : Mpsc α) : List α := ch.sent.drop ch.taken

def send (ch : Mpsc α) (value : α) : Mpsc α where
  sent := ch.sent ++ [value]
  taken := ch.taken
  taken_le := by
    have := ch.taken_le
    simp only [List.length_append]
    omega
  closed := ch.closed

def close (ch : Mpsc α) : Mpsc α := { ch with closed := true }

/-- The receiver takes the oldest value; the channel ends only once it is empty. -/
def recv (ch : Mpsc α) : Received α × Mpsc α :=
  if h : ch.taken < ch.sent.length then
    (.item ch.sent[ch.taken], { ch with taken := ch.taken + 1, taken_le := h })
  else if ch.closed then (.disconnected, ch)
  else (.empty, ch)

@[simp] lemma sent_send (ch : Mpsc α) (value : α) : (ch.send value).sent = ch.sent ++ [value] := rfl

@[simp] lemma closed_send (ch : Mpsc α) (value : α) : (ch.send value).closed = ch.closed := rfl

@[simp] lemma received_send (ch : Mpsc α) (value : α) : (ch.send value).received = ch.received :=
  List.take_append_of_le_length ch.taken_le

lemma queue_send (ch : Mpsc α) (value : α) : (ch.send value).queue = ch.queue ++ [value] :=
  List.drop_append_of_le_length ch.taken_le

lemma received_prefix (ch : Mpsc α) : ch.received <+: ch.sent := List.take_prefix _ _

lemma received_append_queue (ch : Mpsc α) : ch.received ++ ch.queue = ch.sent := List.take_append_drop _ _

lemma recv_item {ch ch' : Mpsc α} {value : α} (h : ch.recv = (.item value, ch')) :
    ch'.sent = ch.sent ∧ ch'.closed = ch.closed ∧ ch'.received = ch.received ++ [value] := by
  simp only [recv] at h
  split at h
  · obtain ⟨hv, rfl⟩ := Prod.mk.inj h
    obtain rfl := Received.item.inj hv
    refine ⟨rfl, rfl, ?_⟩
    simp [received]
  · split at h <;> simp at h

lemma recv_of_queue {ch : Mpsc α} {value : α} {rest : List α} (h : ch.queue = value :: rest) :
    ∃ ch', ch.recv = (.item value, ch') ∧ ch'.queue = rest := by
  have hlt : ch.taken < ch.sent.length := by
    have := congrArg List.length h
    simp only [queue, List.length_drop, List.length_cons] at this
    omega
  rw [queue, List.drop_eq_getElem_cons hlt] at h
  obtain ⟨rfl, rfl⟩ := List.cons.inj h
  exact ⟨_, by rw [recv, dif_pos hlt], rfl⟩

lemma received_of_queue_nil {ch : Mpsc α} (h : ch.queue = []) : ch.received = ch.sent := by
  rw [← received_append_queue, h, List.append_nil]

lemma recv_of_queue_nil {ch : Mpsc α} (h : ch.queue = []) :
    ch.recv = (if ch.closed then .disconnected else .empty, ch) := by
  have hle : ch.sent.length ≤ ch.taken := List.drop_eq_nil_iff.mp h
  rw [recv, dif_neg (Nat.not_lt.mpr hle)]
  split <;> rfl

lemma recv_disconnected {ch ch' : Mpsc α} (h : ch.recv = (.disconnected, ch')) :
    ch' = ch ∧ ch.closed = true ∧ ch.received = ch.sent := by
  simp only [recv] at h
  split at h
  · simp at h
  · rename_i hlt
    split at h
    · rename_i hc
      refine ⟨(Prod.mk.inj h).2.symm, hc, ?_⟩
      rw [received, List.take_of_length_le (by omega)]
    · simp at h

end Mpsc

end HttpNu.Library
