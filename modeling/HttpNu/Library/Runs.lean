import Mathlib.Data.List.Basic
import Mathlib.Tactic

/-! Runs of a machine that may refuse an action. -/

namespace HttpNu.Library

variable {σ α : Type}

def run (step : σ → α → Option σ) : σ → List α → Option σ
  | s, [] => some s
  | s, a :: as => (step s a).bind (fun s' => run step s' as)

variable {step : σ → α → Option σ}

@[simp] lemma run_nil (s : σ) : run step s [] = some s := rfl

lemma run_cons {s s' : σ} {a : α} {as : List α} :
    run step s (a :: as) = some s' ↔ ∃ t, step s a = some t ∧ run step t as = some s' := by
  simp [run, Option.bind_eq_some_iff]

lemma run_append {s s' : σ} {as bs : List α} :
    run step s (as ++ bs) = some s' ↔ ∃ t, run step s as = some t ∧ run step t bs = some s' := by
  induction as generalizing s with
  | nil => simp
  | cons a as ih =>
    simp only [List.cons_append, run_cons, ih]
    constructor
    · rintro ⟨u, hu, t, ht, hs⟩
      exact ⟨t, ⟨u, hu, ht⟩, hs⟩
    · rintro ⟨t, ⟨u, hu, ht⟩, hs⟩
      exact ⟨u, hu, t, ht, hs⟩

lemma run_of_step {s t : σ} {a : α} {as : List α} (h : step s a = some t) :
    run step s (a :: as) = run step t as := by
  rw [run, h, Option.bind_some]

lemma run_single {s t : σ} {a : α} (h : step s a = some t) : run step s [a] = some t := run_of_step h

lemma run_of_append {s t : σ} {as : List α} (h : run step s as = some t) (bs : List α) :
    run step s (as ++ bs) = run step t bs := by
  induction as generalizing s with
  | nil => rw [← Option.some.inj h, List.nil_append]
  | cons a as ih =>
    obtain ⟨u, hu, h⟩ := run_cons.mp h
    rw [List.cons_append, run_of_step hu, ih h]

/-- A part runs as it does by itself, where each of its steps is one of the whole. -/
lemma run_embed {τ β : Type} {part : τ → β → Option τ} {C : β → Prop} (put : τ → σ) (act : β → α)
    (hstep : ∀ t t' b, C b → part t b = some t' → step (put t) (act b) = some (put t')) {t t' : τ} {bs : List β}
    (hbs : ∀ b ∈ bs, C b) (hrun : run part t bs = some t') : run step (put t) (bs.map act) = some (put t') := by
  induction bs generalizing t with
  | nil =>
    obtain rfl := Option.some.inj hrun
    rfl
  | cons b bs ih =>
    obtain ⟨hb, hbs⟩ := List.forall_mem_cons.mp hbs
    obtain ⟨u, hu, hrun⟩ := run_cons.mp hrun
    exact run_cons.mpr ⟨put u, hstep t u b hb hu, ih hbs hrun⟩

def Permitted (step : σ → α → Option σ) (C : σ → α → Prop) : σ → List α → Prop
  | _, [] => True
  | s, a :: as => C s a ∧ ∀ t, step s a = some t → Permitted step C t as

lemma run_invariant_of {P : σ → Prop} {C : σ → α → Prop}
    (hstep : ∀ s a s', C s a → P s → step s a = some s' → P s') {s s' : σ} {as : List α}
    (hC : Permitted step C s as) (hs : P s) (h : run step s as = some s') : P s' := by
  induction as generalizing s with
  | nil => exact Option.some.inj h ▸ hs
  | cons a as ih =>
    obtain ⟨t, ht, h⟩ := run_cons.mp h
    exact ih (hC.2 t ht) (hstep s a t hC.1 hs ht) h

lemma permitted_of_forall {C : α → Prop} {as : List α} (hC : ∀ a ∈ as, C a) (s : σ) :
    Permitted step (fun _ => C) s as := by
  induction as generalizing s with
  | nil => trivial
  | cons a as ih =>
    exact ⟨hC a List.mem_cons_self, fun t _ => ih (fun b hb => hC b (List.mem_cons_of_mem a hb)) t⟩

lemma Permitted.mono {C D : σ → α → Prop} (hCD : ∀ s a, C s a → D s a) {s : σ} {as : List α}
    (h : Permitted step C s as) : Permitted step D s as := by
  induction as generalizing s with
  | nil => trivial
  | cons a as ih => exact ⟨hCD s a h.1, fun t ht => ih (h.2 t ht)⟩

lemma run_invariant {P : σ → Prop} (hstep : ∀ s a s', P s → step s a = some s' → P s')
    {s s' : σ} {as : List α} (hs : P s) (h : run step s as = some s') : P s' :=
  run_invariant_of (C := fun _ _ => True) (fun s a s' _ => hstep s a s')
    (permitted_of_forall (fun _ _ => trivial) s) hs h

end HttpNu.Library
