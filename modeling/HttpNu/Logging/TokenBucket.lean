import HttpNu.Logging.Ledger
import Mathlib.Algebra.Order.Floor.Semiring
import Mathlib.Data.Rat.Floor

/-! The rate limiter of the human log, over exact numbers of tokens and of seconds. -/

namespace HttpNu.Logging

structure TokenBucket where
  tokens : ℚ
  capacity : ℚ
  refillRate : ℚ
  lastRefill : ℚ

/-- `Instant::duration_since` is zero for a later instant. -/
def durationSince (now earlier : ℚ) : ℚ := max (now - earlier) 0

namespace TokenBucket

def new (capacity refillRate now : ℚ) : TokenBucket := ⟨capacity, capacity, refillRate, now⟩

/-- The tokens at a call, before it takes one. -/
def available (b : TokenBucket) (now : ℚ) : ℚ :=
  let elapsed := durationSince now b.lastRefill
  min (b.tokens + elapsed * b.refillRate) b.capacity

def tryConsume (b : TokenBucket) (now : ℚ) : TokenBucket × Bool :=
  let b := { b with tokens := b.available now, lastRefill := now }
  if 1 ≤ b.tokens then ({ b with tokens := b.tokens - 1 }, true) else (b, false)

def after (b : TokenBucket) (calls : List ℚ) : TokenBucket := calls.foldl (fun b t => (b.tryConsume t).1) b

def decisions : TokenBucket → List ℚ → List Bool
  | _, [] => []
  | b, t :: calls => (b.tryConsume t).2 :: (b.tryConsume t).1.decisions calls

def accepted (b : TokenBucket) (calls : List ℚ) : Nat := (b.decisions calls).count true

end TokenBucket

open TokenBucket

structure Limits (c r start : ℚ) (calls : List ℚ) : Prop where
  tokens : ∀ earlier, earlier <+: calls →
    0 ≤ ((new c r start).after earlier).tokens ∧ ((new c r start).after earlier).tokens ≤ c
  available : ∀ earlier t later, calls = earlier ++ t :: later →
    0 ≤ ((new c r start).after earlier).available t ∧ ((new c r start).after earlier).available t ≤ c
  window : ∀ earlier window later t₁ t₂, calls = earlier ++ window ++ later → t₁ ≤ t₂ →
    (∀ t ∈ window, t₁ ≤ t ∧ t ≤ t₂) → (((new c r start).after earlier).accepted window : ℚ) ≤ c + r * (t₂ - t₁)
  rejected : ∀ earlier t later, calls = earlier ++ t :: later →
    ((((new c r start).after earlier).tryConsume t).2 = false ↔ ((new c r start).after earlier).available t < 1)
  burst : ∀ earlier t burst later, calls = earlier ++ (t :: burst) ++ later → 0 < r →
    c / r ≤ t - earlier.getLastD start → (t :: burst).length ≤ ⌊c⌋₊ →
    ((new c r start).after earlier).accepted (t :: burst) = (t :: burst).length

namespace TokenBucket

/-- A bucket of this capacity and rate, neither in debt nor over full. -/
structure Sound (c r : ℚ) (b : TokenBucket) : Prop where
  capacity : b.capacity = c
  refillRate : b.refillRate = r
  nonneg : 0 ≤ b.tokens
  le_capacity : b.tokens ≤ c

variable {c r : ℚ} {b : TokenBucket}

lemma tryConsume_eq_or (b : TokenBucket) (t : ℚ) :
    1 ≤ b.available t ∧ b.tryConsume t = (⟨b.available t - 1, b.capacity, b.refillRate, t⟩, true) ∨
      b.available t < 1 ∧ b.tryConsume t = (⟨b.available t, b.capacity, b.refillRate, t⟩, false) := by
  rcases le_or_gt 1 (b.available t) with hle | hlt
  · exact .inl ⟨hle, if_pos hle⟩
  · exact .inr ⟨hlt, if_neg (not_le.mpr hlt)⟩

@[simp] lemma lastRefill_tryConsume (b : TokenBucket) (t : ℚ) : (b.tryConsume t).1.lastRefill = t := by
  rcases tryConsume_eq_or b t with ⟨_, h⟩ | ⟨_, h⟩ <;> rw [h]

lemma tryConsume_eq_false (b : TokenBucket) (t : ℚ) : (b.tryConsume t).2 = false ↔ b.available t < 1 := by
  rcases tryConsume_eq_or b t with ⟨hone, h⟩ | ⟨hlt, h⟩
  · rw [h]
    exact iff_of_false Bool.false_ne_true.symm (not_lt.mpr hone)
  · rw [h]
    exact iff_of_true rfl hlt

@[simp] lemma after_cons (b : TokenBucket) (t : ℚ) (calls : List ℚ) :
    b.after (t :: calls) = (b.tryConsume t).1.after calls := rfl

lemma lastRefill_after (b : TokenBucket) (calls : List ℚ) :
    (b.after calls).lastRefill = calls.getLastD b.lastRefill := by
  induction calls generalizing b with
  | nil => rfl
  | cons t calls ih => rw [after_cons, ih, lastRefill_tryConsume, List.getLastD_cons]

lemma accepted_cons (b : TokenBucket) (t : ℚ) (calls : List ℚ) :
    b.accepted (t :: calls) = b.accepted [t] + (b.tryConsume t).1.accepted calls := by
  simp only [accepted, decisions, List.count_cons, List.count_nil]
  omega

lemma accepted_append (b : TokenBucket) (xs ys : List ℚ) :
    b.accepted (xs ++ ys) = b.accepted xs + (b.after xs).accepted ys := by
  induction xs generalizing b with
  | nil => exact (Nat.zero_add _).symm
  | cons t xs ih =>
    rw [List.cons_append, accepted_cons, ih, accepted_cons b t xs, after_cons]
    omega

lemma accepted_add_tokens (b : TokenBucket) (t : ℚ) :
    (b.accepted [t] : ℚ) + (b.tryConsume t).1.tokens = b.available t := by
  rcases tryConsume_eq_or b t with ⟨_, h⟩ | ⟨_, h⟩
  · simp [accepted, decisions, h]
  · simp [accepted, decisions, h]

lemma accepted_first {t : ℚ} {burst : List ℚ} (h : ((t :: burst).length : ℚ) ≤ b.available t) :
    b.accepted [t] = 1 := by
  have hone : 1 ≤ b.available t := by
    apply le_trans _ h
    exact_mod_cast Nat.le_add_left 1 burst.length
  rcases tryConsume_eq_or b t with ⟨_, heq⟩ | ⟨hlt, _⟩
  · simp [accepted, decisions, heq]
  · exact absurd hone (not_le.mpr hlt)

lemma durationSince_nonneg (now earlier : ℚ) : 0 ≤ durationSince now earlier := le_max_right _ 0

namespace Sound

lemma tokens_le_available (h : Sound c r b) (hr : 0 ≤ r) (t : ℚ) : b.tokens ≤ b.available t := by
  have hgain : 0 ≤ durationSince t b.lastRefill * b.refillRate := by
    rw [h.refillRate]
    exact mul_nonneg (durationSince_nonneg t b.lastRefill) hr
  apply le_min
  · exact le_add_of_nonneg_right hgain
  · exact h.capacity ▸ h.le_capacity

lemma available_nonneg (h : Sound c r b) (hr : 0 ≤ r) (t : ℚ) : 0 ≤ b.available t :=
  h.nonneg.trans (h.tokens_le_available hr t)

lemma available_le_capacity (h : Sound c r b) (t : ℚ) : b.available t ≤ c := by
  rw [← h.capacity]
  exact min_le_right _ b.capacity

lemma available_le (h : Sound c r b) {t : ℚ} (ht : b.lastRefill ≤ t) :
    b.available t ≤ b.tokens + r * (t - b.lastRefill) := by
  have helapsed : durationSince t b.lastRefill = t - b.lastRefill := max_eq_left (sub_nonneg.mpr ht)
  calc b.available t ≤ b.tokens + durationSince t b.lastRefill * b.refillRate := min_le_left _ _
    _ = b.tokens + r * (t - b.lastRefill) := by rw [helapsed, h.refillRate, mul_comm]

lemma available_of_idle (h : Sound c r b) (hr : 0 < r) {t : ℚ} (hidle : c / r ≤ t - b.lastRefill) :
    b.available t = c := by
  have hrefill : c ≤ durationSince t b.lastRefill * r := by
    apply (div_le_iff₀ hr).mp
    exact hidle.trans (le_max_left _ 0)
  rw [available, h.capacity, h.refillRate]
  apply min_eq_right
  exact hrefill.trans (le_add_of_nonneg_left h.nonneg)

lemma tryConsume (h : Sound c r b) (hr : 0 ≤ r) (t : ℚ) : Sound c r (b.tryConsume t).1 := by
  have hlow := h.available_nonneg hr t
  have hhigh := h.available_le_capacity t
  rcases tryConsume_eq_or b t with ⟨hone, heq⟩ | ⟨_, heq⟩
  · rw [heq]
    exact ⟨h.capacity, h.refillRate, sub_nonneg.mpr hone, (sub_le_self _ zero_le_one).trans hhigh⟩
  · rw [heq]
    exact ⟨h.capacity, h.refillRate, hlow, hhigh⟩

lemma after (h : Sound c r b) (hr : 0 ≤ r) (calls : List ℚ) : Sound c r (b.after calls) := by
  induction calls generalizing b with
  | nil => exact h
  | cons t calls ih => exact ih (h.tryConsume hr t)

lemma accepted_add_tokens_le (h : Sound c r b) (hr : 0 ≤ r) {calls : List ℚ}
    (hcalls : (b.lastRefill :: calls).Pairwise (· ≤ ·)) :
    (b.accepted calls : ℚ) + (b.after calls).tokens ≤ b.tokens + r *
    ((b.after calls).lastRefill - b.lastRefill) := by
  -- what is taken and what is left was there before, or came since
  induction calls generalizing b with
  | nil => simp [accepted, decisions, TokenBucket.after]
  | cons t calls ih =>
    obtain ⟨hfirst, hrest⟩ := List.pairwise_cons.mp hcalls
    have htail := ih (h.tryConsume hr t) (by rwa [lastRefill_tryConsume])
    have htake := accepted_add_tokens b t
    have hgain := h.available_le (hfirst t List.mem_cons_self)
    rw [lastRefill_tryConsume] at htail
    rw [accepted_cons, after_cons, Nat.cast_add]
    linarith

lemma accepted_window (h : Sound c r b) (hc : 0 ≤ c) (hr : 0 ≤ r) {window : List ℚ}
    (hsorted : window.Pairwise (· ≤ ·)) {t₁ t₂ : ℚ} (ht : t₁ ≤ t₂) (hwindow : ∀ t ∈ window, t₁ ≤ t ∧ t ≤ t₂) :
    (b.accepted window : ℚ) ≤ c + r * (t₂ - t₁) := by
  cases window with
  | nil => exact add_nonneg hc (mul_nonneg hr (sub_nonneg.mpr ht))
  | cons t window =>
    -- the first call finds at most `c` tokens, whatever the time before it
    have hfirst := h.available_le_capacity t
    have htake := accepted_add_tokens b t
    have hsound := h.tryConsume hr t
    have hlast : ((b.tryConsume t).1.after window).lastRefill ∈ t :: window := by
      rw [lastRefill_after, lastRefill_tryConsume]
      exact List.getLastD_mem_cons
    have hspaced : ((b.tryConsume t).1.lastRefill :: window).Pairwise (· ≤ ·) := by rwa [lastRefill_tryConsume]
    have hrest := hsound.accepted_add_tokens_le hr hspaced
    rw [lastRefill_tryConsume] at hrest
    have hspan : r * (((b.tryConsume t).1.after window).lastRefill - t) ≤ r * (t₂ - t₁) := by
      apply mul_le_mul_of_nonneg_left _ hr
      exact sub_le_sub (hwindow _ hlast).2 (hwindow t List.mem_cons_self).1
    have hleft := (hsound.after hr window).nonneg
    rw [accepted_cons, Nat.cast_add]
    linarith

lemma accepted_of_le_available (h : Sound c r b) (hr : 0 ≤ r) {t : ℚ} {burst : List ℚ}
    (hfits : ((t :: burst).length : ℚ) ≤ b.available t) : b.accepted (t :: burst) = (t :: burst).length := by
  induction burst generalizing b t with
  | nil => exact accepted_first hfits
  | cons u burst ih =>
    have hfirst := accepted_first hfits
    have hsound := h.tryConsume hr t
    have hleft := accepted_add_tokens b t
    rw [hfirst, Nat.cast_one] at hleft
    rw [List.length_cons, Nat.cast_add, Nat.cast_one] at hfits
    have hnext : ((u :: burst).length : ℚ) ≤ (b.tryConsume t).1.available u := by
      apply le_trans _ (hsound.tokens_le_available hr u)
      linarith
    rw [accepted_cons, hfirst, ih hsound hnext, List.length_cons (a := t)]
    omega

lemma new (hc : 0 ≤ c) (start : ℚ) : Sound c r (new c r start) := ⟨rfl, rfl, hc, le_refl c⟩

end Sound

end TokenBucket

theorem tryConsume_limits {c r start : ℚ} (hc : 1 ≤ c) (hr : 0 ≤ r) {calls : List ℚ}
    (hcalls : calls.Pairwise (· ≤ ·)) : Limits c r start calls := by
  have hnonneg : 0 ≤ c := zero_le_one.trans hc
  have hsound : ∀ earlier, Sound c r ((new c r start).after earlier) :=
    fun earlier => (Sound.new hnonneg start).after hr earlier
  constructor
  case tokens =>
    intro earlier _
    exact ⟨(hsound earlier).nonneg, (hsound earlier).le_capacity⟩
  case available =>
    intro earlier t later _
    exact ⟨(hsound earlier).available_nonneg hr t, (hsound earlier).available_le_capacity t⟩
  case window =>
    intro earlier window later t₁ t₂ heq ht hwindow
    apply (hsound earlier).accepted_window hnonneg hr _ ht hwindow
    rw [heq] at hcalls
    exact (List.pairwise_append.mp (List.pairwise_append.mp hcalls).1).2.1
  case rejected =>
    intro earlier t later _
    exact tryConsume_eq_false _ t
  case burst =>
    intro earlier t burst later _ hpos hidle hlength
    apply (hsound earlier).accepted_of_le_available hr
    have hlast : ((new c r start).after earlier).lastRefill = earlier.getLastD start := lastRefill_after _ earlier
    rw [(hsound earlier).available_of_idle hpos (by rwa [hlast])]
    exact (Nat.le_floor_iff hnonneg).mp hlength

theorem tryConsume_limits_human : Limits 40 20 0 [0, 0, 1 / 10, 60] :=
  tryConsume_limits (by norm_num) (by norm_num) (by norm_num)

example : (new 2 20 0).decisions [0, 0, 0, 1 / 10, 1 / 10, 1 / 10] = [true, true, false, true, true, false] := by
  decide +kernel

namespace Human

def Moment.seconds (now : Moment) : ℚ := now.instant / 10 ^ 9

namespace Received

def call : Received → Option ℚ
  | .event (.request _ _) now => some now.seconds
  | _ => none

def rate (bucket : TokenBucket) : Received → TokenBucket × Received
  | .event (.request id request) now =>
    let (bucket, admits) := bucket.tryConsume now.seconds
    (bucket, .event (.request id request) { now with tryConsume := admits })
  | r => (bucket, r)

lemma rate_of_call_eq_none {r : Received} (h : r.call = none) (bucket : TokenBucket) :
    r.rate bucket = (bucket, r) ∧ r.admitted = none := by
  cases r with
  | event e now =>
    cases e with
    | request id request => cases h
    | _ => exact ⟨rfl, rfl⟩
  | _ => exact ⟨rfl, rfl⟩

lemma rate_of_call_eq_some {r : Received} {t : ℚ} (h : r.call = some t) (bucket : TokenBucket) :
    (r.rate bucket).1 = (bucket.tryConsume t).1 ∧
      (r.rate bucket).2.admitted.toList.length = bucket.accepted [t] := by
  cases r with
  | event e now =>
    cases e with
    | request id request =>
      obtain rfl : now.seconds = t := Option.some.inj h
      refine ⟨rfl, ?_⟩
      cases hadmits : (bucket.tryConsume now.seconds).2 <;> simp [rate, admitted, accepted, decisions, hadmits]
    | _ => cases h
  | _ => cases h

end Received

def rated : TokenBucket → List Received → List Received
  | _, [] => []
  | bucket, r :: received => (r.rate bucket).2 :: rated (r.rate bucket).1 received

def admittedCount (start : ℚ) (received : List Received) : Nat :=
  ((rated (new 40 20 start) received).filterMap Received.admitted).length

lemma length_admitted_rated (bucket : TokenBucket) (received : List Received) :
    ((rated bucket received).filterMap Received.admitted).length =
      bucket.accepted (received.filterMap Received.call) := by
  induction received generalizing bucket with
  | nil => rfl
  | cons r received ih =>
    have hlength : ∀ rs : List Received, ((r.rate bucket).2 :: rs).filterMap Received.admitted =
        (r.rate bucket).2.admitted.toList ++ rs.filterMap Received.admitted := by
      intro rs
      cases h : (r.rate bucket).2.admitted <;> simp [h]
    rw [rated, hlength, List.length_append, ih]
    cases hcall : r.call with
    | none =>
      obtain ⟨hrate, hadmitted⟩ := Received.rate_of_call_eq_none hcall bucket
      simp [hrate, hadmitted, hcall]
    | some t =>
      obtain ⟨hrate, hadmitted⟩ := Received.rate_of_call_eq_some hcall bucket
      rw [hrate, hadmitted, List.filterMap_cons_some hcall,
        accepted_cons bucket t (received.filterMap Received.call)]

/-- However many requests come, at most forty are admitted at once, and twenty more each second. -/
theorem admittedCount_le {start t₁ t₂ : ℚ} {earlier window : List Received}
    (hsorted : (window.filterMap Received.call).Pairwise (· ≤ ·)) (ht : t₁ ≤ t₂)
    (hwindow : ∀ t ∈ window.filterMap Received.call, t₁ ≤ t ∧ t ≤ t₂) :
    (admittedCount start (earlier ++ window) : ℚ) ≤ admittedCount start earlier + (40 + 20 * (t₂ - t₁)) := by
  have hsound : TokenBucket.Sound 40 20 ((new 40 20 start).after (earlier.filterMap Received.call)) :=
    (TokenBucket.Sound.new (by norm_num) start).after (by norm_num) _
  have hbound := hsound.accepted_window (by norm_num) (by norm_num) hsorted ht hwindow
  rw [admittedCount, admittedCount, length_admitted_rated, length_admitted_rated, List.filterMap_append,
    accepted_append, Nat.cast_add]
  exact add_le_add_right hbound _

end Human

end HttpNu.Logging
