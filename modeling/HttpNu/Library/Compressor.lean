import HttpNu.Library.Codec

/-! Compressors that are offered their input, and asked for their output, a buffer at a time. -/

namespace HttpNu.Library

/-- A call of a compressor: so much input in the array from the offset on, and so much room for output. -/
structure Offer where
  op : Op
  availIn : Nat
  nextIn : Octets
  nextInOffset : Nat
  availOut : Nat

namespace Offer

def Proper (o : Offer) : Prop := o.availIn = 0 ∨ o.nextInOffset + o.availIn ≤ o.nextIn.length

instance (o : Offer) : Decidable o.Proper := instDecidableOr

def Plain (o : Offer) : Prop := o.op = .process ∨ o.availIn = 0

def piece (o : Offer) (taken : Nat) : Octets := (o.nextIn.drop o.nextInOffset).take taken

end Offer

/-- The input that a call took and the output that it wrote; or it was refused, or read outside the array. -/
inductive Compressed where
  | ok (taken : Nat) (out : Octets)
  | refused
  | panicked

/-- A compressor is known by the calls made to it, the latest first. -/
structure Compressor where
  compressStream : List Offer → Offer → Compressed
  isFinished : List Offer → Bool
  hasMoreOutput : List Offer → Bool
  /-- what an operation still has to do, by the length of its input that is left -/
  work : List Offer → Op → Nat → Nat

namespace Compressor

variable (c : Compressor)

def taken : List Offer → Octets
  | [] => []
  | o :: earlier =>
    taken earlier ++
      match c.compressStream earlier o with
      | .ok n _ => o.piece n
      | _ => []

def written : List Offer → Octets
  | [] => []
  | o :: earlier =>
    written earlier ++
      match c.compressStream earlier o with
      | .ok _ out => out
      | _ => []

def isDone (offers : List Offer) (op : Op) (left : Nat) : Bool :=
  match op with
  | .finish => c.isFinished offers
  | .flush => !c.hasMoreOutput offers
  | .process => left = 0 && !c.hasMoreOutput offers

/-- A flush or a finish that is not complete goes on, and nothing comes after the end. -/
def Follows : List Offer → Offer → Prop
  | [], o => o.Plain
  | last :: earlier, o => o.Plain ∧
    match last.op with
    | .process => True
    | .flush => c.hasMoreOutput (last :: earlier) = true → o.op = .flush
    | .finish => c.isFinished (last :: earlier) = false ∧ o.op = .finish

def Legal : List Offer → Prop
  | [] => True
  | o :: earlier => Legal earlier ∧ c.Follows earlier o ∧ ∃ n out, c.compressStream earlier o = .ok n out

def AtRest (offers : List Offer) : Prop := ∀ o : Offer, o.Plain → c.Follows offers o

def Settled : List Offer → Prop
  | [] => True
  | last :: earlier => last.op ≠ .process ∧ c.isDone (last :: earlier) last.op 0 = true

/-- A call in its turn is not refused, and answered if its array has the input; it takes no more than it was
offered; with room for output it brings its operation forward; and what was written up to a completed flush or
finish decodes to what was taken up to it. -/
structure Lawful (decode : Octets → Octets) : Prop where
  never_refuses : ∀ offers o, c.Legal offers → c.Follows offers o → c.compressStream offers o ≠ .refused
  answers : ∀ offers o, c.Legal offers → c.Follows offers o → o.Proper → c.compressStream offers o ≠ .panicked
  takes : ∀ offers o n out, c.compressStream offers o = .ok n out →
    n ≤ o.availIn ∧ (n = 0 ∨ o.nextInOffset + n ≤ o.nextIn.length)
  progress : ∀ offers o n out, c.Legal offers → c.Follows offers o → o.Proper → 0 < o.availOut →
    c.compressStream offers o = .ok n out → c.isDone (o :: offers) o.op (o.availIn - n) = false →
      c.work (o :: offers) o.op (o.availIn - n) < c.work offers o.op o.availIn
  decode_settled : ∀ offers, c.Legal offers → c.Settled offers → decode (c.written offers) = c.taken offers

/-- A completed finish completes an encoding of all that was taken, which `undo` reads back. -/
def Completes (undo : Octets → Option Octets) : Prop :=
  ∀ offers, c.Legal offers → c.Settled offers → (∃ last ∈ offers.head?, last.op = .finish) →
    undo (c.written offers) = some (c.taken offers)

/-- Input that is there is never left for a second call. -/
def TakesWhole : Prop :=
  ∀ offers o n out, c.Legal offers → c.Follows offers o → o.Proper → c.compressStream offers o = .ok n out →
    n = o.availIn

variable {c} {offers : List Offer} {o : Offer} {n : Nat} {out : Octets} {decode : Octets → Octets}

lemma taken_cons (h : c.compressStream offers o = .ok n out) :
    c.taken (o :: offers) = c.taken offers ++ o.piece n := by
  rw [taken, h]

lemma written_cons (h : c.compressStream offers o = .ok n out) :
    c.written (o :: offers) = c.written offers ++ out := by
  rw [written, h]

lemma Legal.cons (hlegal : c.Legal offers) (hfollows : c.Follows offers o)
    (h : c.compressStream offers o = .ok n out) :
    c.Legal (o :: offers) :=
  ⟨hlegal, hfollows, n, out, h⟩

lemma atRest_nil : c.AtRest [] := fun _ ho => ho

lemma atRest_process (ho : o.op = .process) : c.AtRest (o :: offers) := by
  intro next hnext
  rw [Follows, ho]
  exact ⟨hnext, trivial⟩

lemma atRest_flushed (ho : o.op = .flush) (hmore : c.hasMoreOutput (o :: offers) = false) :
    c.AtRest (o :: offers) := by
  intro next hnext
  rw [Follows, ho]
  exact ⟨hnext, fun h => absurd h (by simp [hmore])⟩

lemma Lawful.answer (hlaw : c.Lawful decode) (hlegal : c.Legal offers) (hfollows : c.Follows offers o) :
    c.compressStream offers o = .panicked ∨ ∃ n out, c.compressStream offers o = .ok n out := by
  cases h : c.compressStream offers o with
  | ok n out => exact Or.inr ⟨n, out, rfl⟩
  | refused => exact absurd h (hlaw.never_refuses offers o hlegal hfollows)
  | panicked => exact Or.inl rfl

lemma Lawful.answer_proper (hlaw : c.Lawful decode) (hlegal : c.Legal offers) (hfollows : c.Follows offers o)
    (ho : o.Proper) : ∃ n out, c.compressStream offers o = .ok n out :=
  (hlaw.answer hlegal hfollows).resolve_left (hlaw.answers offers o hlegal hfollows ho)

/-- The input that waits to be written by the calls of a flush or a finish, an octet each. -/
def waiting : List Offer → Octets
  | [] => []
  | o :: earlier =>
    match o.op with
    | .process => waiting earlier ++ o.piece o.availIn
    | .flush => (waiting earlier).tail
    | .finish => (waiting earlier).tail

end Compressor

end HttpNu.Library
